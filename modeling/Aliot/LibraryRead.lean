import Aliot.ReadFraming

set_option autoImplicit false

namespace Aliot

-- MQTTPacket_read; getfn reads from the network as mqttread does, and MQTTPacket_decode over it is the loop of decodePacket.
def mqttPacketRead (buflen : Nat) (buf : Nat → UInt8) (net : Net) : PacketRead :=
  let header := mqttread net 1
  let stores := [(0, header.bytes)]
  if header.rc ≠ 1 then ⟨-1, stores, applyStores buf stores, header.net⟩
  else
    let length := decodePacket header.net
    let encoded := mqttPacketEncode length.value
    let stores := stores ++ [(1, encoded)]
    let len := 1 + encoded.length
    if length.value + len > buflen then ⟨-1, stores, applyStores buf stores, length.net⟩
    else
      let body := mqttread length.net length.value
      let stores := stores ++ [(len, body.bytes)]
      if body.rc ≠ length.value then ⟨-1, stores, applyStores buf stores, body.net⟩
      else ⟨headerType (applyStores buf stores 0), stores, applyStores buf stores, body.net⟩

section Read

variable (buflen : Nat) (buf : Nat → UInt8) (net : Net)

theorem library_read_silent (silent : (mqttread net 1).bytes = []) :
    mqttPacketRead buflen buf net = ⟨-1, [(0, [])], buf, (mqttread net 1).net⟩ := by
  have failed := silent_failed net silent
  simp only [mqttPacketRead, failed, ne_eq, not_false_eq_true, if_true, silent, applyStores, List.foldl_cons,
    List.foldl_nil, Memory.store]

theorem library_read_refused (byte : UInt8) (started : (mqttread net 1).bytes = [byte])
    (long : buflen < frontLength net + lengthOf net) :
    mqttPacketRead buflen buf net =
      ⟨-1, frontStores net byte, applyStores buf (frontStores net byte), (fieldOf net).2⟩ := by
  obtain ⟨value, rest⟩ := length_decoded net
  have room : lengthOf net + (1 + (VarInt.encode (lengthOf net)).length) > buflen := by
    rw [Nat.add_comm]
    exact long
  simp only [mqttPacketRead, started_rc net byte started, started, value, rest, mqtt_packet_encode_refines, ne_eq, not_true,
    if_false, if_pos room, List.cons_append, List.nil_append, frontStores]

theorem library_read_fits (byte : UInt8) (started : (mqttread net 1).bytes = [byte])
    (fits : frontLength net + lengthOf net ≤ buflen) :
    mqttPacketRead buflen buf net =
      ⟨if (bodyOf net).bytes.length = lengthOf net then headerType byte else -1, allStores net byte,
        applyStores buf (allStores net byte), (bodyOf net).net⟩ := by
  obtain ⟨value, rest⟩ := length_decoded net
  have body : mqttread (fieldOf net).2 (lengthOf net) = bodyOf net := rfl
  have complete := read_complete_iff (fieldOf net).2 (lengthOf net)
  have header := body_keeps_header buf net byte
  simp only [allStores, frontStores, frontLength, List.cons_append, List.nil_append] at header
  rw [body] at complete
  have room : ¬ lengthOf net + (1 + (VarInt.encode (lengthOf net)).length) > buflen := by
    rw [Nat.add_comm]
    exact Nat.not_lt.mpr fits
  simp only [mqttPacketRead, started_rc net byte started, started, value, rest, mqtt_packet_encode_refines, ne_eq, not_true,
    if_false, if_neg room, List.cons_append, List.nil_append, body, allStores, frontStores, frontLength, header]
  by_cases all : (bodyOf net).bytes.length = lengthOf net
  · simp only [complete.mpr all, not_true, if_false, all, if_true]
  · simp only [mt complete.mp all, not_false_eq_true, if_true, all, if_false]

theorem length_field_short (left : Nat) (net : Net) : (lengthField left net).1.length ≤ left := by
  induction left generalizing net with
  | zero => exact Nat.le_refl _
  | succ left ih =>
      simp only [lengthField]
      cases (mqttread net 1).bytes with
      | nil => exact Nat.zero_le _
      | cons byte rest =>
          by_cases more : VarInt.continues byte = true
          · simpa only [if_pos more, List.length_cons, Nat.add_le_add_iff_right] using ih (mqttread net 1).net
          · simp only [if_neg more, List.length_cons, List.length_nil, Nat.le_add_left]

-- Four length bytes announce less than 128^4, which re-encodes in four bytes again.
theorem front_length_short : frontLength net ≤ 5 := by
  have few : (fieldOf net).1.length ≤ 4 := length_field_short 4 (mqttread net 1).net
  have small : lengthOf net < 128 ^ 4 :=
    Nat.lt_of_lt_of_le (VarInt.value_lt (fieldOf net).1) (Nat.pow_le_pow_right (by decide) few)
  have encoded := VarInt.encode_length_le 3 (lengthOf net) small
  unfold frontLength
  omega

-- What the client's readPacket leaves unchecked, checked: the stores stay inside a buffer of five bytes or more.
structure Guarded : Prop where
  inside : StoresWithin (max buflen 5) (mqttPacketRead buflen buf net)
  same : announced net ≤ buflen →
    (mqttPacketRead buflen buf net).rc = (readPacket buf net).rc ∧
    (mqttPacketRead buflen buf net).readbuf = (readPacket buf net).readbuf ∧
    (mqttPacketRead buflen buf net).net.stream = (readPacket buf net).net.stream
  refused : buflen < announced net →
    (mqttPacketRead buflen buf net).rc = -1 ∧
    net.stream = (mqttread net 1).bytes ++ (fieldOf net).1 ++ (mqttPacketRead buflen buf net).net.stream

theorem empty_body_same (byte : UInt8) (empty : lengthOf net = 0) :
    applyStores buf (allStores net byte) = applyStores buf (frontStores net byte) ∧
      (bodyOf net).net.stream = (fieldOf net).2.stream := by
  have none : (bodyOf net).bytes = [] := by
    have bound := read_bytes_le (fieldOf net).2 (lengthOf net)
    rw [empty] at bound
    exact List.length_eq_zero_iff.mp (Nat.le_zero.mp (by simpa only [bodyOf, empty] using bound))
  constructor
  · simp only [allStores, applyStores, List.foldl_append, none, List.foldl_cons, List.foldl_nil, Memory.store]
  · have splits := read_splits (fieldOf net).2 (lengthOf net)
    change (fieldOf net).2.stream = (bodyOf net).bytes ++ (bodyOf net).net.stream at splits
    rw [none, List.nil_append] at splits
    exact splits.symm

theorem library_read_same (byte : UInt8) (started : (mqttread net 1).bytes = [byte])
    (fits : frontLength net + lengthOf net ≤ buflen) :
    (mqttPacketRead buflen buf net).rc = (readPacket buf net).rc ∧
    (mqttPacketRead buflen buf net).readbuf = (readPacket buf net).readbuf ∧
    (mqttPacketRead buflen buf net).net.stream = (readPacket buf net).net.stream := by
  rw [library_read_fits buflen buf net byte started fits]
  by_cases more : 0 < lengthOf net
  · rw [read_packet_with_body buf net byte started more]
    exact ⟨rfl, rfl, rfl⟩
  · have empty : lengthOf net = 0 := Nat.eq_zero_of_not_pos more
    have bound : (bodyOf net).bytes.length ≤ lengthOf net := read_bytes_le (fieldOf net).2 (lengthOf net)
    obtain ⟨stored, stream⟩ := empty_body_same buf net byte empty
    rw [read_packet_empty_body buf net byte started empty]
    exact ⟨if_pos (by omega), stored, stream⟩

theorem mem_touched_front (byte : UInt8) (i : Nat) : i ∈ touched (frontStores net byte) ↔ i < frontLength net := by
  simp only [touched, frontStores, frontLength, List.flatMap_cons, List.flatMap_nil, List.append_nil, List.mem_append,
    List.mem_range'_1, List.length_cons, List.length_nil]
  omega

theorem library_read_inside (byte : UInt8) (started : (mqttread net 1).bytes = [byte]) :
    StoresWithin (max buflen 5) (mqttPacketRead buflen buf net) := by
  intro i stored
  by_cases fits : frontLength net + lengthOf net ≤ buflen
  · have bound : (bodyOf net).bytes.length ≤ lengthOf net := read_bytes_le (fieldOf net).2 (lengthOf net)
    rw [library_read_fits buflen buf net byte started fits] at stored
    have low := (mem_touched_all net byte i).mp stored
    exact Nat.lt_of_lt_of_le (by omega) (Nat.le_max_left buflen 5)
  · have front := front_length_short net
    rw [library_read_refused buflen buf net byte started (Nat.lt_of_not_le fits)] at stored
    have low := (mem_touched_front net byte i).mp stored
    exact Nat.lt_of_lt_of_le (by omega) (Nat.le_max_right buflen 5)

theorem library_read_guarded : Guarded buflen buf net := by
  rcases header_cases net with silent | ⟨byte, started⟩
  · have read := library_read_silent buflen buf net silent
    refine ⟨?_, fun _ => ?_, fun long => ?_⟩
    · rw [read]
      simp [StoresWithin, touched]
    · rw [read, read_packet_silent buf net silent]
      exact ⟨rfl, rfl, rfl⟩
    · simp only [announced, if_pos silent] at long
      exact absurd long (Nat.not_lt_zero _)
  · have size : announced net = frontLength net + lengthOf net := if_neg (by simp [started])
    refine ⟨library_read_inside buflen buf net byte started,
      fun fits => library_read_same buflen buf net byte started (size ▸ fits), fun long => ?_⟩
    rw [library_read_refused buflen buf net byte started (size ▸ long), List.append_assoc]
    exact ⟨rfl, (read_splits net 1).trans (congrArg _ (length_field_splits 4 (mqttread net 1).net))⟩

end Read

end Aliot
