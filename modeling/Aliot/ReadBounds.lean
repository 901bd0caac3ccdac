import Aliot.ReadPacket

set_option autoImplicit false

namespace Aliot

-- Offsets of readbuf that a list of block stores writes to.
def touched (stores : List (Nat × Bytes)) : List Nat :=
  stores.flatMap (fun (start, bytes) => List.range' start bytes.length)

-- The length bytes that arrive, the value they form, and the read of the body it announces.
def fieldOf (net : Net) : Bytes × Net := lengthField MAX_NO_OF_REMAINING_LENGTH_BYTES (mqttread net 1).net
def lengthOf (net : Net) : Nat := VarInt.value (fieldOf net).1
def bodyOf (net : Net) : NetRead := mqttread (fieldOf net).2 (lengthOf net)
def frontLength (net : Net) : Nat := 1 + (VarInt.encode (lengthOf net)).length

def frontStores (net : Net) (byte : UInt8) : List (Nat × Bytes) := [(0, [byte]), (1, VarInt.encode (lengthOf net))]
def allStores (net : Net) (byte : UInt8) : List (Nat × Bytes) :=
  frontStores net byte ++ [(frontLength net, (bodyOf net).bytes)]

theorem silent_failed (net : Net) (silent : (mqttread net 1).bytes = []) : (mqttread net 1).rc ≠ 1 := by
  rw [ne_eq, read_one_iff, silent]
  simp

theorem length_decoded (net : Net) : (decodePacket (mqttread net 1).net).value = lengthOf net ∧
    (decodePacket (mqttread net 1).net).net = (fieldOf net).2 := decode_packet_field (mqttread net 1).net

theorem read_packet_silent (readbuf : Nat → UInt8) (net : Net) (silent : (mqttread net 1).bytes = []) :
    readPacket readbuf net = ⟨FAILURE, [(0, [])], readbuf, (mqttread net 1).net⟩ := by
  have failed := silent_failed net silent
  simp only [readPacket, failed, ne_eq, not_false_eq_true, if_true, silent, applyStores, List.foldl_cons,
    List.foldl_nil, Memory.store]

theorem front_keeps_header (readbuf : Nat → UInt8) (net : Net) (byte : UInt8) :
    applyStores readbuf (frontStores net byte) 0 = byte := by
  simp only [frontStores, applyStores, List.foldl_cons, List.foldl_nil]
  rw [Memory.store_outside _ _ _ _ (by omega), Memory.store, Memory.store, Function.update_self]

theorem body_keeps_header (readbuf : Nat → UInt8) (net : Net) (byte : UInt8) :
    applyStores readbuf (allStores net byte) 0 = byte := by
  rw [allStores, applyStores, List.foldl_append]
  change Memory.store (applyStores readbuf (frontStores net byte)) _ _ 0 = byte
  rw [Memory.store_outside _ _ _ _ (by unfold frontLength; omega), front_keeps_header]

theorem started_rc (net : Net) (byte : UInt8) (started : (mqttread net 1).bytes = [byte]) : (mqttread net 1).rc = 1 :=
  (read_one_iff net).mpr ⟨byte, started⟩

theorem read_packet_empty_body (readbuf : Nat → UInt8) (net : Net) (byte : UInt8)
    (started : (mqttread net 1).bytes = [byte]) (empty : lengthOf net = 0) :
    readPacket readbuf net =
      ⟨headerType byte, frontStores net byte, applyStores readbuf (frontStores net byte), (fieldOf net).2⟩ := by
  obtain ⟨value, rest⟩ := length_decoded net
  have header := front_keeps_header readbuf net byte
  simp only [frontStores, empty] at header
  simp only [readPacket, started_rc net byte started, started, value, rest, mqtt_packet_encode_refines, empty, ne_eq,
    not_true, if_false, gt_iff_lt, Nat.lt_irrefl, List.cons_append, List.nil_append, frontStores, header]

theorem read_packet_with_body (readbuf : Nat → UInt8) (net : Net) (byte : UInt8)
    (started : (mqttread net 1).bytes = [byte]) (more : 0 < lengthOf net) :
    readPacket readbuf net =
      ⟨if (bodyOf net).bytes.length = lengthOf net then headerType byte else FAILURE,
        allStores net byte, applyStores readbuf (allStores net byte), (bodyOf net).net⟩ := by
  obtain ⟨value, rest⟩ := length_decoded net
  have body : mqttread (fieldOf net).2 (lengthOf net) = bodyOf net := rfl
  have complete := read_complete_iff (fieldOf net).2 (lengthOf net)
  have header := body_keeps_header readbuf net byte
  simp only [allStores, frontStores, frontLength, List.cons_append, List.nil_append] at header
  rw [body] at complete
  simp only [readPacket, started_rc net byte started, started, value, rest, mqtt_packet_encode_refines, ne_eq, not_true,
    if_false, gt_iff_lt, more, if_true, List.cons_append, List.nil_append, body, allStores, frontStores, frontLength, header]
  by_cases all : (bodyOf net).bytes.length = lengthOf net
  · simp only [complete.mpr all, not_true, if_false, all, if_true]
  · simp only [mt complete.mp all, not_false_eq_true, if_true, all, if_false]

theorem mem_touched_all (net : Net) (byte : UInt8) (i : Nat) :
    i ∈ touched (allStores net byte) ↔ i < frontLength net + (bodyOf net).bytes.length := by
  simp only [touched, allStores, frontStores, frontLength, List.cons_append, List.nil_append, List.flatMap_cons,
    List.flatMap_nil, List.append_nil, List.mem_append, List.mem_range', List.length_cons, List.length_nil]
  constructor
  · rintro (⟨k, low, rfl⟩ | ⟨k, low, rfl⟩ | ⟨k, low, rfl⟩) <;> omega
  · intro bound
    by_cases front : i < 1
    · exact Or.inl ⟨i, by omega, by omega⟩
    · by_cases middle : i < 1 + (VarInt.encode (lengthOf net)).length
      · exact Or.inr (Or.inl ⟨i - 1, by omega, by omega⟩)
      · exact Or.inr (Or.inr ⟨i - (1 + (VarInt.encode (lengthOf net)).length), by omega, by omega⟩)

theorem touched_empty_body (net : Net) (byte : UInt8) (empty : lengthOf net = 0) :
    touched (frontStores net byte) = touched (allStores net byte) := by
  have none : (bodyOf net).bytes = [] := by
    have bound := read_bytes_le (fieldOf net).2 (lengthOf net)
    rw [empty] at bound
    exact List.length_eq_zero_iff.mp (Nat.le_zero.mp (by simpa only [bodyOf, empty] using bound))
  simp [touched, allStores, none]

theorem read_packet_touches (readbuf : Nat → UInt8) (net : Net) (byte : UInt8)
    (started : (mqttread net 1).bytes = [byte]) (i : Nat) :
    i ∈ touched (readPacket readbuf net).stores ↔ i < frontLength net + (bodyOf net).bytes.length := by
  by_cases more : 0 < lengthOf net
  · rw [read_packet_with_body readbuf net byte started more, mem_touched_all]
  · have empty : lengthOf net = 0 := by omega
    rw [read_packet_empty_body readbuf net byte started empty, touched_empty_body net byte empty, mem_touched_all]

theorem header_cases (net : Net) : (mqttread net 1).bytes = [] ∨ ∃ byte, (mqttread net 1).bytes = [byte] := by
  have bound := read_bytes_le net 1
  cases arrived : (mqttread net 1).bytes with
  | nil => exact Or.inl rfl
  | cons byte rest =>
      rw [arrived] at bound
      have one : rest = [] := List.length_eq_zero_iff.mp (by simpa using bound)
      exact Or.inr ⟨byte, by rw [one]⟩

-- Size of the packet whose header and length field arrived; none without a header.
def announced (net : Net) : Nat := if (mqttread net 1).bytes = [] then 0 else frontLength net + lengthOf net

def StoresWithin (readbufSize : Nat) (read : PacketRead) : Prop := ∀ i ∈ touched read.stores, i < readbufSize

def BoundsKept (readbufSize : Nat) (readbuf : Nat → UInt8) (net : Net) : Prop :=
  StoresWithin readbufSize (readPacket readbuf net) ∧
    (readbufSize < announced net → (readPacket readbuf net).rc = FAILURE)

def ArrivalFits (readbufSize : Nat) (net : Net) : Prop :=
  (mqttread net 1).bytes ≠ [] → frontLength net + (bodyOf net).bytes.length ≤ readbufSize

theorem stores_within_iff (readbufSize : Nat) (readbuf : Nat → UInt8) (net : Net) :
    StoresWithin readbufSize (readPacket readbuf net) ↔ ArrivalFits readbufSize net := by
  rcases header_cases net with silent | ⟨byte, started⟩
  · rw [read_packet_silent readbuf net silent]
    simp [StoresWithin, ArrivalFits, touched, silent]
  · simp only [StoresWithin, ArrivalFits, read_packet_touches readbuf net byte started, started, ne_eq,
      List.cons_ne_nil, not_false_eq_true, forall_const]
    constructor
    · intro within
      by_contra long
      exact absurd (within readbufSize (by omega)) (Nat.lt_irrefl _)
    · intro fits i bound
      omega

theorem too_long_rejected (readbufSize : Nat) (readbuf : Nat → UInt8) (net : Net) (fits : ArrivalFits readbufSize net)
    (long : readbufSize < announced net) : (readPacket readbuf net).rc = FAILURE := by
  rcases header_cases net with silent | ⟨byte, started⟩
  · rw [read_packet_silent readbuf net silent]
  · have present : (mqttread net 1).bytes ≠ [] := by simp [started]
    have room := fits present
    simp only [announced, if_neg present] at long
    rw [read_packet_with_body readbuf net byte started (by omega)]
    exact if_neg (by omega)

theorem read_packet_bounds_iff (readbufSize : Nat) (readbuf : Nat → UInt8) (net : Net) :
    BoundsKept readbufSize readbuf net ↔ ArrivalFits readbufSize net := by
  constructor
  · intro kept
    exact (stores_within_iff readbufSize readbuf net).mp kept.1
  · intro fits
    exact ⟨(stores_within_iff readbufSize readbuf net).mpr fits, too_long_rejected readbufSize readbuf net fits⟩

-- A PUBLISH of 4097 bytes in all, arriving without a pause, against the 4096 bytes of client_readbuf.
def oversized : Net := ⟨[0x30, 0xFE, 0x1F] ++ List.replicate 4094 0, []⟩

theorem oversized_arrives : (mqttread oversized 1).bytes = [0x30] ∧ (fieldOf oversized).1 = [0xFE, 0x1F] ∧
    (fieldOf oversized).2 = ⟨List.replicate 4094 0, []⟩ := ⟨rfl, rfl, rfl⟩

theorem read_packet_overruns : ¬ ∀ (readbufSize : Nat) (readbuf : Nat → UInt8) (net : Net),
    BoundsKept readbufSize readbuf net := by
  intro always
  obtain ⟨header, digits, rest⟩ := oversized_arrives
  have length : lengthOf oversized = 4094 := by rw [lengthOf, digits]; rfl
  have body : (bodyOf oversized).bytes.length = 4094 := by
    rw [bodyOf, length, rest]
    simp only [mqttread, allowance, List.take_replicate, List.length_replicate, Nat.min_self]
  have fits := (stores_within_iff 4096 (fun _ => 0) oversized).mp (always 4096 (fun _ => 0) oversized).1
  have bound := fits (by simp [header])
  have front : frontLength oversized = 3 := by rw [frontLength, length]; decide
  rw [body, front] at bound
  omega

end Aliot
