import Mathlib.Tactic.Ring
import Aliot.CString
import Aliot.Memory
import Aliot.VarInt

set_option autoImplicit false

namespace Aliot

def SUCCESS : Int := 0
def FAILURE : Int := -1

-- All bytes asked for arrive in time, or the read gives up after some and reports -1 or the short count.
inductive Timing where
  | full
  | cut (bytes : Nat) (short : Bool)
deriving DecidableEq, Repr

structure Net where
  stream : Bytes
  timings : List Timing

structure NetRead where
  bytes : Bytes
  rc : Int
  net : Net

def allowance (net : Net) (len : Nat) : Nat :=
  match net.timings with
  | .cut bytes _ :: _ => min bytes len
  | _ => len

def mqttread (net : Net) (len : Nat) : NetRead :=
  let got := net.stream.take (allowance net len)
  let rc : Int :=
    if got.length = len then len
    else match net.timings with
      | .cut _ true :: _ => got.length
      | _ => -1
  ⟨got, rc, ⟨net.stream.drop (allowance net len), net.timings.tail⟩⟩

def MAX_NO_OF_REMAINING_LENGTH_BYTES : Nat := 4

structure Decoded where
  len : Nat
  value : Nat
  net : Net

-- The do-while of decodePacket; the number of bytes tried counts a failed read too.
def decodeLoop : Nat → Net → Nat → Nat → Nat → Decoded
  | 0, net, len, value, _ => ⟨len + 1, value, net⟩
  | left + 1, net, len, value, multiplier =>
      let read := mqttread net 1
      if read.rc ≠ 1 then ⟨len + 1, value, read.net⟩
      else
        let i := read.bytes.headD 0
        let value := value + (i &&& 127).toNat * multiplier
        if i &&& 128 ≠ 0 then decodeLoop left read.net (len + 1) value (multiplier * 128)
        else ⟨len + 1, value, read.net⟩

def decodePacket (net : Net) : Decoded := decodeLoop MAX_NO_OF_REMAINING_LENGTH_BYTES net 0 0 1

def encodeLoop : Nat → Nat → Bytes
  | 0, _ => []
  | fuel + 1, length =>
      let d := UInt8.ofNat (length % 128)
      let length := length / 128
      if length > 0 then (d ||| 0x80) :: encodeLoop fuel length else [d]

def mqttPacketEncode (length : Nat) : Bytes := encodeLoop (length + 1) length

-- The stores into readbuf in order, each a block at its offset.
structure PacketRead where
  rc : Int
  stores : List (Nat × Bytes)
  readbuf : Nat → UInt8
  net : Net

def applyStores (readbuf : Nat → UInt8) (stores : List (Nat × Bytes)) : Nat → UInt8 :=
  stores.foldl (fun mem (start, bytes) => Memory.store mem start bytes) readbuf

def headerType (byte : UInt8) : Nat := byte.toNat >>> 4

def readPacket (readbuf : Nat → UInt8) (net : Net) : PacketRead :=
  let header := mqttread net 1
  let stores := [(0, header.bytes)]
  if header.rc ≠ 1 then ⟨FAILURE, stores, applyStores readbuf stores, header.net⟩
  else
    let length := decodePacket header.net
    let encoded := mqttPacketEncode length.value
    let stores := stores ++ [(1, encoded)]
    let len := 1 + encoded.length
    if length.value > 0 then
      let body := mqttread length.net length.value
      let stores := stores ++ [(len, body.bytes)]
      if body.rc ≠ length.value then ⟨FAILURE, stores, applyStores readbuf stores, body.net⟩
      else ⟨headerType (applyStores readbuf stores 0), stores, applyStores readbuf stores, body.net⟩
    else ⟨headerType (applyStores readbuf stores 0), stores, applyStores readbuf stores, length.net⟩

theorem read_complete_iff (net : Net) (len : Nat) :
    (mqttread net len).rc = len ↔ (mqttread net len).bytes.length = len := by
  simp only [mqttread]
  split
  · rename_i all
    simp only [all]
  · rename_i missing
    have short : (net.stream.take (allowance net len)).length ≠ len := missing
    split <;> omega

theorem read_one_iff (net : Net) : (mqttread net 1).rc = 1 ↔ ∃ byte, (mqttread net 1).bytes = [byte] := by
  have complete := read_complete_iff net 1
  simp only [Nat.cast_one] at complete
  rw [complete, List.length_eq_one_iff]

theorem read_bytes_le (net : Net) (len : Nat) : (mqttread net len).bytes.length ≤ len := by
  have within : allowance net len ≤ len := by
    unfold allowance
    split <;> omega
  simp only [mqttread, List.length_take]
  omega

theorem read_splits (net : Net) (len : Nat) :
    net.stream = (mqttread net len).bytes ++ (mqttread net len).net.stream := by
  simp only [mqttread, List.take_append_drop]

theorem or_top_bit : ∀ n : Fin 128, UInt8.ofNat n.val ||| 0x80 = UInt8.ofNat (n.val + 128) := by decide +kernel

theorem top_bit : ∀ n : Fin 256, UInt8.ofNat n.val &&& 128 ≠ 0 ↔ 128 ≤ n.val := by decide +kernel

theorem group_bits (byte : UInt8) : (byte &&& 127).toNat = VarInt.group byte := by
  rw [UInt8.toNat_and, VarInt.group]
  exact Nat.and_two_pow_sub_one_eq_mod byte.toNat 7

theorem continues_bit (byte : UInt8) : byte &&& 128 ≠ 0 ↔ VarInt.continues byte = true := by
  have bit := top_bit ⟨byte.toNat, byte.toNat_lt⟩
  rw [UInt8.ofNat_toNat] at bit
  rw [bit, VarInt.continues, decide_eq_true_iff]

theorem encode_loop_refines (fuel length : Nat) : encodeLoop fuel length = VarInt.encodeUpTo fuel length := by
  induction fuel generalizing length with
  | zero => rfl
  | succ fuel ih =>
      simp only [encodeLoop, VarInt.encodeUpTo, ih, or_top_bit ⟨length % 128, Nat.mod_lt _ (by decide)⟩]

theorem mqtt_packet_encode_refines (length : Nat) : mqttPacketEncode length = VarInt.encode length :=
  encode_loop_refines (length + 1) length

def lengthField : Nat → Net → Bytes × Net
  | 0, net => ([], net)
  | left + 1, net =>
      let read := mqttread net 1
      match read.bytes with
      | [] => ([], read.net)
      | byte :: _ =>
          if VarInt.continues byte then
            let tail := lengthField left read.net
            (byte :: tail.1, tail.2)
          else ([byte], read.net)

theorem decode_loop_field (left : Nat) (net : Net) (len value multiplier : Nat) :
    (decodeLoop left net len value multiplier).value = value + VarInt.value (lengthField left net).1 * multiplier ∧
    (decodeLoop left net len value multiplier).net = (lengthField left net).2 := by
  induction left generalizing net len value multiplier with
  | zero => simp [decodeLoop, lengthField, VarInt.value]
  | succ left ih =>
      cases arrived : (mqttread net 1).bytes with
      | nil =>
          have failed : (mqttread net 1).rc ≠ 1 := by
            rw [ne_eq, read_one_iff, arrived]
            simp
          simp [decodeLoop, lengthField, arrived, failed, VarInt.value]
      | cons byte rest =>
          have one : rest = [] := by
            have bound := read_bytes_le net 1
            rw [arrived] at bound
            exact List.length_eq_zero_iff.mp (by simpa using bound)
          subst one
          have done : (mqttread net 1).rc = 1 := (read_one_iff net).mpr ⟨byte, arrived⟩
          by_cases more : VarInt.continues byte = true
          · have bit := (continues_bit byte).mpr more
            simp only [decodeLoop, lengthField, arrived, done, ne_eq, not_true, if_false, List.headD_cons,
              if_pos bit, if_pos more, group_bits, VarInt.value]
            obtain ⟨valueEq, netEq⟩ := ih (mqttread net 1).net (len + 1)
              (value + VarInt.group byte * multiplier) (multiplier * 128)
            refine ⟨?_, netEq⟩
            rw [valueEq]
            ring
          · have bit : ¬ (byte &&& 128 ≠ 0) := fun set => more ((continues_bit byte).mp set)
            simp only [decodeLoop, lengthField, arrived, done, ne_eq, not_true, if_false, List.headD_cons,
              if_neg bit, if_neg more, group_bits, VarInt.value, and_true]
            ring

theorem decode_packet_field (net : Net) :
    (decodePacket net).value = VarInt.value (lengthField 4 net).1 ∧ (decodePacket net).net = (lengthField 4 net).2 := by
  obtain ⟨valueEq, netEq⟩ := decode_loop_field 4 net 0 0 1
  refine ⟨?_, netEq⟩
  rw [decodePacket, MAX_NO_OF_REMAINING_LENGTH_BYTES, valueEq]
  omega

end Aliot
