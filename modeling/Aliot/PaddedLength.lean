import Aliot.MqttPacket
import Aliot.ReadFraming

set_option autoImplicit false

namespace Aliot

-- A packet whose length field may have more bytes than the length needs, up to the four that are read.
structure PaddedPacket (readbufSize : Nat) where
  header : UInt8
  field : Bytes
  body : Bytes
  ended : VarInt.Ended field
  readable : field.length ≤ MAX_NO_OF_REMAINING_LENGTH_BYTES
  announces : VarInt.value field = body.length
  fits : 1 + (VarInt.encode body.length).length + body.length ≤ readbufSize

variable {readbufSize : Nat}

def PaddedPacket.sent (packet : PaddedPacket readbufSize) : Bytes := packet.header :: (packet.field ++ packet.body)

def sentBytes (packets : List (PaddedPacket readbufSize)) : Bytes := packets.flatMap PaddedPacket.sent

def PaddedPacket.canonical (packet : PaddedPacket readbufSize) : Packet readbufSize where
  header := packet.header
  body := packet.body
  short := packet.announces ▸ Nat.lt_of_lt_of_le (VarInt.value_lt packet.field)
    (Nat.pow_le_pow_right (by decide) packet.readable)
  fits := packet.fits

def FieldComplete : Nat → Net → Prop
  | 0, _ => True
  | left + 1, net => (mqttread net 1).rc = 1 ∧
      (VarInt.continues ((mqttread net 1).bytes.headD 0) = true → FieldComplete left (mqttread net 1).net)

-- Each mqttread of the call returns all bytes it asks for.
def ReadsComplete (net : Net) : Prop :=
  (mqttread net 1).rc = 1 ∧ FieldComplete MAX_NO_OF_REMAINING_LENGTH_BYTES (mqttread net 1).net ∧
    (0 < lengthOf net → (bodyOf net).rc = lengthOf net)

def CompleteRun : Nat → (Nat → UInt8) → Net → Prop
  | 0, _, _ => True
  | calls + 1, readbuf, net =>
      ReadsComplete net ∧ CompleteRun calls (readPacket readbuf net).readbuf (readPacket readbuf net).net

-- The packet is in readbuf as the deserialisers look for it, and the stream goes on behind it.
structure ReadAs (read : PacketRead) (packet : PaddedPacket readbufSize) (rest : Bytes) : Prop where
  returned : read.rc = headerType packet.header
  within : StoresWithin readbufSize read
  header : read.readbuf 0 = packet.header
  field : Memory.load read.readbuf 1 (VarInt.encode packet.body.length).length = VarInt.encode packet.body.length
  length : mqttPacketDecodeBuf read.readbuf 1 = ((VarInt.encode packet.body.length).length, packet.body.length)
  body : Memory.load read.readbuf (1 + (mqttPacketDecodeBuf read.readbuf 1).1) packet.body.length = packet.body
  consumed : read.net.stream = rest

def ReadInOrder : List (PaddedPacket readbufSize) → Bytes → List PacketRead → Prop
  | [], _, reads => reads = []
  | packet :: packets, rest, reads => ∃ read later, reads = read :: later ∧
      ReadAs read packet (sentBytes packets ++ rest) ∧ ReadInOrder packets rest later

theorem read_one_complete (net : Net) (first : UInt8) (behind : Bytes) (stream : net.stream = first :: behind)
    (complete : (mqttread net 1).rc = 1) :
    (mqttread net 1).bytes = [first] ∧ (mqttread net 1).net.stream = behind := by
  obtain ⟨byte, started⟩ := (read_one_iff net).mp complete
  have split := read_splits net 1
  rw [stream, started, List.singleton_append, List.cons.injEq] at split
  exact ⟨split.1 ▸ started, split.2.symm⟩

theorem field_complete (field behind : Bytes) (left : Nat) (net : Net) (ended : VarInt.Ended field)
    (readable : field.length ≤ left) (stream : net.stream = field ++ behind) (complete : FieldComplete left net) :
    (lengthField left net).1 = field ∧ (lengthField left net).2.stream = behind := by
  induction field generalizing left net with
  | nil => cases ended
  | cons byte field ih =>
      cases left with
      | zero => simp at readable
      | succ left =>
          obtain ⟨arrived, later⟩ := complete
          obtain ⟨started, tail⟩ := read_one_complete net byte (field ++ behind) stream arrived
          rw [started, List.headD_cons] at later
          by_cases more : VarInt.continues byte = true
          · rw [VarInt.Ended, if_pos more] at ended
            obtain ⟨digits, rest⟩ := ih left (mqttread net 1).net ended (by simpa using readable) tail (later more)
            simp only [lengthField, started, if_pos more, digits, rest, and_self]
          · rw [VarInt.Ended, if_neg more] at ended
            subst ended
            simp only [lengthField, started, if_neg more, tail, List.nil_append, and_self]

theorem framed_fields (packet : PaddedPacket readbufSize) (rest : Bytes) (net : Net) (stream : net.stream = packet.sent ++ rest)
    (complete : ReadsComplete net) :
    (mqttread net 1).bytes = [packet.header] ∧ lengthOf net = packet.body.length ∧ (bodyOf net).bytes = packet.body ∧
      (bodyOf net).net.stream = rest ∧ (fieldOf net).2.stream = packet.body ++ rest := by
  obtain ⟨headerRead, fieldRead, bodyRead⟩ := complete
  obtain ⟨started, behind⟩ := read_one_complete net packet.header (packet.field ++ packet.body ++ rest) stream headerRead
  rw [List.append_assoc] at behind
  obtain ⟨digits, bodyBehind⟩ := field_complete packet.field (packet.body ++ rest) _ _ packet.ended packet.readable behind
    fieldRead
  have next : (fieldOf net).2.stream = packet.body ++ rest := bodyBehind
  have length : lengthOf net = packet.body.length := by
    rw [← packet.announces, ← digits]
    rfl
  have arrived : (bodyOf net).bytes.length = lengthOf net := by
    by_cases more : 0 < lengthOf net
    · exact (read_complete_iff (fieldOf net).2 (lengthOf net)).mp (bodyRead more)
    · have bound : (bodyOf net).bytes.length ≤ lengthOf net := read_bytes_le (fieldOf net).2 (lengthOf net)
      omega
  have split : (fieldOf net).2.stream = (bodyOf net).bytes ++ (bodyOf net).net.stream :=
    read_splits (fieldOf net).2 (lengthOf net)
  rw [next] at split
  obtain ⟨bytes, tail⟩ := List.append_inj split (by rw [arrived, length])
  exact ⟨started, length, bytes.symm, tail.symm, next⟩

theorem framed_packet_read (packet : PaddedPacket readbufSize) (rest : Bytes) (readbuf : Nat → UInt8) (net : Net)
    (stream : net.stream = packet.sent ++ rest) (complete : ReadsComplete net) :
    ReadAs (readPacket readbuf net) packet rest := by
  obtain ⟨started, length, bytes, tail, next⟩ := framed_fields packet rest net stream complete
  have bodyless : packet.canonical.body = [] → (fieldOf net).2.stream = rest := by
    intro empty
    rw [next, show packet.body = [] from empty, List.nil_append]
  obtain ⟨⟨returned, shown⟩, consumed⟩ :=
    read_packet_stored packet.canonical rest readbuf net started length bytes tail bodyless
  obtain ⟨header, behind⟩ := load_cons _ _ _ _ shown
  obtain ⟨field, body⟩ := load_split _ _ _ _ behind
  have decoded := decode_buf_encoded (readPacket readbuf net).readbuf 1 packet.body.length packet.canonical.short field
  refine ⟨returned, fun i stored => ?_, header, field, decoded, ?_, consumed⟩
  · rw [read_packet_touches readbuf net packet.header started, frontLength, length, bytes] at stored
    exact Nat.lt_of_lt_of_le stored packet.fits
  · rw [decoded]
    exact body

-- cycle takes over what readPacket has read, whatever the length field looked like.
theorem read_as_holds (read : PacketRead) (packet : PaddedPacket readbufSize) (inbound : Inbound) (rest : Bytes)
    (header : packet.header = inbound.header) (body : packet.body = inbound.body) (shown : ReadAs read packet rest) :
    Holds read.readbuf inbound ∧ read.rc = headerType inbound.header := by
  refine ⟨?_, header ▸ shown.returned⟩
  have bodyRead := shown.body
  rw [shown.length] at bodyRead
  rw [Holds, Inbound.wire, ← header, ← body, List.length_cons, List.length_append, Nat.add_comm, Memory.load_append, Nat.zero_add,
    Memory.load_append, shown.field, bodyRead]
  exact congrArg (fun first => first :: (VarInt.encode packet.body.length ++ packet.body)) shown.header

theorem framed_packets_read (packets : List (PaddedPacket readbufSize)) (rest : Bytes) (readbuf : Nat → UInt8) (net : Net)
    (stream : net.stream = sentBytes packets ++ rest) (complete : CompleteRun packets.length readbuf net) :
    ReadInOrder packets rest (readPackets packets.length readbuf net) := by
  induction packets generalizing readbuf net with
  | nil => rfl
  | cons packet packets ih =>
      obtain ⟨here, later⟩ := complete
      have first : net.stream = packet.sent ++ (sentBytes packets ++ rest) := by
        rw [stream, sentBytes, List.flatMap_cons, List.append_assoc]
        rfl
      have read := framed_packet_read packet (sentBytes packets ++ rest) readbuf net first here
      exact ⟨_, _, rfl, read, ih (readPacket readbuf net).readbuf (readPacket readbuf net).net read.consumed later⟩

-- A PUBLISH of four body bytes and an empty packet, both with padded length fields.
def paddedPublish : PaddedPacket 4096 where
  header := 0x30
  field := [0x84, 0x00]
  body := [0x00, 0x02, 0x61, 0x62]
  ended := rfl
  readable := by decide
  announces := rfl
  fits := by decide

def paddedPing : PaddedPacket 4096 where
  header := 0xd0
  field := [0x80, 0x80, 0x80, 0x00]
  body := []
  ended := rfl
  readable := by decide
  announces := rfl
  fits := by decide

theorem padded_packets_read :
    ReadInOrder [paddedPublish, paddedPing] [0x40]
      (readPackets 2 (fun _ => 0) ⟨sentBytes [paddedPublish, paddedPing] ++ [0x40], []⟩) := by
  refine framed_packets_read [paddedPublish, paddedPing] [0x40] (fun _ => 0) _ rfl ⟨?_, ?_, trivial⟩
  · exact ⟨rfl, ⟨rfl, fun _ => ⟨rfl, fun more => absurd more (by decide)⟩⟩, fun _ => rfl⟩
  · exact ⟨rfl, ⟨rfl, fun _ => ⟨rfl, fun _ => ⟨rfl, fun _ => ⟨rfl, fun _ => trivial⟩⟩⟩⟩, fun none => absurd none (by decide)⟩

end Aliot
