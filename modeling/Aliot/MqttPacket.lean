import Aliot.ReadPacket

set_option autoImplicit false

namespace Aliot

def CONNACK : Nat := 2
def PUBLISH : Nat := 3
def PUBACK : Nat := 4
def PUBREC : Nat := 5
def PUBREL : Nat := 6
def PUBCOMP : Nat := 7
def SUBACK : Nat := 9
def PINGREQ : Nat := 12
def PINGRESP : Nat := 13

def MQTTPACKET_BUFFER_TOO_SHORT : Int := -2

def headerRetain (byte : UInt8) : Nat := byte.toNat % 2
def headerQos (byte : UInt8) : Nat := byte.toNat / 2 % 4
def headerDup (byte : UInt8) : Nat := byte.toNat / 8 % 2

def headerByte (type dup qos retain : Nat) : UInt8 :=
  UInt8.ofNat (type % 16 * 16 + dup % 2 * 8 + qos % 4 * 2 + retain % 2)

-- The payload of an inbound message and its topic are places in readbuf.
structure MQTTMessage where
  qos : Nat
  retained : Nat
  dup : Nat
  id : UInt16
  payload : Nat
  payloadlen : Int
deriving DecidableEq

structure MQTTLenString where
  len : Nat
  data : Nat
deriving DecidableEq

def decodeBufLoop (buf : Nat → UInt8) : Nat → Nat → Nat → Nat → Nat → Nat × Nat
  | 0, _, len, value, _ => (len + 1, value)
  | left + 1, ptr, len, value, multiplier =>
      let c := buf ptr
      let value := value + (c &&& 127).toNat * multiplier
      if c &&& 128 ≠ 0 then decodeBufLoop buf left (ptr + 1) (len + 1) value (multiplier * 128)
      else (len + 1, value)

-- The number of bytes tried and the value.
def mqttPacketDecodeBuf (buf : Nat → UInt8) (ptr : Nat) : Nat × Nat :=
  decodeBufLoop buf MAX_NO_OF_REMAINING_LENGTH_BYTES ptr 0 0 1

def readInt (buf : Nat → UInt8) (ptr : Nat) : Nat := 256 * (buf ptr).toNat + (buf (ptr + 1)).toNat

def writeInt (n : Nat) : Bytes := [UInt8.ofNat (n / 256), UInt8.ofNat (n % 256)]

-- Success, the string and the pointer after it; a length stays in the string also when the data do not fit.
def readMQTTLenString (buf : Nat → UInt8) (mqttstring : MQTTLenString) (ptr enddata : Nat) : Bool × MQTTLenString × Nat :=
  if enddata - ptr > 1 then
    let len := readInt buf ptr
    let ptr := ptr + 2
    if ptr + len ≤ enddata then (true, ⟨len, ptr⟩, ptr + len) else (false, { mqttstring with len := len }, ptr)
  else (false, mqttstring, ptr)

structure Deserialized where
  rc : Int
  message : MQTTMessage
  topicName : MQTTLenString
deriving DecidableEq

-- A topic that does not fit returns the number of length bytes, which may be 1.
def mqttDeserializePublish (buf : Nat → UInt8) (message : MQTTMessage) (topicName : MQTTLenString) : Deserialized :=
  let header := buf 0
  if headerType header ≠ PUBLISH then ⟨0, message, topicName⟩
  else
    let message := { message with dup := headerDup header, qos := headerQos header, retained := headerRetain header }
    let (rc, mylen) := mqttPacketDecodeBuf buf 1
    let curdata := 1 + rc
    let enddata := curdata + mylen
    let (fits, topicName, curdata) := readMQTTLenString buf topicName curdata enddata
    if !fits then ⟨rc, message, topicName⟩
    else
      let (message, curdata) :=
        if message.qos > 0 then ({ message with id := UInt16.ofNat (readInt buf curdata) }, curdata + 2)
        else (message, curdata)
      ⟨1, { message with payloadlen := (enddata : Int) - curdata, payload := curdata }, topicName⟩

structure Ack where
  rc : Int
  packettype : Nat
  dup : Nat
  packetid : UInt16
deriving DecidableEq

def mqttDeserializeAck (buf : Nat → UInt8) (packetid : UInt16) : Ack :=
  let header := buf 0
  let (rc, mylen) := mqttPacketDecodeBuf buf 1
  if mylen < 2 then ⟨rc, headerType header, headerDup header, packetid⟩
  else ⟨1, headerType header, headerDup header, UInt16.ofNat (readInt buf (1 + rc))⟩

def ackBytes (packettype dup : Nat) (packetid : UInt16) : Bytes :=
  headerByte packettype dup (if packettype = PUBREL then 1 else 0) 0 :: (mqttPacketEncode 2 ++ writeInt packetid.toNat)

-- A serialiser's result and the bytes it leaves in buf.
def mqttSerializeAck (buflen packettype dup : Nat) (packetid : UInt16) : Int × Bytes :=
  if buflen < 4 then (MQTTPACKET_BUFFER_TOO_SHORT, [])
  else ((ackBytes packettype dup packetid).length, ackBytes packettype dup packetid)

def mqttSerializePingreq (buflen : Nat) : Int × Bytes :=
  if buflen < 2 then (MQTTPACKET_BUFFER_TOO_SHORT, [])
  else
    let bytes := headerByte PINGREQ 0 0 0 :: mqttPacketEncode 0
    (bytes.length, bytes)

def mqttPacketLen (rem_len : Nat) : Nat :=
  let rem_len := rem_len + 1
  if rem_len < 128 then rem_len + 1
  else if rem_len < 16384 then rem_len + 2
  else if rem_len < 2097151 then rem_len + 3
  else rem_len + 4

def mqttSerializePublish (buflen dup qos retained : Nat) (packetid : UInt16) (topicName payload : Bytes) : Int × Bytes :=
  let rem_len := 2 + topicName.length + payload.length + if qos > 0 then 2 else 0
  if mqttPacketLen rem_len > buflen then (MQTTPACKET_BUFFER_TOO_SHORT, [])
  else
    let bytes := headerByte PUBLISH dup qos retained :: (mqttPacketEncode rem_len ++ writeInt topicName.length ++
      topicName ++ (if qos > 0 then writeInt packetid.toNat else []) ++ payload)
    (bytes.length, bytes)

-- The packets of a well-behaved broker, as far as the client tells them apart.
inductive Inbound where
  | publish (dup retain : Bool) (qos : Nat) (topic : Bytes) (id : UInt16) (payload : Bytes)
  | ack (type flags : Nat) (id : UInt16)
  | other (header : UInt8) (body : Bytes)
deriving DecidableEq

def Inbound.header : Inbound → UInt8
  | .publish dup retain qos _ _ _ => headerByte PUBLISH dup.toNat qos retain.toNat
  | .ack type flags _ => UInt8.ofNat (type * 16 + flags)
  | .other header _ => header

def Inbound.body : Inbound → Bytes
  | .publish _ _ qos topic id payload =>
      writeInt topic.length ++ (topic ++ ((if qos > 0 then writeInt id.toNat else []) ++ payload))
  | .ack _ _ id => writeInt id.toNat
  | .other _ body => body

def Inbound.wire (packet : Inbound) : Bytes := packet.header :: (VarInt.encode packet.body.length ++ packet.body)

def Inbound.WellFormed (packet : Inbound) : Prop :=
  packet.body.length < 128 ^ 4 ∧
    match packet with
    | .publish _ _ qos topic id _ => qos ≤ 2 ∧ topic.length < 65536 ∧ (qos > 0 → id ≠ 0)
    | .ack type flags id => (type = PUBACK ∨ type = PUBREC ∨ type = PUBREL ∨ type = PUBCOMP) ∧ flags < 16 ∧ id ≠ 0
    | .other header _ => headerType header ≠ PUBLISH ∧ headerType header ≠ PUBREC ∧ headerType header ≠ PUBREL

def Holds (readbuf : Nat → UInt8) (packet : Inbound) : Prop :=
  Memory.load readbuf 0 packet.wire.length = packet.wire

theorem header_byte_fields (type dup qos retain : Nat) (nibble : type < 16) (dupBit : dup < 2) (qosBits : qos < 4)
    (retainBit : retain < 2) :
    headerType (headerByte type dup qos retain) = type ∧ headerDup (headerByte type dup qos retain) = dup ∧
      headerQos (headerByte type dup qos retain) = qos ∧ headerRetain (headerByte type dup qos retain) = retain := by
  have byte : (headerByte type dup qos retain).toNat = type * 16 + dup * 8 + qos * 2 + retain := by
    rw [headerByte, UInt8.toNat_ofNat', Nat.mod_eq_of_lt nibble, Nat.mod_eq_of_lt dupBit, Nat.mod_eq_of_lt qosBits,
      Nat.mod_eq_of_lt retainBit]
    omega
  simp only [headerType, headerDup, headerQos, headerRetain, byte, Nat.shiftRight_eq_div_pow]
  omega

theorem load_split (mem : Nat → UInt8) (addr : Nat) (front back : Bytes)
    (loaded : Memory.load mem addr (front ++ back).length = front ++ back) :
    Memory.load mem addr front.length = front ∧ Memory.load mem (addr + front.length) back.length = back := by
  rw [List.length_append, Memory.load_append] at loaded
  exact List.append_inj loaded (by simp)

theorem load_cons (mem : Nat → UInt8) (addr : Nat) (byte : UInt8) (rest : Bytes)
    (loaded : Memory.load mem addr (byte :: rest).length = byte :: rest) :
    mem addr = byte ∧ Memory.load mem (addr + 1) rest.length = rest :=
  List.cons.inj loaded

theorem read_int_loaded (mem : Nat → UInt8) (ptr n : Nat) (small : n < 65536)
    (loaded : Memory.load mem ptr (writeInt n).length = writeInt n) : readInt mem ptr = n := by
  obtain ⟨high, rest⟩ := load_cons mem ptr _ _ loaded
  obtain ⟨low, _⟩ := load_cons mem (ptr + 1) _ _ rest
  rw [readInt, high, low, UInt8.toNat_ofNat', UInt8.toNat_ofNat']
  omega

theorem decode_buf_loop_field (buf : Nat → UInt8) (field : Bytes) (left ptr len value multiplier : Nat)
    (ended : VarInt.Ended field) (short : field.length ≤ left) (loaded : Memory.load buf ptr field.length = field) :
    decodeBufLoop buf left ptr len value multiplier = (len + field.length, value + VarInt.value field * multiplier) := by
  induction field generalizing left ptr len value multiplier with
  | nil => cases ended
  | cons byte rest ih =>
      obtain ⟨first, tail⟩ := load_cons buf ptr byte rest loaded
      cases left with
      | zero => simp at short
      | succ left =>
          simp only [decodeBufLoop, first, group_bits, VarInt.value, List.length_cons]
          by_cases more : VarInt.continues byte = true
          · rw [VarInt.Ended, if_pos more] at ended
            rw [if_pos ((continues_bit byte).mpr more), ih left (ptr + 1) (len + 1) _ _ ended (by simpa using short) tail]
            refine Prod.ext (by simp only; omega) ?_
            ring
          · rw [VarInt.Ended, if_neg more] at ended
            subst ended
            rw [if_neg (fun bit => more ((continues_bit byte).mp bit))]
            simp [VarInt.value]

theorem decode_buf_encoded (buf : Nat → UInt8) (ptr n : Nat) (small : n < 128 ^ 4)
    (loaded : Memory.load buf ptr (VarInt.encode n).length = VarInt.encode n) :
    mqttPacketDecodeBuf buf ptr = ((VarInt.encode n).length, n) := by
  rw [mqttPacketDecodeBuf, decode_buf_loop_field buf (VarInt.encode n) MAX_NO_OF_REMAINING_LENGTH_BYTES ptr 0 0 1
    (VarInt.encode_ended n) (VarInt.encode_length_le 3 n small) loaded, VarInt.value_encode]
  simp

theorem read_string_loaded (buf : Nat → UInt8) (mqttstring : MQTTLenString) (ptr enddata len : Nat)
    (read : readInt buf ptr = len) (fits : ptr + 2 + len ≤ enddata) :
    readMQTTLenString buf mqttstring ptr enddata = (true, ⟨len, ptr + 2⟩, ptr + 2 + len) := by
  simp only [readMQTTLenString, read]
  rw [if_pos (by omega), if_pos fits]

theorem holds_parts (readbuf : Nat → UInt8) (packet : Inbound) (holds : Holds readbuf packet) :
    readbuf 0 = packet.header ∧
      Memory.load readbuf 1 (VarInt.encode packet.body.length).length = VarInt.encode packet.body.length ∧
      Memory.load readbuf (1 + (VarInt.encode packet.body.length).length) packet.body.length = packet.body := by
  obtain ⟨header, rest⟩ := load_cons readbuf 0 _ _ holds
  obtain ⟨length, body⟩ := load_split readbuf (0 + 1) _ _ rest
  exact ⟨header, length, body⟩

def topicStart (bodyLength : Nat) : Nat := 1 + (VarInt.encode bodyLength).length + 2

def payloadStart (bodyLength : Nat) (topic : Bytes) (qos : Nat) : Nat :=
  topicStart bodyLength + topic.length + if qos > 0 then 2 else 0

-- Also of an id that no packet may have.
theorem publish_read (readbuf : Nat → UInt8) (dup retain : Bool) (qos : Nat) (topic : Bytes) (id : UInt16)
    (payload : Bytes) (message : MQTTMessage) (topicName : MQTTLenString)
    (holds : Holds readbuf (.publish dup retain qos topic id payload))
    (small : (Inbound.publish dup retain qos topic id payload).body.length < 128 ^ 4) (qosBound : qos ≤ 2)
    (topicBound : topic.length < 65536) :
    mqttDeserializePublish readbuf message topicName =
      ⟨1, ⟨qos, retain.toNat, dup.toNat, if qos > 0 then id else message.id,
          payloadStart (Inbound.publish dup retain qos topic id payload).body.length topic qos, payload.length⟩,
        ⟨topic.length, topicStart (Inbound.publish dup retain qos topic id payload).body.length⟩⟩ := by
  obtain ⟨header, length, body⟩ := holds_parts readbuf _ holds
  obtain ⟨type, dupEq, qosEq, retainEq⟩ := header_byte_fields PUBLISH dup.toNat qos retain.toNat (by decide)
    (Bool.toNat_lt dup) (by omega) (Bool.toNat_lt retain)
  have decoded := decode_buf_encoded readbuf 1 _ small length
  obtain ⟨topicLength, rest⟩ := load_split readbuf _ _ _ body
  obtain ⟨_, rest⟩ := load_split readbuf _ _ _ rest
  obtain ⟨idBytes, _⟩ := load_split readbuf _ _ _ rest
  have topicRead := read_int_loaded readbuf _ _ topicBound topicLength
  have size : (Inbound.publish dup retain qos topic id payload).body.length =
      2 + topic.length + (if qos > 0 then 2 else 0) + payload.length := by
    simp only [Inbound.body, writeInt, List.length_append, List.length_cons, List.length_nil]
    split <;> simp only [List.length_cons, List.length_nil] <;> omega
  have fits := read_string_loaded readbuf topicName _ (1 + (VarInt.encode (Inbound.publish dup retain qos topic id
    payload).body.length).length + (Inbound.publish dup retain qos topic id payload).body.length) topic.length topicRead
    (by omega)
  simp only [mqttDeserializePublish, header, Inbound.header, type, dupEq, qosEq, retainEq, decoded, fits]
  by_cases positive : qos > 0
  · simp only [positive, if_true] at idBytes size
    have idRead := read_int_loaded readbuf _ _ id.toNat_lt idBytes
    simp only [writeInt, List.length_cons, List.length_nil] at idRead
    simp [positive, idRead, payloadStart, topicStart]
    omega
  · simp only [positive, if_false] at size
    simp [positive, payloadStart, topicStart]
    omega

theorem publish_deserialized (readbuf : Nat → UInt8) (dup retain : Bool) (qos : Nat) (topic : Bytes) (id : UInt16)
    (payload : Bytes) (message : MQTTMessage) (topicName : MQTTLenString)
    (holds : Holds readbuf (.publish dup retain qos topic id payload))
    (valid : (Inbound.publish dup retain qos topic id payload).WellFormed) :
    mqttDeserializePublish readbuf message topicName =
      ⟨1, ⟨qos, retain.toNat, dup.toNat, if qos > 0 then id else message.id,
          payloadStart (Inbound.publish dup retain qos topic id payload).body.length topic qos, payload.length⟩,
        ⟨topic.length, topicStart (Inbound.publish dup retain qos topic id payload).body.length⟩⟩ :=
  publish_read readbuf dup retain qos topic id payload message topicName holds valid.1 valid.2.1 valid.2.2.1

theorem ack_deserialized (readbuf : Nat → UInt8) (type flags : Nat) (id packetid : UInt16)
    (holds : Holds readbuf (.ack type flags id)) : (mqttDeserializeAck readbuf packetid).rc = 1 ∧
      (mqttDeserializeAck readbuf packetid).packetid = id := by
  obtain ⟨_, length, body⟩ := holds_parts readbuf _ holds
  have two : (Inbound.ack type flags id).body.length = 2 := rfl
  rw [two] at length body
  have decoded := decode_buf_encoded readbuf 1 2 (by decide) length
  have read := read_int_loaded readbuf _ _ id.toNat_lt body
  simp only [mqttDeserializeAck, decoded, read, Nat.lt_irrefl, if_false, UInt16.ofNat_toNat, and_self]

theorem ack_bytes_type (type : Nat) (id : UInt16) (nibble : type < 16) :
    (ackBytes type 0 id).head?.map headerType = some type := by
  have qos : (if type = PUBREL then 1 else 0) < 4 := by split <;> decide
  exact congrArg some (header_byte_fields type 0 _ 0 nibble (by decide) qos (by decide)).1

theorem ack_bytes_id (type : Nat) (id other : UInt16) (same : ackBytes type 0 id = ackBytes type 0 other) :
    id = other := by
  have ids := List.append_cancel_left (List.cons.inj same).2
  have high := congrArg UInt8.toNat (List.cons.inj ids).1
  have low := congrArg UInt8.toNat (List.cons.inj (List.cons.inj ids).2).1
  have bound := id.toNat_lt
  have otherBound := other.toNat_lt
  simp only [UInt8.toNat_ofNat'] at high low
  apply UInt16.toNat_inj.mp
  omega

end Aliot
