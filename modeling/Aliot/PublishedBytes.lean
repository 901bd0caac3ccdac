import Aliot.AckVerdict
import Aliot.OwnReply

set_option autoImplicit false

namespace Aliot

variable {H σ ε : Type}

def CLIENT_WRITEBUF : Nat := 4096

def withOwnId (qos : Nat) (s : Sys H σ ε) : Sys H σ ε :=
  if qos = QOS1 || qos = QOS2 then { s with client := getNextPacketId s.client } else s

def messageId (message : Outgoing) (s : Sys H σ ε) : UInt16 :=
  if message.qos = QOS1 || message.qos = QOS2 then UInt16.ofNat s.client.nextPacketid else message.id

def publishPacket (topicName : Bytes) (message : Outgoing) (s : Sys H σ ε) : Int × Bytes :=
  mqttSerializePublish s.client.bufSize 0 message.qos message.retained (messageId message s) topicName message.payload

-- The packet that MQTTPublish hands to sendPacket, the checks left of its timer and the state it does so in.
def handedPacket (topicName : Bytes) (message : Outgoing) (s : Sys H σ ε) : Option (Bytes × Nat × Sys H σ ε) :=
  let (checks, s) := startTimer s
  if !s.client.isconnected then none
  else
    let s := withOwnId message.qos s
    if (publishPacket topicName message s).1 ≤ 0 then none else some ((publishPacket topicName message s).2, checks, s)

-- MQTTPublish from the result of sendPacket on.
def publishSent (call : Call H σ ε) (qos checks : Nat) (sent : Int × Sys H σ ε) : Int × Sys H σ ε :=
  if sent.1 ≠ SUCCESS then sent
  else if qos = QOS1 then awaitAck call PUBACK checks sent.2
  else if qos = QOS2 then awaitAck call PUBCOMP checks sent.2
  else (SUCCESS, sent.2)

theorem mqtt_publish_handed (call : Call H σ ε) (topicName : Bytes) (message : Outgoing) (s t : Sys H σ ε) (packet : Bytes)
    (checks : Nat) (handed : handedPacket topicName message s = some (packet, checks, t)) :
    mqttPublish call topicName message s = publishSent call message.qos checks (sendPacket 0 packet t) := by
  have whole : mqttPublish call topicName message s =
      if !(startTimer s).2.client.isconnected then (FAILURE, (startTimer s).2)
      else if (publishPacket topicName message (withOwnId message.qos (startTimer s).2)).1 ≤ 0 then
        (FAILURE, withOwnId message.qos (startTimer s).2)
      else publishSent call message.qos (startTimer s).1
        (sendPacket 0 (publishPacket topicName message (withOwnId message.qos (startTimer s).2)).2
          (withOwnId message.qos (startTimer s).2)) := rfl
  rw [whole]
  simp only [handedPacket] at handed
  by_cases offline : (!(startTimer s).2.client.isconnected) = true
  · rw [if_pos offline] at handed
    cases handed
  rw [if_neg offline] at handed ⊢
  by_cases unmade : (publishPacket topicName message (withOwnId message.qos (startTimer s).2)).1 ≤ 0
  · rw [if_pos unmade] at handed
    cases handed
  rw [if_neg unmade] at handed ⊢
  simp only [Option.some.injEq, Prod.mk.injEq] at handed
  obtain ⟨rfl, rfl, rfl⟩ := handed
  rfl

-- What MQTTDeserialize_publish makes of the packet, whatever its outputs and the rest of the buffer hold before.
structure DecodesTo (packet : Bytes) (retained qos : Nat) (topic payload : Bytes) (id : UInt16) : Prop where
  fields : ∀ readbuf message topicName, Memory.load readbuf 0 packet.length = packet →
    let decoded := mqttDeserializePublish readbuf message topicName
    decoded.rc = 1 ∧ decoded.message.dup = 0 ∧ decoded.message.retained = retained ∧ decoded.message.qos = qos ∧
      (qos > 0 → decoded.message.id = id)
  contents : ∀ readbuf message topicName, Memory.load readbuf 0 packet.length = packet →
    let decoded := mqttDeserializePublish readbuf message topicName
    Memory.load readbuf decoded.topicName.data decoded.topicName.len = topic ∧
      decoded.message.payloadlen = payload.length ∧
      Memory.load readbuf decoded.message.payload decoded.message.payloadlen.toNat = payload

theorem body_length (dup retain : Bool) (qos : Nat) (topic : Bytes) (id : UInt16) (payload : Bytes) :
    (Inbound.publish dup retain qos topic id payload).body.length =
      2 + topic.length + payload.length + if qos > 0 then 2 else 0 := by
  simp only [Inbound.body, writeInt, List.length_append, List.length_cons, List.length_nil]
  split <;> simp only [List.length_cons, List.length_nil] <;> omega

theorem header_byte_bits (qos retained : Nat) :
    headerByte PUBLISH 0 qos retained = headerByte PUBLISH false.toNat qos (decide (retained % 2 = 1)).toNat := by
  rcases Nat.mod_two_eq_zero_or_one retained with even | odd
  · simp [headerByte, even]
  · simp [headerByte, odd]

-- The serialised packet is a PUBLISH as a broker would send it, with the lowest bit of retained.
theorem serialize_publish_wire (buflen qos retained : Nat) (id : UInt16) (topic payload : Bytes)
    (fits : mqttPacketLen (2 + topic.length + payload.length + if qos > 0 then 2 else 0) ≤ buflen) :
    mqttSerializePublish buflen 0 qos retained id topic payload =
      (((Inbound.publish false (decide (retained % 2 = 1)) qos topic id payload).wire.length : Int),
        (Inbound.publish false (decide (retained % 2 = 1)) qos topic id payload).wire) := by
  have bytes : headerByte PUBLISH 0 qos retained ::
        (mqttPacketEncode (2 + topic.length + payload.length + if qos > 0 then 2 else 0) ++ writeInt topic.length ++ topic ++
          (if qos > 0 then writeInt id.toNat else []) ++ payload) =
      (Inbound.publish false (decide (retained % 2 = 1)) qos topic id payload).wire := by
    rw [Inbound.wire, body_length, mqtt_packet_encode_refines, header_byte_bits]
    simp only [Inbound.header, Inbound.body, List.append_assoc]
  simp only [mqttSerializePublish]
  rw [if_neg (Nat.not_lt.mpr fits), bytes]

theorem wire_decodes (retain : Bool) (qos : Nat) (topic : Bytes) (id : UInt16) (payload : Bytes) (qosBound : qos ≤ 2)
    (small : (Inbound.publish false retain qos topic id payload).body.length < 65536) :
    DecodesTo (Inbound.publish false retain qos topic id payload).wire retain.toNat qos topic payload id := by
  have size := body_length false retain qos topic id payload
  have topicBound : topic.length < 65536 := by omega
  have decoded : ∀ readbuf message topicName,
      Memory.load readbuf 0 (Inbound.publish false retain qos topic id payload).wire.length =
        (Inbound.publish false retain qos topic id payload).wire → _ :=
    fun readbuf message topicName holds => publish_read readbuf false retain qos topic id payload message topicName holds
      (Nat.lt_trans small (by decide)) qosBound topicBound
  constructor
  · intro readbuf message topicName holds
    rw [decoded readbuf message topicName holds]
    refine ⟨rfl, rfl, rfl, rfl, fun positive => if_pos positive⟩
  · intro readbuf message topicName holds
    obtain ⟨_, _, body⟩ := holds_parts readbuf _ holds
    obtain ⟨_, rest⟩ := load_split readbuf _ _ _ body
    obtain ⟨topicLoaded, rest⟩ := load_split readbuf _ _ _ rest
    obtain ⟨_, payloadLoaded⟩ := load_split readbuf _ _ _ rest
    rw [decoded readbuf message topicName holds]
    refine ⟨topicLoaded, rfl, ?_⟩
    have place : (if qos > 0 then writeInt id.toNat else []).length = if qos > 0 then 2 else 0 := by split <;> rfl
    rw [place] at payloadLoaded
    exact payloadLoaded

theorem own_message_id (message : Outgoing) (s : Sys H σ ε) (qosBound : message.qos ≤ 2) (positive : message.qos > 0) :
    messageId message (withOwnId message.qos (startTimer s).2) = ownId s := by
  have numbered : (message.qos = QOS1 || message.qos = QOS2) = true := by
    rcases (by omega : message.qos = 1 ∨ message.qos = 2) with one | two
    · simp [one, QOS1]
    · simp [two, QOS2]
  simp only [messageId, withOwnId, numbered, if_true]
  rfl

theorem decoded_retained (packet topic payload otherTopic otherPayload : Bytes) (retained other qos otherQos : Nat)
    (id otherId : UInt16) (decoded : DecodesTo packet retained qos topic payload id)
    (again : DecodesTo packet other otherQos otherTopic otherPayload otherId) : retained = other := by
  have readable := Memory.load_store (fun _ => 0) 0 packet
  have first := (decoded.fields _ ⟨0, 0, 0, 0, 0, 0⟩ ⟨0, 0⟩ readable).2.2.1
  have second := (again.fields _ ⟨0, 0, 0, 0, 0, 0⟩ ⟨0, 0⟩ readable).2.2.1
  exact first.symm.trans second

theorem decodes_own_id (packet topic payload : Bytes) (retained qos : Nat) (id own : UInt16) (same : qos > 0 → id = own)
    (decoded : DecodesTo packet retained qos topic payload id) : DecodesTo packet retained qos topic payload own where
  fields := fun readbuf message topicName holds => by
    obtain ⟨rc, dup, retainedEq, qosEq, idEq⟩ := decoded.fields readbuf message topicName holds
    exact ⟨rc, dup, retainedEq, qosEq, fun positive => (idEq positive).trans (same positive)⟩
  contents := decoded.contents

theorem packet_len_longer (rem_len : Nat) : rem_len < mqttPacketLen rem_len := by
  simp only [mqttPacketLen]
  repeat' split
  all_goals omega

theorem handed_packet_wire (topicName : Bytes) (message : Outgoing) (s : Sys H σ ε) (connected : s.client.isconnected = true)
    (fits : mqttPacketLen (2 + topicName.length + message.payload.length + if message.qos > 0 then 2 else 0) ≤
      s.client.bufSize) :
    handedPacket topicName message s = some ((Inbound.publish false (decide (message.retained % 2 = 1)) message.qos topicName
      (messageId message (withOwnId message.qos (startTimer s).2)) message.payload).wire, (startTimer s).1,
        withOwnId message.qos (startTimer s).2) := by
  have room : (withOwnId message.qos (startTimer s).2).client.bufSize = s.client.bufSize := by
    rw [withOwnId]
    split <;> rfl
  have wire := serialize_publish_wire s.client.bufSize message.qos message.retained
    (messageId message (withOwnId message.qos (startTimer s).2)) topicName message.payload fits
  rw [← room, ← publishPacket] at wire
  have made : ¬ (publishPacket topicName message (withOwnId message.qos (startTimer s).2)).1 ≤ 0 := by
    rw [wire]
    simp only [Inbound.wire, List.length_cons]
    omega
  have online : ¬ (!(startTimer s).2.client.isconnected) = true := by
    rw [show (startTimer s).2.client.isconnected = true from connected]
    decide
  simp only [handedPacket]
  rw [if_neg online, if_neg made, wire]

section Sent

variable (g : Gateway) (scratch : Nat → LzfScratch) (call : Call Handler Host Note) (qos : Nat) (topic : Bytes)
variable (data : CString) (flag : Int) (s : GatewaySys)

def duePayload : Bytes :=
  if flag = 1 ∧ data.strlen > 1024 then framed (lzfCompressCall scratch) data else data.bytes

def Fitting : Prop :=
  mqttPacketLen (2 + (sentTopic g topic data.bytes flag).length + (duePayload scratch data flag).length +
    if qos > 0 then 2 else 0) ≤ CLIENT_WRITEBUF

-- The gateway compresses with LZFcompress_data, which finds this on the stack.
def CompressesWith : Prop :=
  ∃ buf1 buf2 outputBuffer, g.lzfCompressData data.bytes = lzfCompressText scratch (lzfStart buf1 buf2 outputBuffer) data.bytes

def SentFaithfully : Prop :=
  ∃ packet checks t,
    handedPacket (sentTopic g topic data.bytes flag) (sentMessage g qos s (duePayload scratch data flag)) s =
        some (packet, checks, t) ∧
      sendData g call qos topic data.bytes flag s = some (publishSent call qos checks (sendPacket 0 packet t)) ∧
      DecodesTo packet 0 qos (sentTopic g topic data.bytes flag) (duePayload scratch data flag) (ownId s)

theorem sent_payload_due (compresses : CompressesWith g scratch data) (fits : Fitting g scratch qos topic data flag) :
    sentPayload g data.bytes flag =
      if flag = 1 ∧ data.strlen = BLOCKSIZE then none else some (duePayload scratch data flag) := by
  by_cases packed : flag = 1 ∧ data.strlen > 1024
  · obtain ⟨buf1, buf2, outputBuffer, linked⟩ := compresses
    have room := Nat.lt_of_lt_of_le (packet_len_longer _) fits
    rw [duePayload, if_pos packed] at room ⊢
    have short : (framed (lzfCompressCall scratch) data).length < compressedBufferSize := by
      have size : compressedBufferSize = 8214 := rfl
      unfold CLIENT_WRITEBUF at room
      omega
    have flagged : flag = 1 ∧ data.bytes.length > 1024 := packed
    rw [sentPayload, if_pos flagged, linked, compress_text_eq]
    by_cases exact : data.strlen = BLOCKSIZE
    · rw [if_neg (fun returns => returns.1 exact), if_pos ⟨packed.1, exact⟩]
    · rw [if_pos ⟨exact, short⟩, if_neg (fun stuck => exact stuck.2)]
  · have returns : ¬ (flag = 1 ∧ data.strlen = BLOCKSIZE) := by
      rintro ⟨compressing, exact⟩
      exact packed ⟨compressing, by rw [exact]; decide⟩
    have unflagged : ¬ (flag = 1 ∧ data.bytes.length > 1024) := packed
    rw [sentPayload, duePayload, if_neg unflagged, if_neg returns, if_neg packed]

-- What reaches sendPacket when the call gets that far.
theorem send_data_handed (qosBound : qos ≤ 2) (connected : s.client.isconnected = true)
    (buffer : s.client.bufSize = CLIENT_WRITEBUF) (compresses : CompressesWith g scratch data) (fits : Fitting g scratch qos topic data flag)
    (returns : ¬ (flag = 1 ∧ data.strlen = BLOCKSIZE)) :
    ∃ packet checks t,
      handedPacket (sentTopic g topic data.bytes flag) (sentMessage g qos s (duePayload scratch data flag)) s =
          some (packet, checks, t) ∧
        sendData g call qos topic data.bytes flag s = some (publishSent call qos checks (sendPacket 0 packet t)) ∧
        DecodesTo packet ((g.stack s.log.length).retained % 2) qos (sentTopic g topic data.bytes flag)
          (duePayload scratch data flag) (ownId s) := by
  have handed := handed_packet_wire (sentTopic g topic data.bytes flag) (sentMessage g qos s (duePayload scratch data flag)) s
    connected (by rw [buffer]; exact fits)
  have sent := mqtt_publish_handed call _ _ s _ _ _ handed
  have returned := send_data_publishes g call qos topic data.bytes flag s
  rw [sent_payload_due g scratch qos topic data flag compresses fits, if_neg returns, Option.map_some, sent] at returned
  have small : (Inbound.publish false (decide ((g.stack s.log.length).retained % 2 = 1)) qos (sentTopic g topic data.bytes flag)
      (messageId (sentMessage g qos s (duePayload scratch data flag)) (withOwnId qos (startTimer s).2))
      (duePayload scratch data flag)).body.length < 65536 := by
    rw [body_length]
    exact Nat.lt_of_lt_of_le (packet_len_longer _) (Nat.le_trans fits (by decide))
  have bit : (decide ((g.stack s.log.length).retained % 2 = 1)).toNat = (g.stack s.log.length).retained % 2 := by
    rcases Nat.mod_two_eq_zero_or_one (g.stack s.log.length).retained with even | odd
    · rw [even]
      rfl
    · rw [odd]
      rfl
  have decoded := wire_decodes (decide ((g.stack s.log.length).retained % 2 = 1)) qos (sentTopic g topic data.bytes flag) _
    (duePayload scratch data flag) qosBound small
  rw [bit] at decoded
  exact ⟨_, _, _, handed, returned, decodes_own_id _ _ _ _ qos _ (ownId s)
    (own_message_id (sentMessage g qos s (duePayload scratch data flag)) s qosBound) decoded⟩

theorem sent_faithfully_iff (qosBound : qos ≤ 2) (connected : s.client.isconnected = true)
    (buffer : s.client.bufSize = CLIENT_WRITEBUF) (compresses : CompressesWith g scratch data) (fits : Fitting g scratch qos topic data flag) :
    SentFaithfully g scratch call qos topic data flag s ↔
      (g.stack s.log.length).retained % 2 = 0 ∧ ¬ (flag = 1 ∧ data.strlen = BLOCKSIZE) := by
  have reached := send_data_handed g scratch call qos topic data flag s qosBound connected buffer compresses fits
  constructor
  · rintro ⟨packet, checks, t, found, returned, faithful⟩
    have returns : ¬ (flag = 1 ∧ data.strlen = BLOCKSIZE) := by
      intro stuck
      rw [send_data_publishes, sent_payload_due g scratch qos topic data flag compresses fits, if_pos stuck] at returned
      cases returned
    obtain ⟨other, _, _, handed, _, decoded⟩ := reached returns
    rw [handed] at found
    obtain ⟨rfl, _⟩ := Prod.mk.inj (Option.some.inj found)
    exact ⟨decoded_retained _ _ _ _ _ _ _ _ _ _ _ decoded faithful, returns⟩
  · rintro ⟨even, returns⟩
    obtain ⟨packet, checks, t, handed, returned, decoded⟩ := reached returns
    rw [even] at decoded
    exact ⟨packet, checks, t, handed, returned, decoded⟩

end Sent

def eventText : CString := ⟨signedJson eventGateway eventJson, by decide +kernel⟩

theorem event_compresses (data : CString) : CompressesWith eventGateway freshScratch data :=
  ⟨fun _ => 0, fun _ => 0, fun _ => 0, rfl⟩

theorem event_sent_faithfully : SentFaithfully eventGateway freshScratch (gatewayCall eventGateway 0) 1 (ascii "event") eventText 0
    (eventSystem [] []) :=
  (sent_faithfully_iff eventGateway freshScratch (gatewayCall eventGateway 0) 1 (ascii "event") eventText 0 (eventSystem [] [])
    (by decide) rfl rfl (event_compresses eventText) (by rw [Fitting]; decide +kernel)).mpr
      ⟨rfl, fun packed => absurd packed.1 (by decide)⟩

def strayGateway : Gateway :=
  { eventGateway with stack := fun n => { eventGateway.stack n with retained := 1 } }

theorem stray_compresses (data : CString) : CompressesWith strayGateway freshScratch data := event_compresses data

-- send_data never sets message.retained.
theorem stray_retained_sent : (eventSystem [] []).client.isconnected = true ∧
    Fitting strayGateway freshScratch 1 (ascii "event") eventText 0 ∧
    ¬ SentFaithfully strayGateway freshScratch (gatewayCall strayGateway 0) 1 (ascii "event") eventText 0 (eventSystem [] []) := by
  have fits : Fitting strayGateway freshScratch 1 (ascii "event") eventText 0 := by rw [Fitting]; decide +kernel
  refine ⟨rfl, fits, ?_⟩
  rintro ⟨packet, checks, t, handed, _, faithful⟩
  obtain ⟨other, _, _, found, _, decoded⟩ := send_data_handed strayGateway freshScratch (gatewayCall strayGateway 0) 1
    (ascii "event") eventText 0 (eventSystem [] []) (by decide) rfl rfl (stray_compresses eventText) fits
    (fun packed => absurd packed.1 (by decide))
  rw [found] at handed
  obtain ⟨rfl, _⟩ := Prod.mk.inj (Option.some.inj handed)
  exact absurd (decoded_retained _ _ _ _ _ _ _ _ _ _ _ decoded faithful) (by decide)

section Published

variable (g : Gateway) (packet : Bytes)

-- The text that encode_and_send_data hands to send_data, whatever the call.
def Publishes (text : Bytes) : Prop :=
  ∀ call qos topic flag s, encodeAndSendData g call qos topic packet flag s =
    (sendData g call qos topic text flag s).map (awaitVerdict g call packet s.log.length)

theorem signed_json_published : Publishes g packet (signedJson g packet) :=
  fun _ _ _ _ _ => rfl

theorem wire_payload_unique (dup retain : Bool) (qos : Nat) (topic payload other : Bytes) (id : UInt16)
    (same : (Inbound.publish dup retain qos topic id payload).wire = (Inbound.publish dup retain qos topic id other).wire) :
    payload = other := by
  obtain ⟨_, bodies⟩ := VarInt.ended_unique _ _ _ _ (VarInt.encode_ended _) (VarInt.encode_ended _) (List.cons.inj same).2
  simp only [Inbound.body] at bodies
  exact List.append_cancel_left (List.append_cancel_left (List.append_cancel_left bodies))

-- A client with a write buffer of this size, on a connection that takes nothing.
def refusing (size : Nat) : GatewaySys :=
  { eventSystem [] [] with client := { (eventSystem [] []).client with bufSize := size }, world := ⟨[], [], [], []⟩ }

theorem refused_call (text : Bytes) (size : Nat) (fits : mqttPacketLen (2 + text.length) ≤ size) :
    ∃ t, (sendData g (gatewayCall g 0) 0 [] text 0 (refusing size)).map
        (awaitVerdict g (gatewayCall g 0) packet (refusing size).log.length) = some (FAILURE, t) ∧
      t.log = [.sent 0 (Inbound.publish false (decide ((g.stack 0).retained % 2 = 1)) 0 [] (g.stack 0).id text).wire false] := by
  have room : mqttPacketLen (2 + ([] : Bytes).length + text.length + if (0 : Nat) > 0 then 2 else 0) ≤ size := by
    simpa using fits
  have handed := handed_packet_wire [] (sentMessage g 0 (refusing size) text) (refusing size) rfl room
  have published := mqtt_publish_handed (gatewayCall g 0) _ _ (refusing size) _ _ _ handed
  have plain : ¬ ((0 : Int) = 1 ∧ text.length > 1024) := fun packed => absurd packed.1 (by decide)
  rw [send_data_publishes, sentPayload, if_neg plain, sentTopic, if_neg plain, Option.map_some, published]
  exact ⟨_, rfl, rfl⟩

-- There is only one such text.
theorem published_text (text : Bytes) (publishes : Publishes g packet text) : text = signedJson g packet := by
  have size := Nat.le_add_right (mqttPacketLen (2 + text.length)) (mqttPacketLen (2 + (signedJson g packet).length))
  have other := Nat.le_add_left (mqttPacketLen (2 + (signedJson g packet).length)) (mqttPacketLen (2 + text.length))
  obtain ⟨t, ran, log⟩ := refused_call g packet text _ size
  obtain ⟨u, again, logged⟩ := refused_call g packet (signedJson g packet) _ other
  rw [← publishes (gatewayCall g 0) 0 [] 0] at ran
  rw [← signed_json_published g packet (gatewayCall g 0) 0 [] 0] at again
  obtain ⟨_, rfl⟩ := Prod.mk.inj (Option.some.inj (ran.symm.trans again))
  obtain ⟨same, _⟩ := List.cons.inj (log.symm.trans logged)
  injection same with _ wire
  exact wire_payload_unique _ _ _ _ _ _ _ wire

end Published

end Aliot
