import Aliot.Performed
import Aliot.SendPacket
import Aliot.QosTwo

set_option autoImplicit false

namespace Aliot

variable {H σ ε : Type}

-- A well-formed packet with any packet id, also 0.
def Inbound.Shaped (packet : Inbound) : Prop :=
  packet.body.length < 128 ^ 4 ∧
    match packet with
    | .publish _ _ qos topic _ _ => qos ≤ 2 ∧ topic.length < 65536
    | .ack type flags _ => (type = PUBACK ∨ type = PUBREC ∨ type = PUBREL ∨ type = PUBCOMP) ∧ flags < 16
    | .other header _ => headerType header ≠ PUBLISH ∧ headerType header ≠ PUBREC ∧ headerType header ≠ PUBREL

-- The type of the reply and the packet id it carries.
def replyTo : Inbound → Option (Nat × UInt16)
  | .publish _ _ qos _ id _ => if qos = QOS1 then some (PUBACK, id) else if qos = QOS2 then some (PUBREC, id) else none
  | .ack type _ id =>
      if type = PUBREC then some (PUBREL, id) else if type = PUBREL then some (PUBCOMP, id) else none
  | .other _ _ => none

structure IsReply (type : Nat) (id : UInt16) (bytes : Bytes) : Prop where
  length : bytes.length = 4
  flags : bytes.head?.map (fun byte => byte.toNat % 16) = some (if type = PUBREL then 2 else 0)
  decoded : ∀ buf packetid, Memory.load buf 0 bytes.length = bytes → mqttDeserializeAck buf packetid = ⟨1, type, 0, id⟩

-- While mqttwrite takes all bytes it is given, a packet is on the wire or, its timer expired, no byte of it.
def onWire : Event ε → Option Bytes
  | .sent _ packet true => some packet
  | _ => none

-- The packets written between two states of a run, the oldest first.
def written (s t : Sys H σ ε) : List Bytes := (t.log.take (t.log.length - s.log.length)).reverse.filterMap onWire

-- Where cycle stands when it comes to its reply: the handlers of a PUBLISH have returned.
def beforeReply (call : Call H σ ε) (s : Sys H σ ε) (arrival : Arrival) (arrivals : List Arrival) : Sys H σ ε :=
  let s := s.startCycle.arrive arrival arrivals
  if headerType (arrival.readbuf 0) = PUBLISH then
    let publish := mqttDeserializePublish arrival.readbuf arrival.message arrival.topicName
    acceptPublish call s.cycles ⟨publish.topicName, publish.message⟩ s
  else s

def RepliesOnce (packet : Inbound) (writes : List Bytes) : Prop :=
  match replyTo packet with
  | none => writes = [] ∨ writes = [pingreq]
  | some (type, id) => ∃ reply, IsReply type id reply ∧ (writes = [reply] ∨ writes = [reply, pingreq])

theorem well_formed_shaped (packet : Inbound) (valid : packet.WellFormed) : packet.Shaped := by
  obtain ⟨small, fields⟩ := valid
  refine ⟨small, ?_⟩
  cases packet with
  | publish dup retain qos topic id payload => exact ⟨fields.1, fields.2.1⟩
  | ack type flags id => exact ⟨fields.1, fields.2.1⟩
  | other header body => exact fields

theorem full_writes_sent {length : Nat} (buf : Nat → UInt8) (t : Transport length) (positive : 0 < length)
    (full : ∀ k, t.mqttwrite k = some length) :
    sendPacketLoop buf t 2 = some (if t.expired 0 then (FAILURE, []) else (SUCCESS, Memory.load buf 0 length)) := by
  have start : Loop.run (sendStep buf t) 2 ⟨0, 0, []⟩ = Loop.run (sendStep buf t) 2 (sendStateAt buf t 0) := rfl
  by_cases late : t.expired 0 = true
  · have ended : ¬ SendContinues t 0 := fun running => absurd late (by simp [running.2.1])
    rw [sendPacketLoop, start, Loop.run_exit _ 1 _ (step_ends buf t 0 ended), if_pos late]
    have unsent : sendResult length (sendStateAt buf t 0) = FAILURE := if_neg (Nat.ne_of_lt positive)
    exact congrArg (fun rc => some (rc, [])) unsent
  · have more : SendContinues t 0 := ⟨positive, by simpa using late, by simp [full]⟩
    have all : bytesTaken t 1 = length := by simp [bytesTaken, full]
    have ended : ¬ SendContinues t 1 := fun running => absurd running.1 (by omega)
    have ran := run_ends buf t 1 (fun i below => (Nat.lt_one_iff.mp below) ▸ more) ended
    rw [sendPacketLoop, start, ran, if_neg late, Option.map_some, sendResult, sendStateAt]
    simp [all]

theorem ack_bytes_wire (type : Nat) (id : UInt16) (nibble : type < 16) :
    (Inbound.ack type (if type = PUBREL then 2 else 0) id).wire = ackBytes type 0 id := by
  have first : UInt8.ofNat (type * 16 + if type = PUBREL then 2 else 0) =
      headerByte type 0 (if type = PUBREL then 1 else 0) 0 := by
    rw [headerByte, Nat.mod_eq_of_lt nibble]
    split <;> rfl
  have two : VarInt.encode (writeInt id.toNat).length = mqttPacketEncode 2 := (mqtt_packet_encode_refines 2).symm
  rw [Inbound.wire, Inbound.header, Inbound.body, first, two, ackBytes]

theorem ack_bytes_reply (type : Nat) (id : UInt16) (nibble : type < 16) : IsReply type id (ackBytes type 0 id) := by
  have qos : (if type = PUBREL then 1 else 0) < 4 := by split <;> decide
  obtain ⟨typeEq, dupEq, _, _⟩ := header_byte_fields type 0 _ 0 nibble (by decide) qos (by decide)
  refine ⟨rfl, ?_, fun buf packetid loaded => ?_⟩
  · have byte : (headerByte type 0 (if type = PUBREL then 1 else 0) 0).toNat % 16 = if type = PUBREL then 2 else 0 := by
      rw [headerByte, UInt8.toNat_ofNat']
      split <;> omega
    exact congrArg some byte
  · have holds : Holds buf (.ack type (if type = PUBREL then 2 else 0) id) := by
      rw [Holds, ack_bytes_wire type id nibble]
      exact loaded
    obtain ⟨parsed, packetidEq⟩ := ack_deserialized buf type _ id packetid holds
    have first : buf 0 = headerByte type 0 (if type = PUBREL then 1 else 0) 0 := (load_cons buf 0 _ _ loaded).1
    have fields : (mqttDeserializeAck buf packetid).packettype = type ∧ (mqttDeserializeAck buf packetid).dup = 0 := by
      simp only [mqttDeserializeAck, first]
      split
      · exact ⟨typeEq, dupEq⟩
      · exact ⟨typeEq, dupEq⟩
    generalize mqttDeserializeAck buf packetid = ack at parsed packetidEq fields
    obtain ⟨rc, packettype, dup, read⟩ := ack
    simp only at parsed packetidEq fields
    rw [parsed, packetidEq, fields.1, fields.2]

theorem written_newer (s t : Sys H σ ε) (newer : List (Event ε)) (log : t.log = newer ++ s.log) :
    written s t = newer.reverse.filterMap onWire := by
  rw [written, log, List.length_append, Nat.add_sub_cancel, List.take_left]

theorem finish_cycle_log (n type : Nat) (s : Sys H σ ε) :
    (finishCycle n type s).2.log = s.log ∨ ∃ ok, (finishCycle n type s).2.log = .sent n pingreq ok :: s.log := by
  simp only [finishCycle, keepalive]
  split
  · exact .inl rfl
  split
  swap
  · exact .inl rfl
  split
  swap
  · exact .inl rfl
  rename_i _ made
  rw [pingreq_made s.client.bufSize made]
  obtain ⟨t, ok, quiet, outcome⟩ := send_packet_sends n pingreq { s with world := { s.world with pings := s.world.pings.tail } }
  have log : (t.record (.sent n pingreq ok)).log = .sent n pingreq ok :: s.log := congrArg _ quiet.log
  refine .inr ⟨ok, ?_⟩
  rw [outcome]
  split
  · exact log
  · exact log

-- cycle writes the PINGREQ of keepalive, if at all, behind everything else.
theorem finish_cycle_written (n type : Nat) (s t : Sys H σ ε) (newer : List (Event ε)) (log : t.log = newer ++ s.log) :
    written s (finishCycle n type t).2 = newer.reverse.filterMap onWire ∨
      written s (finishCycle n type t).2 = newer.reverse.filterMap onWire ++ [pingreq] := by
  rcases finish_cycle_log n type t with same | ⟨ok, pinged⟩
  · exact .inl (written_newer s _ newer (same.trans log))
  · rw [written_newer s _ (.sent n pingreq ok :: newer) (by rw [pinged, log]; rfl)]
    cases ok with
    | true => exact .inr (by simp [onWire])
    | false => exact .inl (by simp [onWire])

def ReplyPossible (s : Sys H σ ε) : Prop := 4 ≤ s.client.bufSize ∧ s.world.sends.head? = some true

-- What cycle does once it knows the reply.
def Replied (n packet_type type : Nat) (id : UInt16) (s t : Sys H σ ε) : Prop :=
  (ReplyPossible s ∧ ∃ u : Sys H σ ε, u.log = .sent n (ackBytes type 0 id) true :: s.log ∧ t = (finishCycle n packet_type u).2) ∨
    ¬ ReplyPossible s ∧ (t.log = s.log ∨ t.log = .sent n (ackBytes type 0 id) false :: s.log)

theorem send_reply_outcome (n type : Nat) (id : UInt16) (s : Sys H σ ε) :
    (ReplyPossible s ∧ ∃ t, sendReply n (mqttSerializeAck s.client.bufSize type 0 id) s = (SUCCESS, t) ∧
        t.log = .sent n (ackBytes type 0 id) true :: s.log) ∨
      ¬ ReplyPossible s ∧ ∃ t, sendReply n (mqttSerializeAck s.client.bufSize type 0 id) s = (FAILURE, t) ∧
        (t.log = s.log ∨ t.log = .sent n (ackBytes type 0 id) false :: s.log) := by
  by_cases short : s.client.bufSize < 4
  · exact .inr ⟨fun possible => absurd possible.1 (by omega), s, send_reply_short n _ type id s short, .inl rfl⟩
  have made : sendReply n (mqttSerializeAck s.client.bufSize type 0 id) s = sendPacket n (ackBytes type 0 id) s := by
    rw [sendReply, mqttSerializeAck, if_neg short, if_neg (by simp [ackBytes]; omega)]
  rw [made, sendPacket]
  cases outcomes : s.world.sends with
  | nil => exact .inr ⟨fun possible => by simp [outcomes, ReplyPossible] at possible, _, rfl, .inr rfl⟩
  | cons ok sends =>
      cases ok with
      | true => exact .inl ⟨⟨by omega, by rw [outcomes]; rfl⟩, _, rfl, rfl⟩
      | false => exact .inr ⟨fun possible => by simp [outcomes, ReplyPossible] at possible, _, rfl, .inr rfl⟩

theorem replied_written_iff (n packet_type type : Nat) (id : UInt16) (s t : Sys H σ ε) (nibble : type < 16)
    (replied : Replied n packet_type type id s t) :
    (∃ reply, IsReply type id reply ∧ (written s t = [reply] ∨ written s t = [reply, pingreq])) ↔ ReplyPossible s := by
  rcases replied with ⟨possible, u, log, rfl⟩ | ⟨impossible, log⟩
  · refine iff_of_true ⟨_, ack_bytes_reply type id nibble, ?_⟩ possible
    exact finish_cycle_written n packet_type s u [.sent n (ackBytes type 0 id) true] log
  · have nothing : written s t = [] := by
      rcases log with same | unsent
      · exact written_newer s t [] same
      · exact written_newer s t [.sent n (ackBytes type 0 id) false] unsent
    refine iff_of_false ?_ impossible
    rintro ⟨reply, _, alone | pinged⟩
    · cases nothing.symm.trans alone
    · cases nothing.symm.trans pinged

theorem reply_publish_replied (n : Nat) (msg : MQTTMessage) (s : Sys H σ ε) (acknowledged : msg.qos = QOS1 ∨ msg.qos = QOS2) :
    Replied n PUBLISH (if msg.qos = QOS1 then PUBACK else PUBREC) msg.id s (replyPublish n msg s).2 := by
  have some : msg.qos ≠ QOS0 := by rcases acknowledged with least | most <;> simp [QOS0, QOS1, QOS2, *]
  have reply : (if msg.qos = QOS1 then mqttSerializeAck s.client.bufSize PUBACK 0 msg.id
      else if msg.qos = QOS2 then mqttSerializeAck s.client.bufSize PUBREC 0 msg.id else (0, [])) =
      mqttSerializeAck s.client.bufSize (if msg.qos = QOS1 then PUBACK else PUBREC) 0 msg.id := by
    by_cases least : msg.qos = QOS1
    · rw [if_pos least, if_pos least]
    · rw [if_neg least, if_neg least, if_pos (acknowledged.resolve_left least)]
  simp only [replyPublish, if_neg some, reply]
  rcases send_reply_outcome n (if msg.qos = QOS1 then PUBACK else PUBREC) msg.id s with
    ⟨possible, t, sent, log⟩ | ⟨impossible, t, unsent, log⟩
  · rw [sent]
    exact .inl ⟨possible, t, log, rfl⟩
  · rw [unsent]
    exact .inr ⟨impossible, log⟩

theorem cycle_ack_replied (n packet_type : Nat) (arrival : Arrival) (s : Sys H σ ε)
    (parsed : (mqttDeserializeAck s.client.readbuf arrival.packetid).rc = 1) :
    Replied n packet_type (if packet_type = PUBREC then PUBREL else PUBCOMP)
      (mqttDeserializeAck s.client.readbuf arrival.packetid).packetid s (cycleAck n packet_type arrival s).2 := by
  simp only [cycleAck, if_neg (not_not.mpr parsed)]
  generalize (mqttDeserializeAck s.client.readbuf arrival.packetid).packetid = id
  rcases send_reply_outcome n (if packet_type = PUBREC then PUBREL else PUBCOMP) id s with
    ⟨possible, t, sent, log⟩ | ⟨impossible, t, unsent, log⟩
  · rw [sent]
    refine .inl ⟨possible, if packet_type = PUBREL then t.withTable (freeQoS2msgid t.client.incomingQos2Messages id) else t,
      ?_, rfl⟩
    split
    · exact log
    · exact log
  · rw [unsent]
    exact .inr ⟨impossible, log⟩

-- A PUBLISH at QoS 1 is delivered before it is acknowledged.
def DeliveredFirst (call : Call H σ ε) (s : Sys H σ ε) (packet : Inbound) (arrival : Arrival) (arrivals : List Arrival) :
    Prop :=
  ∀ dup retain topic id payload, packet = .publish dup retain QOS1 topic id payload →
    ∃ md, md.message.id = id ∧ beforeReply call s arrival arrivals =
      (deliverMessage call (s.cycles + 1) md (s.startCycle.arrive arrival arrivals)).2

section Cycle

variable (call : Call H σ ε) (s : Sys H σ ε) (arrival : Arrival) (arrivals : List Arrival)
  (coming : s.world.arrivals = arrival :: arrivals)

include coming

theorem silent_cycle_written (type : Nat) (read : packetType arrival.rc = type) (header : headerType (arrival.readbuf 0) = type)
    (publish : type ≠ PUBLISH) (received : type ≠ PUBREC) (released : type ≠ PUBREL) :
    written (beforeReply call s arrival arrivals) (cycle call s).2 = [] ∨
      written (beforeReply call s arrival arrivals) (cycle call s).2 = [pingreq] := by
  have unread : s.startCycle.world.arrivals = arrival :: arrivals := coming
  have ack : ¬ (type = PUBREL ∨ type = PUBREC) := fun either => either.elim released received
  have waiting : beforeReply call s arrival arrivals = s.startCycle.arrive arrival arrivals := by
    rw [beforeReply, header, if_neg publish]
  simp only [cycle, unread, read, if_neg publish, if_neg ack, waiting]
  split
  · exact finish_cycle_written _ _ _ _ [] rfl
  · exact finish_cycle_written _ _ _ _ [] rfl

theorem cycle_acks (type : Nat) (read : packetType arrival.rc = type) (header : headerType (arrival.readbuf 0) = type)
    (acked : type = PUBREL ∨ type = PUBREC) :
    beforeReply call s arrival arrivals = s.startCycle.arrive arrival arrivals ∧
      cycle call s = cycleAck (s.cycles + 1) type arrival (s.startCycle.arrive arrival arrivals) := by
  have unread : s.startCycle.world.arrivals = arrival :: arrivals := coming
  have publish : type ≠ PUBLISH := by rcases acked with rfl | rfl <;> decide
  refine ⟨by rw [beforeReply, header, if_neg publish], ?_⟩
  simp only [cycle, unread, read, if_neg publish, if_pos acked]
  rfl

end Cycle

theorem publish_header_type (dup retain : Bool) (qos : Nat) (topic : Bytes) (id : UInt16) (payload : Bytes) (qosBound : qos ≤ 2) :
    headerType (Inbound.publish dup retain qos topic id payload).header = PUBLISH :=
  (header_byte_fields PUBLISH dup.toNat qos retain.toNat (by decide) (Bool.toNat_lt dup)
    (Nat.lt_of_le_of_lt qosBound (by decide)) (Bool.toNat_lt retain)).1

theorem cycle_publishes (call : Call H σ ε) (s : Sys H σ ε) (arrival : Arrival) (arrivals : List Arrival) (dup retain : Bool)
    (qos : Nat) (topic : Bytes) (id : UInt16) (payload : Bytes) (coming : s.world.arrivals = arrival :: arrivals)
    (read : packetType arrival.rc = PUBLISH) (holds : Holds arrival.readbuf (.publish dup retain qos topic id payload))
    (valid : (Inbound.publish dup retain qos topic id payload).Shaped) :
    ∃ md : MessageData, md.message.qos = qos ∧ (qos > 0 → md.message.id = id) ∧
      beforeReply call s arrival arrivals = acceptPublish call (s.cycles + 1) md (s.startCycle.arrive arrival arrivals) ∧
      cycle call s = replyPublish (s.cycles + 1) md.message (beforeReply call s arrival arrivals) := by
  obtain ⟨small, qosBound, topicBound⟩ := valid
  have header : headerType (arrival.readbuf 0) = PUBLISH := by
    rw [(holds_parts _ _ holds).1]
    exact publish_header_type dup retain qos topic id payload qosBound
  have deserialized := publish_read arrival.readbuf dup retain qos topic id payload arrival.message arrival.topicName holds small
    qosBound topicBound
  obtain ⟨publish, same⟩ : ∃ publish, mqttDeserializePublish arrival.readbuf arrival.message arrival.topicName = publish :=
    ⟨_, rfl⟩
  rw [same] at deserialized
  have parsed : publish.rc = 1 := by rw [deserialized]
  have unread : s.startCycle.world.arrivals = arrival :: arrivals := coming
  have buffer : (s.startCycle.arrive arrival arrivals).client.readbuf = arrival.readbuf := rfl
  have waiting : beforeReply call s arrival arrivals =
      acceptPublish call (s.cycles + 1) ⟨publish.topicName, publish.message⟩ (s.startCycle.arrive arrival arrivals) := by
    simp only [beforeReply, header, if_true, same]
    rfl
  refine ⟨⟨publish.topicName, publish.message⟩, by rw [deserialized], fun positive => ?_, waiting, ?_⟩
  · rw [deserialized]
    exact if_pos positive
  · simp only [cycle, unread, read, if_true, cyclePublish, buffer, same, parsed, ne_eq, not_true_eq_false, if_false, waiting]
    rfl

theorem publish_written_iff (n : Nat) (dup retain : Bool) (topic : Bytes) (id : UInt16) (payload : Bytes) (message : MQTTMessage)
    (qosBound : message.qos ≤ 2) (numbered : message.qos > 0 → message.id = id) (s : Sys H σ ε) :
    RepliesOnce (.publish dup retain message.qos topic id payload) (written s (replyPublish n message s).2) ↔
      ((replyTo (.publish dup retain message.qos topic id payload)).isSome → ReplyPossible s) := by
  by_cases unacknowledged : message.qos = QOS0
  · have silent : replyTo (.publish dup retain message.qos topic id payload) = none := by
      rw [unacknowledged]
      rfl
    have finished : replyPublish n message s = finishCycle n PUBLISH s := if_pos unacknowledged
    rw [RepliesOnce, silent, finished]
    exact iff_of_true (finish_cycle_written n PUBLISH s s [] rfl) (fun none => by cases none)
  · have acknowledged : message.qos = QOS1 ∨ message.qos = QOS2 := by
      simp only [QOS0, QOS1, QOS2] at unacknowledged ⊢
      omega
    have reply : replyTo (.publish dup retain message.qos topic id payload) =
        some (if message.qos = QOS1 then PUBACK else PUBREC, message.id) := by
      rw [numbered (Nat.pos_of_ne_zero unacknowledged)]
      rcases acknowledged with least | most
      · simp [replyTo, least]
      · simp [replyTo, most, QOS1, QOS2]
    rw [RepliesOnce, reply]
    simp only [Option.isSome_some, forall_const]
    exact replied_written_iff n PUBLISH _ message.id s _ (by split <;> decide) (reply_publish_replied n message s acknowledged)

theorem ack_header_type (type flags : Nat) (id : UInt16) (nibble : type < 16) (small : flags < 16) :
    headerType (Inbound.ack type flags id).header = type := by
  rw [Inbound.header, headerType, UInt8.toNat_ofNat', Nat.shiftRight_eq_div_pow]
  omega

theorem ack_written_iff (call : Call H σ ε) (s : Sys H σ ε) (arrival : Arrival) (arrivals : List Arrival)
    (coming : s.world.arrivals = arrival :: arrivals) (ackType flags : Nat) (id : UInt16)
    (known : ackType = PUBACK ∨ ackType = PUBREC ∨ ackType = PUBREL ∨ ackType = PUBCOMP)
    (type : packetType arrival.rc = ackType) (first : headerType (arrival.readbuf 0) = ackType)
    (holds : Holds arrival.readbuf (.ack ackType flags id)) :
    RepliesOnce (.ack ackType flags id) (written (beforeReply call s arrival arrivals) (cycle call s).2) ↔
      ((replyTo (.ack ackType flags id)).isSome → ReplyPossible (beforeReply call s arrival arrivals)) := by
  by_cases acked : ackType = PUBREL ∨ ackType = PUBREC
  · obtain ⟨waiting, run⟩ := cycle_acks call s arrival arrivals coming ackType type first acked
    obtain ⟨parsed, packetid⟩ := ack_deserialized arrival.readbuf ackType flags id arrival.packetid holds
    have replied := cycle_ack_replied (s.cycles + 1) ackType arrival (s.startCycle.arrive arrival arrivals) parsed
    have carried : (mqttDeserializeAck (s.startCycle.arrive arrival arrivals).client.readbuf arrival.packetid).packetid = id :=
      packetid
    have reply : replyTo (.ack ackType flags id) = some (if ackType = PUBREC then PUBREL else PUBCOMP, id) := by
      rcases acked with rfl | rfl <;> rfl
    rw [carried] at replied
    rw [RepliesOnce, reply, waiting, run]
    simp only [Option.isSome_some, forall_const]
    exact replied_written_iff _ _ _ id _ _ (by split <;> decide) replied
  · have released : ackType ≠ PUBREL := fun same => acked (.inl same)
    have received : ackType ≠ PUBREC := fun same => acked (.inr same)
    have publish : ackType ≠ PUBLISH := by rcases known with rfl | rfl | rfl | rfl <;> decide
    have reply : replyTo (.ack ackType flags id) = none := by rw [replyTo, if_neg received, if_neg released]
    rw [RepliesOnce, reply]
    exact iff_of_true (silent_cycle_written call s arrival arrivals coming ackType type first publish received released)
      (fun none => by cases none)

theorem cycle_replies (call : Call H σ ε) (s : Sys H σ ε) (packet : Inbound) (arrival : Arrival) (arrivals : List Arrival)
    (coming : s.world.arrivals = arrival :: arrivals) (read : arrival.rc = headerType packet.header)
    (holds : Holds arrival.readbuf packet) (valid : packet.Shaped) :
    DeliveredFirst call s packet arrival arrivals ∧
      (RepliesOnce packet (written (beforeReply call s arrival arrivals) (cycle call s).2) ↔
        ((replyTo packet).isSome → ReplyPossible (beforeReply call s arrival arrivals))) := by
  have type : packetType arrival.rc = headerType packet.header := by
    have wide := packet_type_header packet.header
    rw [read]
    omega
  have first : headerType (arrival.readbuf 0) = headerType packet.header := congrArg headerType (holds_parts _ _ holds).1
  cases packet with
  | publish dup retain qos topic id payload =>
      have publish := publish_header_type dup retain qos topic id payload valid.2.1
      obtain ⟨md, rfl, numbered, waiting, run⟩ := cycle_publishes call s arrival arrivals dup retain qos topic id payload coming
        (type.trans publish) holds valid
      refine ⟨?_, ?_⟩
      · intro _ _ _ _ _ same
        injection same with _ _ least _ carried _
        rw [← carried, ← numbered (least ▸ by decide)]
        have unheld : md.message.qos ≠ QOS2 := least ▸ by decide
        exact ⟨md, rfl, waiting.trans (if_pos unheld)⟩
      · rw [run]
        exact publish_written_iff (s.cycles + 1) dup retain topic id payload md.message valid.2.1 numbered _
  | ack ackType flags id =>
      obtain ⟨_, known, small⟩ := valid
      have nibble : ackType < 16 := by rcases known with rfl | rfl | rfl | rfl <;> decide
      rw [ack_header_type ackType flags id nibble small] at type first
      refine ⟨fun _ _ _ _ _ same => (by cases same), ?_⟩
      exact ack_written_iff call s arrival arrivals coming ackType flags id known type first holds
  | other header body =>
      refine ⟨fun _ _ _ _ _ same => (by cases same), ?_⟩
      refine iff_of_true ?_ (fun none => by cases none)
      exact silent_cycle_written call s arrival arrivals coming _ type first valid.2.1 valid.2.2.1 valid.2.2.2

def acknowledgedPublish : Inbound := .publish false false 1 [0x74] 7 [0x70]

def publishedTo (sends : List Bool) : Sys Unit Unit Unit :=
  ⟨mqttClient staticClient 4096, ⟨[arrivalOf acknowledgedPublish], sends, [], []⟩, (), 0, []⟩

def afterPublish (sends : List Bool) : Sys Unit Unit Unit :=
  beforeReply (fun _ _ s => s) (publishedTo sends) (arrivalOf acknowledgedPublish) []

def publishWritten (sends : List Bool) : List Bytes :=
  written (afterPublish sends) (cycle (fun _ _ s => s) (publishedTo sends)).2

theorem acknowledged_publish_shaped : acknowledgedPublish.Shaped := ⟨by decide, by decide, by decide⟩

theorem publish_acknowledged : RepliesOnce acknowledgedPublish (publishWritten [true]) :=
  (cycle_replies (fun _ _ s => s) (publishedTo [true]) acknowledgedPublish (arrivalOf acknowledgedPublish) [] rfl rfl
    (Memory.load_listed 0 [] acknowledgedPublish.wire) acknowledged_publish_shaped).2.mpr fun _ => ⟨by decide, rfl⟩

def expiredTransport (length : Nat) : Transport length where
  expired _ := true
  mqttwrite _ := some length
  requested _ _ taken := Nat.le_of_eq (Option.some.inj taken).symm

-- The handler took longer than the timer of cycle: mqttwrite is not called for the PUBACK.
theorem late_reply_unwritten :
    acknowledgedPublish.Shaped ∧ Holds (arrivalOf acknowledgedPublish).readbuf acknowledgedPublish ∧
      sendPacketLoop (fun i => (ackBytes PUBACK 0 7).getD i 0) (expiredTransport 4) 2 = some (FAILURE, []) ∧
      ¬ RepliesOnce acknowledgedPublish (publishWritten [false]) := by
  refine ⟨acknowledged_publish_shaped, Memory.load_listed 0 [] acknowledgedPublish.wire,
    full_writes_sent _ (expiredTransport 4) (by decide) (fun _ => rfl), ?_⟩
  have nothing : publishWritten [false] = [] := by decide +kernel
  rintro ⟨reply, _, alone | pinged⟩
  · cases nothing.symm.trans alone
  · cases nothing.symm.trans pinged

end Aliot
