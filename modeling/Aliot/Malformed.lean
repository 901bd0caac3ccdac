import Aliot.Operations
import Aliot.QosTwo

set_option autoImplicit false

namespace Aliot

variable {H σ ε : Type}

def lengthBytes (readbuf : Nat → UInt8) : Nat := (mqttPacketDecodeBuf readbuf 1).1

def remainingLength (readbuf : Nat → UInt8) : Nat := (mqttPacketDecodeBuf readbuf 1).2

def topicEnd (readbuf : Nat → UInt8) : Nat := 2 + readInt readbuf (1 + lengthBytes readbuf)

-- Of the packets that cycle acts on; the topic and the packet id have to lie within the remaining length.
def WellFormedPacket (readbuf : Nat → UInt8) : Prop :=
  if headerType (readbuf 0) = PUBLISH then
    headerQos (readbuf 0) ≤ 2 ∧
      topicEnd readbuf + (if headerQos (readbuf 0) > 0 then 2 else 0) ≤ remainingLength readbuf
  else if headerType (readbuf 0) = PUBREL ∨ headerType (readbuf 0) = PUBREC then 2 ≤ remainingLength readbuf
  else True

def Sys.incoming (s : Sys H σ ε) (arrival : Arrival) : Sys H σ ε :=
  { s with world := { s.world with
      arrivals := { arrival with rc := headerType (arrival.readbuf 0) } :: s.world.arrivals } }

-- deliverMessage is called, or a packet other than a PINGREQ is sent, by this call of cycle.
def ActsIn (cycle : Nat) : Event ε → Prop
  | .delivered n _ => n = cycle
  | .sent n packet _ => n = cycle ∧ packet.head?.map headerType ≠ some PINGREQ
  | .received _ _ => False
  | .note _ => False

structure Untouched (n : Nat) (s t : Sys H σ ε) : Prop where
  events : ∃ newer, t.log = newer ++ s.log ∧ ∀ event ∈ newer, ¬ ActsIn n event
  table : t.client.incomingQos2Messages = s.client.incomingQos2Messages

def ActsOnWellFormed (call : Call H σ ε) (s : Sys H σ ε) (arrival : Arrival) : Prop :=
  WellFormedPacket arrival.readbuf ∨ Untouched (s.cycles + 1) s (cycle call (s.incoming arrival)).2

-- The number of length bytes, returned for a packet that does not parse, differs from the 1 of success.
def Rejected (readbuf : Nat → UInt8) : Prop :=
  lengthBytes readbuf ≠ 1 ∧
    remainingLength readbuf < if headerType (readbuf 0) = PUBLISH then topicEnd readbuf else 2

def publishedId (arrival : Arrival) : UInt16 :=
  (mqttDeserializePublish arrival.readbuf arrival.message arrival.topicName).message.id

-- No reply fits the send buffer, and a PUBLISH is one of QoS 2 that the table keeps from delivery.
def NothingToDo (c : Client H) (arrival : Arrival) : Prop :=
  c.bufSize < 4 ∧ (headerType (arrival.readbuf 0) = PUBLISH →
    headerQos (arrival.readbuf 0) = QOS2 ∧
      ¬ (publishedId arrival ∉ c.incomingQos2Messages ∧ 0 ∈ c.incomingQos2Messages))

def LogGrows (s t : Sys H σ ε) : Prop := s.log <:+ t.log

theorem log_grows_record (s : Sys H σ ε) (event : Event ε) : LogGrows s (s.record event) := List.suffix_cons _ _

theorem log_grows_same (s t : Sys H σ ε) (log : t.log = s.log) : LogGrows s t := ⟨[], log.symm⟩

theorem log_grows_idle (s t : Sys H σ ε) (idle : Idle s t) : LogGrows s t := log_grows_same s t idle.log

theorem log_grows_trans (s t u : Sys H σ ε) (first : LogGrows s t) (second : LogGrows t u) : LogGrows s u :=
  List.IsSuffix.trans first second

theorem log_grows_operated : Operated (LogGrows : Sys H σ ε → Sys H σ ε → Prop) where
  toCarried := carried_of_recorded LogGrows log_grows_idle log_grows_trans (fun s _ => log_grows_same s _ rfl)
    (fun s event _ => log_grows_record s event) (fun _ _ _ s _ _ => log_grows_record s _)
  commanded _ _ s _ _ := log_grows_record s _
  greeted _ _ s _ := log_grows_record s _
  installed s _ := log_grows_same s _ rfl
  raised s _ := log_grows_same s _ rfl
  lowered s := log_grows_same s _ rfl

theorem untouched_refl (n : Nat) (s : Sys H σ ε) : Untouched n s s :=
  ⟨⟨[], rfl, fun _ none => nomatch none⟩, rfl⟩

theorem touched_of_event (n : Nat) (s t u : Sys H σ ε) (event : Event ε) (acts : ActsIn n event)
    (same : LogGrows s t) (grown : LogGrows (t.record event) u) : ¬ Untouched n s u := by
  rintro ⟨⟨newer, log, quiet⟩, _⟩
  obtain ⟨between, middle⟩ := same
  obtain ⟨later, whole⟩ := grown
  have split : newer = later ++ event :: between := by
    apply (List.append_left_inj s.log).mp
    rw [← log, ← whole, Sys.record, ← middle, List.append_assoc, List.cons_append]
  exact quiet event (split ▸ List.mem_append_right _ List.mem_cons_self) acts

section Branches

variable (call : Call H σ ε) (calls : ∀ fp md (t : Sys H σ ε), LogGrows t (call fp md t))

theorem finish_cycle_grows (n type : Nat) (s : Sys H σ ε) : LogGrows s (finishCycle n type s).2 :=
  finish_cycle_recorded LogGrows log_grows_idle log_grows_trans (fun s event _ => log_grows_record s event) n type s

theorem reply_publish_grows (n : Nat) (message : MQTTMessage) (s : Sys H σ ε) : LogGrows s (replyPublish n message s).2 :=
  reply_publish_recorded LogGrows log_grows_idle log_grows_trans (fun s event _ => log_grows_record s event) n message s

theorem reply_sent (n type : Nat) (id : UInt16) (s t u : Sys H σ ε) (room : ¬ s.client.bufSize < 4) (nibble : type < 16)
    (other : type ≠ PINGREQ) (before : LogGrows t s)
    (after : LogGrows (sendReply n (mqttSerializeAck s.client.bufSize type 0 id) s).2 u) : ¬ Untouched n t u := by
  obtain ⟨v, ok, quiet, sent⟩ := send_reply_whole n s.client.bufSize type id s room
  rw [sent] at after
  refine touched_of_event n t v u (.sent n (ackBytes type 0 id) ok) ⟨rfl, ?_⟩
    (log_grows_trans _ _ _ before (log_grows_idle s v quiet)) after
  rw [ack_bytes_type type id nibble]
  exact fun same => other (Option.some.inj same)

theorem cycle_ack_untouched_iff (n type : Nat) (arrival : Arrival) (s : Sys H σ ε) :
    Untouched n s (cycleAck n type arrival s).2 ↔
      (mqttDeserializeAck s.client.readbuf arrival.packetid).rc ≠ 1 ∨ s.client.bufSize < 4 := by
  simp only [cycleAck]
  generalize mqttDeserializeAck s.client.readbuf arrival.packetid = ack
  by_cases malformed : ack.rc ≠ 1
  · rw [if_pos malformed]
    exact iff_of_true (untouched_refl n s) (.inl malformed)
  rw [if_neg malformed]
  by_cases short : s.client.bufSize < 4
  · rw [send_reply_short n _ _ _ s short]
    exact iff_of_true (untouched_refl n s) (.inr short)
  refine iff_of_false ?_ (fun either => either.elim malformed short)
  have nibble : (if type = PUBREC then PUBREL else PUBCOMP) < 16 := by
    split <;> decide
  have other : (if type = PUBREC then PUBREL else PUBCOMP) ≠ PINGREQ := by
    split <;> decide
  refine reply_sent n _ ack.packetid s s _ short nibble other (log_grows_same s s rfl) ?_
  generalize sendReply n _ s = outcome
  split
  · exact log_grows_same _ _ rfl
  · split
    · refine log_grows_trans _ _ _ ?_ (finish_cycle_grows n type _)
      exact log_grows_same _ _ rfl
    · exact finish_cycle_grows n type _

include calls

theorem deliver_message_grows (n : Nat) (md : MessageData) (s : Sys H σ ε) :
    LogGrows (s.record (.delivered n md.message)) (deliverMessage call n md s).2 :=
  deliver_message_carried LogGrows (fun t => log_grows_same t t rfl) log_grows_trans call calls n md s

theorem accept_publish_touches (n : Nat) (md : MessageData) (s u : Sys H σ ε)
    (delivers : md.message.qos = QOS2 → md.message.id ∉ s.client.incomingQos2Messages ∧ 0 ∈ s.client.incomingQos2Messages)
    (grown : LogGrows (acceptPublish call n md s) u) : ¬ Untouched n s u := by
  have delivered := fun t => deliver_message_grows call calls n md t
  by_cases exactlyOnce : md.message.qos = QOS2
  · obtain ⟨absent, room⟩ := delivers exactlyOnce
    have free : isQoS2msgidFree s.client.incomingQos2Messages md.message.id = true := by simp [isQoS2msgidFree, absent]
    have taken : useQoS2msgid s.client.incomingQos2Messages md.message.id =
        some (s.client.incomingQos2Messages.replace 0 md.message.id) := by simp [useQoS2msgid, room]
    simp only [acceptPublish, exactlyOnce, ne_eq, not_true_eq_false, if_false, free, if_true, taken] at grown
    refine touched_of_event n s ((s.record (.received md.message.id s.client.incomingQos2Messages)).withTable
      (s.client.incomingQos2Messages.replace 0 md.message.id)) u (.delivered n md.message) rfl
      (log_grows_record s (.received md.message.id s.client.incomingQos2Messages)) ?_
    exact log_grows_trans _ _ _ (delivered _) grown
  · simp only [acceptPublish, ne_eq, exactlyOnce, not_false_eq_true, if_true] at grown
    exact touched_of_event n s s u (.delivered n md.message) rfl (log_grows_same s s rfl)
      (log_grows_trans _ _ _ (delivered s) grown)

theorem cycle_publish_untouched_iff (n : Nat) (arrival : Arrival) (s : Sys H σ ε) (publish : Deserialized)
    (read : mqttDeserializePublish s.client.readbuf arrival.message arrival.topicName = publish) :
    Untouched n s (cyclePublish call n arrival s).2 ↔ publish.rc ≠ 1 ∨ s.client.bufSize < 4 ∧
      publish.message.qos = QOS2 ∧
        ¬ (publish.message.id ∉ s.client.incomingQos2Messages ∧ 0 ∈ s.client.incomingQos2Messages) := by
  simp only [cyclePublish, read]
  by_cases malformed : publish.rc ≠ 1
  · rw [if_pos malformed]
    exact iff_of_true (untouched_refl n s) (.inl malformed)
  rw [if_neg malformed, or_iff_right malformed]
  have replied := reply_publish_grows n publish.message
    (acceptPublish call n ⟨publish.topicName, publish.message⟩ s)
  by_cases delivers : publish.message.qos = QOS2 →
      publish.message.id ∉ s.client.incomingQos2Messages ∧ 0 ∈ s.client.incomingQos2Messages
  · refine iff_of_false (accept_publish_touches call calls n _ s _ delivers replied) ?_
    exact fun idle => idle.2.2 (delivers idle.2.1)
  obtain ⟨exactlyOnce, kept⟩ := Classical.not_imp.mp delivers
  rw [and_iff_left ⟨exactlyOnce, kept⟩]
  have received : acceptPublish call n ⟨publish.topicName, publish.message⟩ s =
      s.record (.received publish.message.id s.client.incomingQos2Messages) := by
    simp only [acceptPublish, exactlyOnce, ne_eq, not_true_eq_false, if_false]
    by_cases absent : publish.message.id ∈ s.client.incomingQos2Messages
    · simp [isQoS2msgidFree, absent]
    · have full : ¬ 0 ∈ s.client.incomingQos2Messages := fun room => kept ⟨absent, room⟩
      simp [isQoS2msgidFree, absent, useQoS2msgid, full]
  rw [received]
  have two : ¬ QOS2 = QOS0 ∧ ¬ QOS2 = QOS1 := by decide
  simp only [replyPublish, exactlyOnce, two.1, two.2, if_false, if_true]
  by_cases short : s.client.bufSize < 4
  · refine iff_of_true ?_ short
    have unsent := send_reply_short n s.client.bufSize PUBREC publish.message.id
      (s.record (.received publish.message.id s.client.incomingQos2Messages)) short
    rw [show (s.record (.received publish.message.id s.client.incomingQos2Messages)).client.bufSize = s.client.bufSize from rfl,
      unsent]
    refine ⟨⟨[.received publish.message.id s.client.incomingQos2Messages], rfl, ?_⟩, rfl⟩
    intro event only
    obtain rfl := List.mem_singleton.mp only
    exact id
  · refine iff_of_false ?_ short
    refine reply_sent n PUBREC publish.message.id (s.record (.received publish.message.id s.client.incomingQos2Messages)) s _
      short (by decide) (by decide) (log_grows_record s _) ?_
    generalize sendReply n _ _ = outcome
    split
    · exact log_grows_same _ _ rfl
    · exact finish_cycle_grows n PUBLISH _

end Branches

theorem publish_rc_iff (readbuf : Nat → UInt8) (message : MQTTMessage) (topicName : MQTTLenString)
    (type : headerType (readbuf 0) = PUBLISH) :
    ((mqttDeserializePublish readbuf message topicName).rc ≠ 1 ↔
        lengthBytes readbuf ≠ 1 ∧ remainingLength readbuf < topicEnd readbuf) ∧
      (mqttDeserializePublish readbuf message topicName).message.qos = headerQos (readbuf 0) := by
  simp only [mqttDeserializePublish, type, ne_eq, not_true_eq_false, if_false, readMQTTLenString]
  rw [lengthBytes, remainingLength, topicEnd, lengthBytes]
  generalize mqttPacketDecodeBuf readbuf 1 = decoded
  generalize readInt readbuf (1 + decoded.1) = topicLength
  by_cases room : 1 + decoded.1 + decoded.2 - (1 + decoded.1) > 1
  · rw [if_pos room]
    by_cases fits : 1 + decoded.1 + 2 + topicLength ≤ 1 + decoded.1 + decoded.2
    · rw [if_pos fits]
      refine ⟨iff_of_false (fun failed => failed rfl) (fun outside => ?_), ?_⟩
      · omega
      · simp only [Bool.not_true, Bool.false_eq_true, if_false]
        split <;> rfl
    · rw [if_neg fits]
      refine ⟨?_, rfl⟩
      simp only [Bool.not_false, if_true]
      omega
  · rw [if_neg room]
    refine ⟨?_, rfl⟩
    simp only [Bool.not_false, if_true]
    omega

theorem ack_rc_iff (readbuf : Nat → UInt8) (packetid : UInt16) :
    (mqttDeserializeAck readbuf packetid).rc ≠ 1 ↔ lengthBytes readbuf ≠ 1 ∧ remainingLength readbuf < 2 := by
  simp only [mqttDeserializeAck]
  rw [lengthBytes, remainingLength]
  by_cases short : (mqttPacketDecodeBuf readbuf 1).2 < 2
  · rw [if_pos short]
    simp only
    omega
  · rw [if_neg short]
    exact iff_of_false (fun failed => failed rfl) (fun outside => short outside.2)

theorem incoming_cycle (call : Call H σ ε) (s : Sys H σ ε) (arrival : Arrival) :
    ∃ t, t.log = s.log ∧ t.client.incomingQos2Messages = s.client.incomingQos2Messages ∧
      t.client.bufSize = s.client.bufSize ∧ t.client.readbuf = arrival.readbuf ∧
      (headerType (arrival.readbuf 0) = PUBLISH →
        cycle call (s.incoming arrival) =
          cyclePublish call (s.cycles + 1) { arrival with rc := headerType (arrival.readbuf 0) } t) ∧
      (headerType (arrival.readbuf 0) = PUBREL ∨ headerType (arrival.readbuf 0) = PUBREC →
        cycle call (s.incoming arrival) = cycleAck (s.cycles + 1) (headerType (arrival.readbuf 0))
          { arrival with rc := headerType (arrival.readbuf 0) } t) := by
  refine ⟨(s.incoming arrival).startCycle.arrive { arrival with rc := headerType (arrival.readbuf 0) } s.world.arrivals,
    rfl, rfl, rfl, rfl, ?_, ?_⟩
  · intro publish
    have type : packetType (headerType (arrival.readbuf 0)) = PUBLISH := (packet_type_header _).trans publish
    simp only [cycle, Sys.incoming, Sys.startCycle, type, if_true]
    rfl
  · intro ack
    have other : ¬ headerType (arrival.readbuf 0) = PUBLISH := by
      rcases ack with release | answer
      · rw [release]
        decide
      · rw [answer]
        decide
    simp only [cycle, Sys.incoming, Sys.startCycle, packet_type_header, if_neg other, if_pos ack]
    rfl

theorem untouched_from (n : Nat) (s t u : Sys H σ ε) (log : t.log = s.log)
    (table : t.client.incomingQos2Messages = s.client.incomingQos2Messages) : Untouched n s u ↔ Untouched n t u := by
  constructor
  · exact fun untouched => ⟨log ▸ untouched.events, untouched.table.trans table.symm⟩
  · exact fun untouched => ⟨log ▸ untouched.events, untouched.table.trans table⟩

theorem cycle_untouched_iff (call : Call H σ ε) (calls : ∀ fp md (t : Sys H σ ε), LogGrows t (call fp md t))
    (s : Sys H σ ε) (arrival : Arrival) (malformed : ¬ WellFormedPacket arrival.readbuf) :
    Untouched (s.cycles + 1) s (cycle call (s.incoming arrival)).2 ↔
      Rejected arrival.readbuf ∨ NothingToDo s.client arrival := by
  obtain ⟨t, log, table, size, readbuf, publish, ack⟩ := incoming_cycle call s arrival
  rw [untouched_from _ s t _ log table, Rejected, NothingToDo]
  by_cases publishes : headerType (arrival.readbuf 0) = PUBLISH
  · obtain ⟨rc, qos⟩ := publish_rc_iff arrival.readbuf arrival.message arrival.topicName publishes
    rw [publish publishes, cycle_publish_untouched_iff call calls _ _ t _ rfl, readbuf, size, table, if_pos publishes]
    simp only [rc, qos, publishes, forall_const]
    rfl
  have acks : headerType (arrival.readbuf 0) = PUBREL ∨ headerType (arrival.readbuf 0) = PUBREC := by
    by_contra neither
    exact malformed (by rw [WellFormedPacket, if_neg publishes, if_neg neither]; trivial)
  rw [ack acks, cycle_ack_untouched_iff, readbuf, size, ack_rc_iff, if_neg publishes]
  simp only [publishes, false_implies, and_true]

theorem acts_on_well_formed_iff (depth : Nat) (s : Sys H (List (List (Operation H))) ε) (arrival : Arrival) :
    ActsOnWellFormed (operatedCall depth) s arrival ↔
      WellFormedPacket arrival.readbuf ∨ Rejected arrival.readbuf ∨ NothingToDo s.client arrival := by
  have calls := operated_call_carried (H := H) (ε := ε) LogGrows log_grows_operated (fun t => log_grows_same t _ rfl) depth
  by_cases wellFormed : WellFormedPacket arrival.readbuf
  · exact iff_of_true (.inl wellFormed) (.inl wellFormed)
  · rw [ActsOnWellFormed, or_iff_right wellFormed, or_iff_right wellFormed]
    exact cycle_untouched_iff (operatedCall depth) calls s arrival wellFormed

-- A PUBREL without its packet id, as readPacket leaves it.
def emptyPubrel : Arrival :=
  ⟨0, (readPacket (fun _ => 0) ⟨[0x62, 0], []⟩).readbuf, ⟨0, 0, 0, 0, 0, 0⟩, ⟨0, 0⟩, 7⟩

def idleSystem : Sys Unit (List (List (Operation Unit))) Unit :=
  ⟨mqttClient staticClient 4096, ⟨[], [true], [], []⟩, [], 0, []⟩

-- It is answered by a PUBCOMP with whatever the variable for the id held.
theorem empty_pubrel_answered : (readPacket (fun _ => 0) ⟨[0x62, 0], []⟩).rc = PUBREL ∧
    ¬ ActsOnWellFormed (operatedCall 0) idleSystem emptyPubrel := by
  refine ⟨by decide +kernel, ?_⟩
  rintro (wellFormed | ⟨⟨newer, log, quiet⟩, _⟩)
  · have short : headerType (emptyPubrel.readbuf 0) = PUBREL ∧ remainingLength emptyPubrel.readbuf = 0 := by decide +kernel
    rw [WellFormedPacket, short.1, short.2] at wellFormed
    exact absurd wellFormed (by decide)
  · have answered : (cycle (operatedCall 0) (idleSystem.incoming emptyPubrel)).2.log =
        [.sent 1 (ackBytes PUBCOMP 0 7) true] := by decide +kernel
    have started : idleSystem.log = [] := rfl
    rw [answered, started, List.append_nil] at log
    refine quiet (.sent 1 (ackBytes PUBCOMP 0 7) true) (log ▸ List.mem_singleton_self _) ⟨rfl, ?_⟩
    decide +kernel

end Aliot
