import Aliot.MqttClient

set_option autoImplicit false

namespace Aliot

variable {H σ ε : Type}

inductive Command where
  | cycle
  | yield
  | publish (topicName : Bytes) (message : Outgoing)

def runCommand (call : Call H σ ε) : Command → Sys H σ ε → Sys H σ ε
  | .cycle, s => (cycle call s).2
  | .yield, s => (mqttYield call s).2
  | .publish topicName message, s => (mqttPublish call topicName message s).2

def runCommands (call : Call H σ ε) : List Command → Sys H σ ε → Sys H σ ε
  | [], s => s
  | command :: commands, s => runCommands call commands (runCommand call command s)

-- Every handler that is called takes the next script; those nested deeper than depth do nothing.
def scriptedCall : Nat → Call H (List (List Command)) ε
  | 0 => fun _ _ s => s
  | depth + 1 => fun _ _ s =>
      runCommands (scriptedCall depth) (s.host.headD []) { s with host := s.host.tail }

-- A step inside the client that leaves its tables, its connection, its host and the log alone.
structure Idle (s t : Sys H σ ε) : Prop where
  arrivals : t.world.arrivals <:+ s.world.arrivals
  table : t.client.incomingQos2Messages = s.client.incomingQos2Messages
  handlers : t.client.messageHandlers = s.client.messageHandlers
  connected : t.client.isconnected = s.client.isconnected
  host : t.host = s.host
  log : t.log = s.log
  readbuf : t.world.arrivals = s.world.arrivals ∧ t.client.readbuf = s.client.readbuf ∨
    ∃ arrival, arrival :: t.world.arrivals <:+ s.world.arrivals ∧ t.client.readbuf = arrival.readbuf

-- Kept by every part of the client, as long as the handlers it calls keep it.
structure Carried (R : Sys H σ ε → Sys H σ ε → Prop) : Prop where
  idle : ∀ s t, Idle s t → R s t
  trans : ∀ s t u, R s t → R t u → R s u
  sent : ∀ n packet ok s, packet.head?.map headerType = some PUBLISH ∧ s.client.isconnected = true ∨
    packet.head?.map headerType = some PINGREQ → R s (s.record (.sent n packet ok))
  stepped : ∀ call s, (∀ fp md t, R t (call fp md t)) → R s (cycle call s).2

theorem idle_refl (s : Sys H σ ε) : Idle s s := ⟨List.suffix_refl _, rfl, rfl, rfl, rfl, rfl, .inl ⟨rfl, rfl⟩⟩

theorem idle_trans (s t u : Sys H σ ε) (first : Idle s t) (second : Idle t u) : Idle s u := by
  refine ⟨second.arrivals.trans first.arrivals, second.table.trans first.table, second.handlers.trans first.handlers,
    second.connected.trans first.connected, second.host.trans first.host, second.log.trans first.log, ?_⟩
  rcases second.readbuf with ⟨unread, same⟩ | ⟨arrival, read, last⟩
  · rw [unread, same]
    exact first.readbuf
  · exact .inr ⟨arrival, read.trans first.arrivals, last⟩

theorem timer_idle (s : Sys H σ ε) : Idle s (startTimer s).2 :=
  ⟨List.suffix_refl _, rfl, rfl, rfl, rfl, rfl, .inl ⟨rfl, rfl⟩⟩

theorem send_packet_sends (n : Nat) (packet : Bytes) (s : Sys H σ ε) :
    ∃ t ok, Idle s t ∧ sendPacket n packet s = (if ok then SUCCESS else FAILURE, t.record (.sent n packet ok)) := by
  cases outcomes : s.world.sends with
  | nil => exact ⟨s, false, idle_refl s, by simp only [sendPacket, outcomes]; rfl⟩
  | cons ok sends =>
      refine ⟨{ s with world := { s.world with sends := sends } }, ok, ⟨List.suffix_refl _, rfl, rfl, rfl, rfl, rfl, .inl ⟨rfl, rfl⟩⟩, ?_⟩
      simp only [sendPacket, outcomes]

theorem send_packet_carried (R : Sys H σ ε → Sys H σ ε → Prop) (idle : ∀ s t, Idle s t → R s t)
    (trans : ∀ s t u, R s t → R t u → R s u) (n : Nat) (packet : Bytes)
    (recorded : ∀ ok s, R s (s.record (.sent n packet ok))) (s : Sys H σ ε) : R s (sendPacket n packet s).2 := by
  obtain ⟨t, ok, quiet, outcome⟩ := send_packet_sends n packet s
  rw [outcome]
  exact trans _ _ _ (idle s t quiet) (recorded ok t)

theorem keepalive_carried (R : Sys H σ ε → Sys H σ ε → Prop) (idle : ∀ s t, Idle s t → R s t)
    (trans : ∀ s t u, R s t → R t u → R s u) (n : Nat)
    (pinged : ∀ packet ok s, packet.head?.map headerType = some PINGREQ → R s (s.record (.sent n packet ok)))
    (s : Sys H σ ε) : R s (keepalive n s).2 := by
  simp only [keepalive]
  by_cases off : s.client.keepAliveInterval = 0
  · simpa only [if_pos off] using idle s s (idle_refl s)
  have popped : R s { s with world := { s.world with pings := s.world.pings.tail } } :=
    idle _ _ ⟨List.suffix_refl _, rfl, rfl, rfl, rfl, rfl, .inl ⟨rfl, rfl⟩⟩
  simp only [if_neg off]
  split
  · split
    · rename_i _ fits
      have made : (mqttSerializePingreq s.client.bufSize).2.head?.map headerType = some PINGREQ := by
        by_cases short : s.client.bufSize < 2
        · simp [mqttSerializePingreq, short, MQTTPACKET_BUFFER_TOO_SHORT] at fits
        · simp only [mqttSerializePingreq, if_neg short]
          rfl
      have sent := trans _ _ _ popped (send_packet_carried R idle trans n _ (fun ok t => pinged _ ok t made) _)
      split
      · exact trans _ _ _ sent (idle _ _ ⟨List.suffix_refl _, rfl, rfl, rfl, rfl, rfl, .inl ⟨rfl, rfl⟩⟩)
      · exact sent
    · exact popped
  · exact popped

theorem deliver_loop_carried (R : Sys H σ ε → Sys H σ ε → Prop) (refl : ∀ s, R s s)
    (trans : ∀ s t u, R s t → R t u → R s u) (call : Call H σ ε) (calls : ∀ fp md t, R t (call fp md t))
    (md : MessageData) (entries : List Nat) (rc : Int) (s : Sys H σ ε) : R s (deliverLoop call md entries rc s).2 := by
  induction entries generalizing rc s with
  | nil => exact refl s
  | cons i entries ih =>
      simp only [deliverLoop]
      split
      · split
        · exact trans _ _ _ (calls _ md s) (ih SUCCESS _)
        · exact ih rc s
      · exact ih rc s

theorem deliver_message_carried (R : Sys H σ ε → Sys H σ ε → Prop) (refl : ∀ s, R s s)
    (trans : ∀ s t u, R s t → R t u → R s u) (call : Call H σ ε) (calls : ∀ fp md t, R t (call fp md t)) (n : Nat)
    (md : MessageData) (s : Sys H σ ε) : R (s.record (.delivered n md.message)) (deliverMessage call n md s).2 := by
  have loop := deliver_loop_carried R refl trans call calls md (List.range MAX_MESSAGE_HANDLERS) FAILURE
    (s.record (.delivered n md.message))
  simp only [deliverMessage]
  split
  · split
    · exact trans _ _ _ loop (calls _ md _)
    · exact loop
  · exact loop

theorem send_reply_short (n bufSize type : Nat) (id : UInt16) (s : Sys H σ ε) (short : bufSize < 4) :
    sendReply n (mqttSerializeAck bufSize type 0 id) s = (FAILURE, s) := by
  simp [sendReply, mqttSerializeAck, short, MQTTPACKET_BUFFER_TOO_SHORT]

theorem send_reply_whole (n bufSize type : Nat) (id : UInt16) (s : Sys H σ ε) (room : ¬ bufSize < 4) :
    ∃ t ok, Idle s t ∧ sendReply n (mqttSerializeAck bufSize type 0 id) s =
      (if ok then SUCCESS else FAILURE, t.record (.sent n (ackBytes type 0 id) ok)) := by
  obtain ⟨t, ok, quiet, outcome⟩ := send_packet_sends n (ackBytes type 0 id) s
  refine ⟨t, ok, quiet, ?_⟩
  rw [sendReply, mqttSerializeAck, if_neg room, if_neg (by simp [ackBytes]; omega)]
  exact outcome

theorem send_reply_sends (n bufSize type : Nat) (id : UInt16) (s : Sys H σ ε) :
    sendReply n (mqttSerializeAck bufSize type 0 id) s = (FAILURE, s) ∨
      ∃ t ok, Idle s t ∧ sendReply n (mqttSerializeAck bufSize type 0 id) s =
        (if ok then SUCCESS else FAILURE, t.record (.sent n (ackBytes type 0 id) ok)) := by
  by_cases short : bufSize < 4
  · exact .inl (send_reply_short n bufSize type id s short)
  · exact .inr (send_reply_whole n bufSize type id s short)

theorem arrive_idle (s : Sys H σ ε) (arrival : Arrival) (arrivals : List Arrival)
    (coming : s.world.arrivals = arrival :: arrivals) : Idle s (s.startCycle.arrive arrival arrivals) :=
  ⟨coming ▸ List.suffix_cons _ _, rfl, rfl, rfl, rfl, rfl, .inr ⟨arrival, coming ▸ List.suffix_refl _, rfl⟩⟩

theorem cycle_branches (call : Call H σ ε) (s : Sys H σ ε) :
    (∃ t n type, Idle s t ∧ cycle call s = finishCycle n type t) ∨
      ∃ t n arrival, Idle s t ∧ arrival ∈ s.world.arrivals ∧ t.client.readbuf = arrival.readbuf ∧
        (packetType arrival.rc = PUBLISH ∧ cycle call s = cyclePublish call n arrival t ∨
          (packetType arrival.rc = PUBREL ∨ packetType arrival.rc = PUBREC) ∧
            cycle call s = cycleAck n (packetType arrival.rc) arrival t) := by
  cases coming : s.world.arrivals with
  | nil =>
      refine .inl ⟨s.startCycle, s.cycles + 1, packetType FAILURE, ⟨List.suffix_refl _, rfl, rfl, rfl, rfl, rfl, .inl ⟨rfl, rfl⟩⟩, ?_⟩
      simp only [cycle, Sys.startCycle, coming]
  | cons arrival arrivals =>
      have took := arrive_idle s arrival arrivals coming
      have unread : s.startCycle.world.arrivals = arrival :: arrivals := coming
      by_cases publish : packetType arrival.rc = PUBLISH
      · refine .inr ⟨_, (s.startCycle.arrive arrival arrivals).cycles, arrival, took, List.mem_cons_self, rfl, .inl ⟨publish, ?_⟩⟩
        simp only [cycle, unread, if_pos publish]
      by_cases ack : packetType arrival.rc = PUBREL ∨ packetType arrival.rc = PUBREC
      · refine .inr ⟨_, (s.startCycle.arrive arrival arrivals).cycles, arrival, took, List.mem_cons_self, rfl, .inr ⟨ack, ?_⟩⟩
        simp only [cycle, unread, if_neg publish, if_pos ack]
      left
      by_cases ping : packetType arrival.rc = PINGRESP
      · refine ⟨{ s.startCycle.arrive arrival arrivals with
          client := { (s.startCycle.arrive arrival arrivals).client with pingOutstanding := false } },
          (s.startCycle.arrive arrival arrivals).cycles, packetType arrival.rc,
          ⟨took.arrivals, took.table, took.handlers, took.connected, took.host, took.log, took.readbuf⟩, ?_⟩
        simp only [cycle, unread, if_neg publish, if_neg ack, if_pos ping]
      · refine ⟨_, (s.startCycle.arrive arrival arrivals).cycles, packetType arrival.rc, took, ?_⟩
        simp only [cycle, unread, if_neg publish, if_neg ack, if_neg ping]

theorem yield_loop_carried (R : Sys H σ ε → Sys H σ ε → Prop) (carried : Carried R) (call : Call H σ ε)
    (calls : ∀ fp md t, R t (call fp md t)) (checks : Nat) (s : Sys H σ ε) : R s (yieldLoop call checks s).2 := by
  induction checks generalizing s with
  | zero => exact carried.idle s s (idle_refl s)
  | succ checks ih =>
      have step := carried.stepped call s calls
      by_cases failed : (cycle call s).1 = FAILURE
      · simpa only [yieldLoop, failed, if_true] using step
      · simpa only [yieldLoop, failed, if_false] using carried.trans _ _ _ step (ih (cycle call s).2)

theorem mqtt_yield_carried (R : Sys H σ ε → Sys H σ ε → Prop) (carried : Carried R) (call : Call H σ ε)
    (calls : ∀ fp md t, R t (call fp md t)) (s : Sys H σ ε) : R s (mqttYield call s).2 :=
  carried.trans _ _ _ (carried.idle s (startTimer s).2 (timer_idle s))
    (yield_loop_carried R carried call calls _ _)

theorem waitfor_carried (R : Sys H σ ε → Sys H σ ε → Prop) (carried : Carried R) (call : Call H σ ε)
    (calls : ∀ fp md t, R t (call fp md t)) (packet_type checks : Nat) (rc : Int) (s : Sys H σ ε) :
    R s (waitfor call packet_type checks rc s).2 := by
  induction checks generalizing rc s with
  | zero => exact carried.idle s s (idle_refl s)
  | succ checks ih =>
      have step := carried.stepped call s calls
      by_cases found : (cycle call s).1 = packet_type
      · simpa only [waitfor, found, if_true] using step
      · simpa only [waitfor, found, if_false] using carried.trans _ _ _ step (ih _ (cycle call s).2)

theorem await_ack_state (call : Call H σ ε) (packet_type checks : Nat) (s : Sys H σ ε) :
    (awaitAck call packet_type checks s).2 = (waitfor call packet_type checks FAILURE s).2 := by
  by_cases found : (waitfor call packet_type checks FAILURE s).1 = packet_type
  · by_cases decoded : (mqttDeserializeAck (waitfor call packet_type checks FAILURE s).2.client.readbuf 0).rc = 1
    · simp [awaitAck, found, decoded]
    · simp [awaitAck, found, decoded]
  · simp [awaitAck, found]

theorem serialize_publish_type (buflen dup qos retained : Nat) (packetid : UInt16) (topicName payload : Bytes)
    (made : ¬ (mqttSerializePublish buflen dup qos retained packetid topicName payload).1 ≤ 0) :
    (mqttSerializePublish buflen dup qos retained packetid topicName payload).2.head?.map headerType = some PUBLISH := by
  have fields := header_byte_fields PUBLISH (dup % 2) (qos % 4) (retained % 2) (by decide) (by omega) (by omega) (by omega)
  have byte : headerByte PUBLISH (dup % 2) (qos % 4) (retained % 2) = headerByte PUBLISH dup qos retained := by
    simp only [headerByte, Nat.mod_mod]
  rw [byte] at fields
  simp only [mqttSerializePublish] at made ⊢
  generalize 2 + topicName.length + payload.length + (if qos > 0 then 2 else 0) = rem_len at made ⊢
  by_cases short : mqttPacketLen rem_len > buflen
  · exact absurd (by simp [if_pos short, MQTTPACKET_BUFFER_TOO_SHORT]) made
  · rw [if_neg short]
    exact congrArg some fields.1

theorem await_ack_result (call : Call H σ ε) (packet_type checks : Nat) (s : Sys H σ ε) :
    (awaitAck call packet_type checks s).1 = SUCCESS ∨ (awaitAck call packet_type checks s).1 = FAILURE := by
  simp only [awaitAck]
  split
  · split
    · exact .inr rfl
    · exact .inl rfl
  · exact .inr rfl

-- The PUBLISH is the first thing that mqttPublish sends.
theorem mqtt_publish_outcome (call : Call H σ ε) (topicName : Bytes) (message : Outgoing) (s : Sys H σ ε) :
    (∃ t, Idle s t ∧ mqttPublish call topicName message s = (FAILURE, t)) ∨
      ∃ t packet, Idle s t ∧ t.client.isconnected = true ∧ packet.head?.map headerType = some PUBLISH ∧
        (mqttPublish call topicName message s = (FAILURE, t.record (.sent 0 packet false)) ∨
          mqttPublish call topicName message s = (SUCCESS, t.record (.sent 0 packet true)) ∨
          ∃ type checks, mqttPublish call topicName message s = awaitAck call type checks (t.record (.sent 0 packet true))) := by
  have timed := timer_idle s
  simp only [mqttPublish]
  generalize startTimer s = started at timed ⊢
  obtain ⟨checks, t⟩ := started
  simp only at timed ⊢
  by_cases connected : t.client.isconnected = true
  swap
  · exact .inl ⟨t, timed, by simp [connected]⟩
  have started := timed.connected.symm.trans connected
  simp only [connected, Bool.not_true, Bool.false_eq_true, if_false]
  generalize (message.qos = QOS1 || message.qos = QOS2) = numbered
  have ready : Idle s (if numbered then { t with client := getNextPacketId t.client } else t) := by
    cases numbered
    · exact timed
    · exact ⟨timed.arrivals, timed.table, timed.handlers, timed.connected, timed.host, timed.log, timed.readbuf⟩
  generalize (if numbered then { t with client := getNextPacketId t.client } else t) = u at ready ⊢
  generalize (if numbered = true then UInt16.ofNat u.client.nextPacketid else message.id) = id
  have type := serialize_publish_type u.client.bufSize 0 message.qos message.retained id topicName message.payload
  generalize mqttSerializePublish u.client.bufSize 0 message.qos message.retained id topicName message.payload = made
    at type ⊢
  by_cases unmade : made.1 ≤ 0
  · exact .inl ⟨u, ready, by simp [unmade]⟩
  obtain ⟨v, ok, quiet, sent⟩ := send_packet_sends 0 made.2 u
  have before := idle_trans s u v ready quiet
  refine .inr ⟨v, made.2, before, before.connected.trans started, type unmade, ?_⟩
  simp only [unmade, if_false, sent]
  cases ok with
  | false => exact .inl rfl
  | true =>
      right
      simp only [if_true, ne_eq, not_true_eq_false, if_false]
      split
      · exact .inr ⟨_, _, rfl⟩
      · split
        · exact .inr ⟨_, _, rfl⟩
        · exact .inl rfl

theorem mqtt_publish_carried (R : Sys H σ ε → Sys H σ ε → Prop) (carried : Carried R) (call : Call H σ ε)
    (calls : ∀ fp md t, R t (call fp md t)) (topicName : Bytes) (message : Outgoing) (s : Sys H σ ε) :
    R s (mqttPublish call topicName message s).2 := by
  rcases mqtt_publish_outcome call topicName message s with ⟨t, quiet, done⟩ | ⟨t, packet, quiet, connected, type, outcome⟩
  · exact done ▸ carried.idle s t quiet
  have sent := fun ok => carried.trans _ _ _ (carried.idle s t quiet)
    (carried.sent 0 packet ok t (.inl ⟨type, connected⟩))
  rcases outcome with done | done | ⟨awaited, checks, done⟩
  · exact done ▸ sent false
  · exact done ▸ sent true
  · rw [done, await_ack_state]
    exact carried.trans _ _ _ (sent true) (waitfor_carried R carried call calls awaited checks FAILURE _)

theorem run_commands_carried (R : Sys H σ ε → Sys H σ ε → Prop) (carried : Carried R) (call : Call H σ ε)
    (calls : ∀ fp md t, R t (call fp md t)) (commands : List Command) (s : Sys H σ ε) :
    R s (runCommands call commands s) := by
  induction commands generalizing s with
  | nil => exact carried.idle s s (idle_refl s)
  | cons command commands ih =>
      refine carried.trans _ _ _ ?_ (ih (runCommand call command s))
      cases command with
      | cycle => exact carried.stepped call s calls
      | yield => exact mqtt_yield_carried R carried call calls s
      | publish topicName message => exact mqtt_publish_carried R carried call calls topicName message s

theorem scripted_call_carried (R : Sys H (List (List Command)) ε → Sys H (List (List Command)) ε → Prop)
    (carried : Carried R) (scripts : ∀ s, R s { s with host := s.host.tail }) (depth : Nat) (fp : H)
    (md : MessageData) (s : Sys H (List (List Command)) ε) : R s (scriptedCall depth fp md s) := by
  induction depth generalizing fp md s with
  | zero => exact carried.idle s s (idle_refl s)
  | succ depth ih => exact carried.trans _ _ _ (scripts s) (run_commands_carried R carried _ ih _ _)

-- What cycle records of itself: a PUBLISH read or delivered, a reply, a PINGREQ.
def CycleEvent : Event ε → Prop
  | .received _ _ => True
  | .delivered _ _ => True
  | .sent _ packet _ => ∃ type, packet.head?.map headerType = some type ∧
      (type = PUBACK ∨ type = PUBREC ∨ type = PUBREL ∨ type = PUBCOMP ∨ type = PINGREQ)
  | .note _ => False

section Recorded

variable (R : Sys H σ ε → Sys H σ ε → Prop) (idle : ∀ s t, Idle s t → R s t)
  (trans : ∀ s t u, R s t → R t u → R s u) (tabled : ∀ s table, R s (s.withTable table))
  (recorded : ∀ s event, CycleEvent event → R s (s.record event))

include idle trans recorded

theorem finish_cycle_recorded (n type : Nat) (s : Sys H σ ε) : R s (finishCycle n type s).2 :=
  keepalive_carried R idle trans n
    (fun _ _ t made => recorded t _ ⟨PINGREQ, made, .inr (.inr (.inr (.inr rfl)))⟩) s

theorem send_reply_recorded (n bufSize type : Nat) (id : UInt16) (s : Sys H σ ε)
    (reply : type = PUBACK ∨ type = PUBREC ∨ type = PUBREL ∨ type = PUBCOMP) :
    R s (sendReply n (mqttSerializeAck bufSize type 0 id) s).2 := by
  have nibble : type < 16 := by
    rcases reply with rfl | rfl | rfl | rfl <;> decide
  rcases send_reply_sends n bufSize type id s with failed | ⟨t, ok, quiet, sent⟩
  · rw [failed]
    exact idle s s (idle_refl s)
  · rw [sent]
    refine trans _ _ _ (idle s t quiet) (recorded t _ ⟨type, ack_bytes_type type id nibble, ?_⟩)
    rcases reply with first | second | third | fourth
    · exact .inl first
    · exact .inr (.inl second)
    · exact .inr (.inr (.inl third))
    · exact .inr (.inr (.inr (.inl fourth)))

theorem reply_publish_recorded (n : Nat) (msg : MQTTMessage) (s : Sys H σ ε) : R s (replyPublish n msg s).2 := by
  have finished : ∀ outcome : Int × Sys H σ ε, R s outcome.2 →
      R s (if outcome.1 = FAILURE then (FAILURE, outcome.2) else finishCycle n PUBLISH outcome.2).2 := by
    intro outcome replied
    split
    · exact replied
    · exact trans _ _ _ replied (finish_cycle_recorded R idle trans recorded n PUBLISH outcome.2)
  simp only [replyPublish]
  by_cases most : msg.qos = QOS0
  · simpa only [if_pos most] using finish_cycle_recorded R idle trans recorded n PUBLISH s
  simp only [if_neg most]
  apply finished
  by_cases least : msg.qos = QOS1
  · simpa only [if_pos least] using send_reply_recorded R idle trans recorded n _ PUBACK msg.id s (.inl rfl)
  by_cases exactlyOnce : msg.qos = QOS2
  · simpa only [if_neg least, if_pos exactlyOnce] using
      send_reply_recorded R idle trans recorded n _ PUBREC msg.id s (.inr (.inl rfl))
  · simpa only [if_neg least, if_neg exactlyOnce, sendReply, Int.le_refl, if_true] using idle s s (idle_refl s)

include tabled

theorem accept_publish_recorded (call : Call H σ ε) (calls : ∀ fp md t, R t (call fp md t)) (n : Nat)
    (md : MessageData) (s : Sys H σ ε) : R s (acceptPublish call n md s) := by
  have delivered : ∀ t, R t (deliverMessage call n md t).2 := fun t =>
    trans _ _ _ (recorded t (.delivered n md.message) trivial)
      (deliver_message_carried R (fun t => idle t t (idle_refl t)) trans call calls n md t)
  have received := recorded s (.received md.message.id s.client.incomingQos2Messages) trivial
  simp only [acceptPublish]
  split
  · exact delivered s
  · split
    · split
      · exact trans _ _ _ received (trans _ _ _ (tabled _ _) (delivered _))
      · exact received
    · exact received

theorem cycle_publish_recorded (call : Call H σ ε) (calls : ∀ fp md t, R t (call fp md t)) (n : Nat)
    (arrival : Arrival) (s : Sys H σ ε) : R s (cyclePublish call n arrival s).2 := by
  simp only [cyclePublish]
  split
  · exact idle s s (idle_refl s)
  · exact trans _ _ _ (accept_publish_recorded R idle trans tabled recorded call calls n _ s)
      (reply_publish_recorded R idle trans recorded n _ _)

theorem cycle_ack_recorded (n packet_type : Nat) (arrival : Arrival) (s : Sys H σ ε) :
    R s (cycleAck n packet_type arrival s).2 := by
  have finished := finish_cycle_recorded R idle trans recorded n packet_type
  simp only [cycleAck]
  generalize mqttDeserializeAck s.client.readbuf arrival.packetid = ack
  have reply : ∀ type, type = (if packet_type = PUBREC then PUBREL else PUBCOMP) →
      type = PUBACK ∨ type = PUBREC ∨ type = PUBREL ∨ type = PUBCOMP := by
    rintro type rfl
    split
    · exact .inr (.inr (.inl rfl))
    · exact .inr (.inr (.inr rfl))
  have replied := send_reply_recorded R idle trans recorded n s.client.bufSize _ ack.packetid s (reply _ rfl)
  generalize sendReply n (mqttSerializeAck s.client.bufSize (if packet_type = PUBREC then PUBREL else PUBCOMP) 0
    ack.packetid) s = outcome at replied ⊢
  by_cases malformed : ack.rc ≠ 1
  · rw [if_pos malformed]
    exact idle s s (idle_refl s)
  rw [if_neg malformed]
  by_cases failed : outcome.1 ≠ SUCCESS
  · rw [if_pos failed]
    exact replied
  rw [if_neg failed]
  by_cases release : packet_type = PUBREL
  · rw [if_pos release]
    exact trans _ _ _ replied (trans _ _ _ (tabled _ _) (finished _))
  · rw [if_neg release]
    exact trans _ _ _ replied (finished _)

theorem cycle_recorded (call : Call H σ ε) (calls : ∀ fp md t, R t (call fp md t)) (s : Sys H σ ε) :
    R s (cycle call s).2 := by
  rcases cycle_branches call s with ⟨t, n, type, quiet, done⟩ | ⟨t, n, arrival, quiet, _, _, branch⟩
  · exact done ▸ trans _ _ _ (idle s t quiet) (finish_cycle_recorded R idle trans recorded n type t)
  · refine trans _ _ _ (idle s t quiet) ?_
    rcases branch with ⟨_, done⟩ | ⟨_, done⟩
    · exact done ▸ cycle_publish_recorded R idle trans tabled recorded call calls n arrival t
    · exact done ▸ cycle_ack_recorded R idle trans tabled recorded n _ arrival t

theorem carried_of_recorded (published : ∀ n packet ok s, packet.head?.map headerType = some PUBLISH →
    s.client.isconnected = true → R s (s.record (.sent n packet ok))) : Carried R where
  idle := idle
  trans := trans
  sent n packet ok s type := by
    rcases type with ⟨publish, connected⟩ | ping
    · exact published n packet ok s publish connected
    · exact recorded s _ ⟨PINGREQ, ping, .inr (.inr (.inr (.inr rfl)))⟩
  stepped call s calls := cycle_recorded R idle trans tabled recorded call calls s

end Recorded

end Aliot
