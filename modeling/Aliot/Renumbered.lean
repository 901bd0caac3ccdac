import Aliot.Operations

set_option autoImplicit false

namespace Aliot

variable {H σ ε α : Type}

-- The same event, but for the packet id in a packet of the program's own.
inductive AlikeEvent : Event ε → Event ε → Prop where
  | same (event : Event ε) : AlikeEvent event event
  | numbered (before after : Bytes) (id other : UInt16) (ok : Bool) :
      AlikeEvent (.sent 0 (before ++ writeInt id.toNat ++ after) ok) (.sent 0 (before ++ writeInt other.toNat ++ after) ok)

namespace Sys

def renumber (s : Sys H σ ε) (nextPacketid : Nat) (log : List (Event ε)) : Sys H σ ε :=
  { s with client := { s.client with nextPacketid := nextPacketid }, log := log }

variable (s : Sys H σ ε) (n : Nat) (log : List (Event ε))

@[simp] theorem renumber_world : (s.renumber n log).world = s.world := rfl

@[simp] theorem renumber_host : (s.renumber n log).host = s.host := rfl

@[simp] theorem renumber_buf_size : (s.renumber n log).client.bufSize = s.client.bufSize := rfl

@[simp] theorem renumber_readbuf : (s.renumber n log).client.readbuf = s.client.readbuf := rfl

@[simp] theorem renumber_keep_alive : (s.renumber n log).client.keepAliveInterval = s.client.keepAliveInterval := rfl

@[simp] theorem renumber_ping : (s.renumber n log).client.pingOutstanding = s.client.pingOutstanding := rfl

@[simp] theorem renumber_handlers : (s.renumber n log).client.messageHandlers = s.client.messageHandlers := rfl

end Sys

-- Two clients that differ in the packet ids that they give.
def Twin (s t : Sys H σ ε) : Prop :=
  ∃ nextPacketid log, t = s.renumber nextPacketid log ∧ List.Forall₂ AlikeEvent s.log log

def InStep (x y : α × Sys H σ ε) : Prop := x.1 = y.1 ∧ Twin x.2 y.2

theorem alike_same (log : List (Event ε)) : List.Forall₂ AlikeEvent log log := by
  induction log with
  | nil => exact .nil
  | cons event log ih => exact .cons (.same event) ih

theorem in_step_outcome (x y : α × Sys H σ ε) (step : InStep x y) :
    ∃ rc s t, x = (rc, s) ∧ y = (rc, t) ∧ Twin s t :=
  ⟨x.1, x.2, y.2, rfl, Prod.ext step.1.symm rfl, step.2⟩

theorem in_step_if (c : Prop) [Decidable c] (x y u v : α × Sys H σ ε) (holds : c → InStep x u) (fails : ¬ c → InStep y v) :
    InStep (if c then x else y) (if c then u else v) := by
  by_cases h : c
  · rw [if_pos h, if_pos h]
    exact holds h
  · rw [if_neg h, if_neg h]
    exact fails h

section Twin

variable (s t : Sys H σ ε) (twin : Twin s t)

include twin

theorem twin_buf_size : t.client.bufSize = s.client.bufSize := by
  obtain ⟨n, log, rfl, _⟩ := twin
  rfl

theorem twin_readbuf : t.client.readbuf = s.client.readbuf := by
  obtain ⟨n, log, rfl, _⟩ := twin
  rfl

theorem twin_connected : t.client.isconnected = s.client.isconnected := by
  obtain ⟨n, log, rfl, _⟩ := twin
  rfl

theorem twin_fallback : t.client.defaultMessageHandler = s.client.defaultMessageHandler := by
  obtain ⟨n, log, rfl, _⟩ := twin
  rfl

theorem twin_table : t.client.incomingQos2Messages = s.client.incomingQos2Messages := by
  obtain ⟨n, log, rfl, _⟩ := twin
  rfl

end Twin

theorem twin_recorded (s t : Sys H σ ε) (event other : Event ε) (alike : AlikeEvent event other) (twin : Twin s t) :
    Twin (s.record event) (t.record other) := by
  obtain ⟨n, log, rfl, logs⟩ := twin
  exact ⟨n, other :: log, rfl, .cons alike logs⟩

theorem send_packet_in_step (cycle : Nat) (packet other : Bytes)
    (alike : ∀ ok, AlikeEvent (.sent cycle packet ok : Event ε) (.sent cycle other ok)) (s t : Sys H σ ε) (twin : Twin s t) :
    InStep (sendPacket cycle packet s) (sendPacket cycle other t) := by
  obtain ⟨n, log, rfl, logs⟩ := twin
  cases outcomes : s.world.sends with
  | nil =>
      simp only [sendPacket, Sys.renumber_world, outcomes]
      exact ⟨rfl, n, _, rfl, .cons (alike false) logs⟩
  | cons ok sends =>
      simp only [sendPacket, Sys.renumber_world, outcomes]
      exact ⟨rfl, n, _, rfl, .cons (alike ok) logs⟩

theorem send_reply_in_step (cycle : Nat) (reply : Int × Bytes) (s t : Sys H σ ε) (twin : Twin s t) :
    InStep (sendReply cycle reply s) (sendReply cycle reply t) := by
  apply in_step_if
  · exact fun _ => ⟨rfl, twin⟩
  · exact fun _ => send_packet_in_step cycle reply.2 reply.2 (fun ok => .same _) s t twin

theorem keepalive_in_step (cycle : Nat) (s t : Sys H σ ε) (twin : Twin s t) :
    InStep (keepalive cycle s) (keepalive cycle t) := by
  obtain ⟨n, log, rfl, logs⟩ := twin
  have popped : Twin { s with world := { s.world with pings := s.world.pings.tail } }
      { s.renumber n log with world := { s.world with pings := s.world.pings.tail } } := ⟨n, log, rfl, logs⟩
  obtain ⟨rc, u, v, own, other, sent⟩ := in_step_outcome _ _ (send_packet_in_step cycle
    (mqttSerializePingreq s.client.bufSize).2 _ (fun ok => .same _) _ _ popped)
  simp only [keepalive, Sys.renumber_world, Sys.renumber_buf_size, Sys.renumber_keep_alive, Sys.renumber_ping, own, other]
  apply in_step_if
  · exact fun _ => ⟨rfl, n, log, rfl, logs⟩
  · intro _
    apply in_step_if
    · intro _
      apply in_step_if
      · intro _
        apply in_step_if
        · intro _
          obtain ⟨m, later, rfl, alike⟩ := sent
          exact ⟨rfl, m, later, rfl, alike⟩
        · exact fun _ => ⟨rfl, sent⟩
      · exact fun _ => ⟨rfl, popped⟩
    · exact fun _ => ⟨rfl, popped⟩

theorem finish_cycle_in_step (cycle type : Nat) (s t : Sys H σ ε) (twin : Twin s t) :
    InStep (finishCycle cycle type s) (finishCycle cycle type t) := ⟨rfl, (keepalive_in_step cycle s t twin).2⟩

theorem reply_publish_in_step (cycle : Nat) (msg : MQTTMessage) (s t : Sys H σ ε) (twin : Twin s t) :
    InStep (replyPublish cycle msg s) (replyPublish cycle msg t) := by
  apply in_step_if
  · exact fun _ => finish_cycle_in_step cycle PUBLISH s t twin
  · intro _
    have room := twin_buf_size _ _ twin
    dsimp only
    rw [room]
    generalize (if msg.qos = QOS1 then mqttSerializeAck s.client.bufSize PUBACK 0 msg.id
      else if msg.qos = QOS2 then mqttSerializeAck s.client.bufSize PUBREC 0 msg.id else (0, [])) = reply
    obtain ⟨rc, u, v, own, other, replied⟩ := in_step_outcome _ _ (send_reply_in_step cycle reply s t twin)
    rw [own, other]
    apply in_step_if
    · exact fun _ => ⟨rfl, replied⟩
    · exact fun _ => finish_cycle_in_step cycle PUBLISH u v replied

theorem cycle_ack_in_step (cycle packet_type : Nat) (arrival : Arrival) (s t : Sys H σ ε) (twin : Twin s t) :
    InStep (cycleAck cycle packet_type arrival s) (cycleAck cycle packet_type arrival t) := by
  obtain ⟨n, log, rfl, logs⟩ := twin
  have acked := send_reply_in_step cycle (mqttSerializeAck s.client.bufSize (if packet_type = PUBREC then PUBREL else PUBCOMP) 0
    (mqttDeserializeAck s.client.readbuf arrival.packetid).packetid) s (s.renumber n log) ⟨n, log, rfl, logs⟩
  obtain ⟨rc, u, v, own, other, replied⟩ := in_step_outcome _ _ acked
  simp only [cycleAck, Sys.renumber_readbuf, Sys.renumber_buf_size, own, other]
  apply in_step_if
  · exact fun _ => ⟨rfl, n, log, rfl, logs⟩
  · intro _
    apply in_step_if
    · exact fun _ => ⟨rfl, replied⟩
    · intro _
      apply finish_cycle_in_step
      obtain ⟨m, later, rfl, alike⟩ := replied
      split
      · exact ⟨m, later, rfl, alike⟩
      · exact ⟨m, later, rfl, alike⟩

theorem start_timer_in_step (s t : Sys H σ ε) (twin : Twin s t) : InStep (startTimer s) (startTimer t) := by
  obtain ⟨n, log, rfl, logs⟩ := twin
  exact ⟨rfl, n, log, rfl, logs⟩

theorem mqtt_disconnect_in_step (s t : Sys H σ ε) (twin : Twin s t) : InStep (mqttDisconnect s) (mqttDisconnect t) := by
  have timed := (start_timer_in_step s t twin).2
  have room := twin_buf_size _ _ twin
  have lowered : ∀ (rc : Int) (u v : Sys H σ ε), Twin u v → InStep (rc, u.withConnected false) (rc, v.withConnected false) := by
    rintro rc u v ⟨n, log, rfl, logs⟩
    exact ⟨rfl, n, log, rfl, logs⟩
  simp only [mqttDisconnect, room]
  generalize mqttSerializeDisconnect s.client.bufSize = packet
  by_cases made : packet.1 > 0
  · simp only [if_pos made]
    obtain ⟨rc, u, v, own, other, sent⟩ := in_step_outcome _ _
      (send_packet_in_step 0 packet.2 packet.2 (fun ok => .same _) _ _ timed)
    rw [own, other]
    exact lowered rc u v sent
  · simp only [if_neg made]
    exact lowered _ _ _ timed

theorem next_packet_id_twin (s t : Sys H σ ε) (twin : Twin s t) : Twin s.withNextPacketId t.withNextPacketId := by
  obtain ⟨n, log, rfl, logs⟩ := twin
  exact ⟨_, log, rfl, logs⟩

-- The command's packets are alike whatever their ids are.
def Renumbers (serialize : Nat → UInt16 → Int × Bytes) : Prop :=
  ∀ buflen id other, (serialize buflen id).1 = (serialize buflen other).1 ∧
    (0 < (serialize buflen id).1 → ∃ before after, (serialize buflen id).2 = before ++ writeInt id.toNat ++ after ∧
      (serialize buflen other).2 = before ++ writeInt other.toNat ++ after)

theorem write_int_length (n : Nat) : (writeInt n).length = 2 := rfl

theorem filter_renumbers (type : Nat) (topicFilter requested : Bytes) :
    Renumbers (fun buflen id => serializeFilter buflen type id topicFilter requested) := by
  intro buflen id other
  simp only [serializeFilter]
  generalize 2 + (2 + topicFilter.length + requested.length) = rem_len
  split
  · exact ⟨rfl, fun made => absurd made (by decide)⟩
  · refine ⟨by simp only [List.length_cons, List.length_append, write_int_length], fun _ => ⟨headerByte type 0 1 0 :: mqttPacketEncode rem_len,
      writeMQTTString topicFilter ++ requested, ?_, ?_⟩⟩
    · simp only [List.cons_append, List.append_assoc]
    · simp only [List.cons_append, List.append_assoc]

theorem send_command_in_step (serialize : Nat → UInt16 → Int × Bytes) (renumbers : Renumbers serialize)
    (s t : Sys H σ ε) (twin : Twin s t) : InStep (sendCommand serialize s) (sendCommand serialize t) := by
  obtain ⟨checks, u, v, own, other, timed⟩ := in_step_outcome _ _ (start_timer_in_step s t twin)
  have connected := twin_connected _ _ timed
  have numbered := next_packet_id_twin u v timed
  have room := twin_buf_size _ _ numbered
  simp only [sendCommand, own, other, connected, room]
  generalize u.withNextPacketId = first at numbered ⊢
  generalize v.withNextPacketId = second at numbered ⊢
  obtain ⟨same, alike⟩ := renumbers first.client.bufSize (UInt16.ofNat first.client.nextPacketid)
    (UInt16.ofNat second.client.nextPacketid)
  apply in_step_if
  · exact fun _ => ⟨rfl, timed⟩
  · intro _
    rw [same]
    apply in_step_if
    · exact fun _ => ⟨rfl, numbered⟩
    · intro made
      obtain ⟨before, after, left, right⟩ := alike (same ▸ Int.not_le.mp made)
      rw [left, right]
      obtain ⟨rc, first', second', own, other, sent⟩ := in_step_outcome _ _
        (send_packet_in_step 0 _ _ (fun ok => .numbered before after _ _ ok) _ _ numbered)
      rw [own, other]
      apply in_step_if
      · exact fun _ => ⟨rfl, sent⟩
      · exact fun _ => ⟨rfl, sent⟩

theorem publish_renumbers (qos retained : Nat) (topicName payload : Bytes) (identified : qos > 0) :
    Renumbers (fun buflen id => mqttSerializePublish buflen 0 qos retained id topicName payload) := by
  intro buflen id other
  simp only [mqttSerializePublish, if_pos identified]
  generalize 2 + topicName.length + payload.length + 2 = rem_len
  split
  · exact ⟨rfl, fun made => absurd made (by decide)⟩
  · refine ⟨by simp only [List.length_cons, List.length_append, write_int_length], fun _ => ⟨headerByte PUBLISH 0 qos retained ::
      (mqttPacketEncode rem_len ++ writeInt topicName.length ++ topicName), payload, ?_, ?_⟩⟩
    · simp only [List.cons_append, List.append_assoc]
    · simp only [List.cons_append, List.append_assoc]

theorem accept_suback_in_step (topicFilter : Bytes) (messageHandler : H) (s t : Sys H σ ε) (twin : Twin s t) :
    InStep (acceptSuback topicFilter messageHandler s) (acceptSuback topicFilter messageHandler t) := by
  obtain ⟨n, log, rfl, logs⟩ := twin
  simp only [acceptSuback, Sys.renumber_readbuf, Sys.renumber_handlers]
  apply in_step_if
  · intro _
    split
    · exact ⟨rfl, n, log, rfl, logs⟩
    · exact ⟨rfl, n, log, rfl, logs⟩
  · exact fun _ => ⟨rfl, n, log, rfl, logs⟩

theorem confirmed_qos (qos : Nat) (confirmed : (qos = QOS1 || qos = QOS2) = true) : qos > 0 := by
  rcases Bool.or_eq_true_iff.mp confirmed with one | two
  · rw [of_decide_eq_true one]
    exact Nat.one_pos
  · rw [of_decide_eq_true two]
    exact Nat.two_pos

theorem publish_alike (qos retained : Nat) (topicName payload : Bytes) (buflen : Nat) (id other : UInt16)
    (same : qos > 0 ∨ id = other) :
    (mqttSerializePublish buflen 0 qos retained id topicName payload).1 =
        (mqttSerializePublish buflen 0 qos retained other topicName payload).1 ∧
      (0 < (mqttSerializePublish buflen 0 qos retained id topicName payload).1 → ∀ ok,
        AlikeEvent (.sent 0 (mqttSerializePublish buflen 0 qos retained id topicName payload).2 ok : Event ε)
          (.sent 0 (mqttSerializePublish buflen 0 qos retained other topicName payload).2 ok)) := by
  rcases same with identified | rfl
  · obtain ⟨lengths, packets⟩ := publish_renumbers qos retained topicName payload identified buflen id other
    refine ⟨lengths, fun made ok => ?_⟩
    obtain ⟨before, after, left, right⟩ := packets made
    rw [left, right]
    exact .numbered before after id other ok
  · exact ⟨rfl, fun _ ok => .same _⟩

theorem connect_attempt_connected (call : Call H σ ε) (options : Option MQTTPacketConnectData) (s t : Sys H σ ε) (twin : Twin s t)
    (online : s.client.isconnected = true) : InStep (connectAttempt call options s) (connectAttempt call options t) := by
  have other : t.client.isconnected = true := (twin_connected _ _ twin).trans online
  have still : ∀ u : Sys H σ ε, (startTimer u).2.client.isconnected = u.client.isconnected := fun _ => rfl
  simp only [connectAttempt, still, online, other, if_true]
  exact ⟨rfl, (start_timer_in_step s t twin).2⟩

theorem mqtt_connect_from_attempt (call : Call H σ ε) (options : Option MQTTPacketConnectData) (s t : Sys H σ ε)
    (attempt : InStep (connectAttempt call options s) (connectAttempt call options t)) :
    InStep (mqttConnect call options s) (mqttConnect call options t) := by
  obtain ⟨rc, u, v, own, other, attempted⟩ := in_step_outcome _ _ attempt
  simp only [mqttConnect, own, other]
  apply in_step_if
  · intro _
    obtain ⟨n, log, rfl, logs⟩ := attempted
    exact ⟨rfl, n, log, rfl, logs⟩
  · exact fun _ => ⟨rfl, attempted⟩

section Calls

variable (call : Call H σ ε) (calls : ∀ fp md s t, Twin s t → Twin (call fp md s) (call fp md t))

include calls

theorem deliver_loop_in_step (md : MessageData) (entries : List Nat) (rc : Int) (s t : Sys H σ ε) (twin : Twin s t) :
    InStep (deliverLoop call md entries rc s) (deliverLoop call md entries rc t) := by
  induction entries generalizing rc s t with
  | nil => exact ⟨rfl, twin⟩
  | cons i entries ih =>
      have passed := ih rc s t twin
      have called := fun fp => ih SUCCESS _ _ (calls fp md s t twin)
      obtain ⟨n, log, rfl, logs⟩ := twin
      simp only [deliverLoop, topicBytes, Sys.renumber_handlers, Sys.renumber_readbuf]
      split
      · apply in_step_if
        · exact fun _ => called _
        · exact fun _ => passed
      · exact passed

theorem deliver_message_in_step (cycle : Nat) (md : MessageData) (s t : Sys H σ ε) (twin : Twin s t) :
    InStep (deliverMessage call cycle md s) (deliverMessage call cycle md t) := by
  obtain ⟨rc, u, v, own, other, delivered⟩ := in_step_outcome _ _ (deliver_loop_in_step call calls md
    (List.range MAX_MESSAGE_HANDLERS) FAILURE _ _ (twin_recorded s t (.delivered cycle md.message) _ (.same _) twin))
  have fallback := twin_fallback _ _ delivered
  simp only [deliverMessage, own, other, fallback]
  apply in_step_if
  · intro _
    split
    · exact ⟨rfl, calls _ md u v delivered⟩
    · exact ⟨rfl, delivered⟩
  · exact fun _ => ⟨rfl, delivered⟩

theorem accept_publish_twin (cycle : Nat) (md : MessageData) (s t : Sys H σ ε) (twin : Twin s t) :
    Twin (acceptPublish call cycle md s) (acceptPublish call cycle md t) := by
  have delivered := fun (u v : Sys H σ ε) (same : Twin u v) => (deliver_message_in_step call calls cycle md u v same).2
  have table := twin_table _ _ twin
  have received := twin_recorded s t (.received md.message.id s.client.incomingQos2Messages) _ (.same _) twin
  simp only [acceptPublish, table]
  split
  · exact delivered s t twin
  split
  · split
    · apply delivered
      obtain ⟨n, log, same, logs⟩ := received
      rw [same]
      exact ⟨n, log, rfl, logs⟩
    · exact received
  · exact received

theorem cycle_publish_in_step (cycle : Nat) (arrival : Arrival) (s t : Sys H σ ε) (twin : Twin s t) :
    InStep (cyclePublish call cycle arrival s) (cyclePublish call cycle arrival t) := by
  have readbuf := twin_readbuf _ _ twin
  simp only [cyclePublish, readbuf]
  apply in_step_if
  · exact fun _ => ⟨rfl, twin⟩
  · intro _
    apply reply_publish_in_step
    exact accept_publish_twin call calls cycle _ s t twin

theorem cycle_in_step (s t : Sys H σ ε) (twin : Twin s t) : InStep (cycle call s) (cycle call t) := by
  obtain ⟨n, log, rfl, logs⟩ := twin
  cases coming : s.world.arrivals with
  | nil =>
      have unread : s.startCycle.world.arrivals = [] := coming
      have other : (s.renumber n log).startCycle.world.arrivals = [] := coming
      simp only [cycle, unread, other]
      exact finish_cycle_in_step _ _ _ _ ⟨n, log, rfl, logs⟩
  | cons arrival arrivals =>
      have unread : s.startCycle.world.arrivals = arrival :: arrivals := coming
      have other : (s.renumber n log).startCycle.world.arrivals = arrival :: arrivals := coming
      have arrived : Twin (s.startCycle.arrive arrival arrivals) ((s.renumber n log).startCycle.arrive arrival arrivals) :=
        ⟨n, log, rfl, logs⟩
      simp only [cycle, unread, other]
      apply in_step_if
      · exact fun _ => cycle_publish_in_step call calls _ arrival _ _ arrived
      · intro _
        apply in_step_if
        · exact fun _ => cycle_ack_in_step _ _ arrival _ _ arrived
        · intro _
          apply in_step_if
          · exact fun _ => finish_cycle_in_step _ _ _ _ ⟨n, log, rfl, logs⟩
          · exact fun _ => finish_cycle_in_step _ _ _ _ arrived

theorem yield_loop_in_step (checks : Nat) (s t : Sys H σ ε) (twin : Twin s t) :
    InStep (yieldLoop call checks s) (yieldLoop call checks t) := by
  induction checks generalizing s t with
  | zero => exact ⟨rfl, twin⟩
  | succ checks ih =>
      obtain ⟨rc, u, v, own, other, stepped⟩ := in_step_outcome _ _ (cycle_in_step call calls s t twin)
      simp only [yieldLoop, own, other]
      apply in_step_if
      · exact fun _ => ⟨rfl, stepped⟩
      · exact fun _ => ih u v stepped

theorem waitfor_in_step (packet_type checks : Nat) (rc : Int) (s t : Sys H σ ε) (twin : Twin s t) :
    InStep (waitfor call packet_type checks rc s) (waitfor call packet_type checks rc t) := by
  induction checks generalizing rc s t with
  | zero => exact ⟨rfl, twin⟩
  | succ checks ih =>
      obtain ⟨rc, u, v, own, other, stepped⟩ := in_step_outcome _ _ (cycle_in_step call calls s t twin)
      simp only [waitfor, own, other]
      apply in_step_if
      · exact fun _ => ⟨rfl, stepped⟩
      · exact fun _ => ih rc u v stepped

theorem await_ack_in_step (packet_type checks : Nat) (s t : Sys H σ ε) (twin : Twin s t) :
    InStep (awaitAck call packet_type checks s) (awaitAck call packet_type checks t) := by
  obtain ⟨rc, u, v, own, other, waited⟩ := in_step_outcome _ _
    (waitfor_in_step call calls packet_type checks FAILURE s t twin)
  have readbuf := twin_readbuf _ _ waited
  simp only [awaitAck, own, other, readbuf]
  apply in_step_if
  · intro _
    apply in_step_if
    · exact fun _ => ⟨rfl, waited⟩
    · exact fun _ => ⟨rfl, waited⟩
  · exact fun _ => ⟨rfl, waited⟩

theorem mqtt_publish_in_step (topicName : Bytes) (message : Outgoing) (s t : Sys H σ ε) (twin : Twin s t) :
    InStep (mqttPublish call topicName message s) (mqttPublish call topicName message t) := by
  obtain ⟨checks, u, v, own, other, timed⟩ := in_step_outcome _ _ (start_timer_in_step s t twin)
  have connected := twin_connected _ _ timed
  simp only [mqttPublish, own, other, connected]
  apply in_step_if
  · exact fun _ => ⟨rfl, timed⟩
  · intro _
    have numbered : ∀ choice : Bool, Twin (if choice then { u with client := getNextPacketId u.client } else u)
        (if choice then { v with client := getNextPacketId v.client } else v) := by
      rintro (_ | _)
      · exact timed
      · exact next_packet_id_twin u v timed
    have identified := confirmed_qos message.qos
    generalize (message.qos = QOS1 || message.qos = QOS2) = choice at numbered identified ⊢
    replace numbered := numbered choice
    generalize (if choice then { u with client := getNextPacketId u.client } else u) = first at numbered ⊢
    generalize (if choice then { v with client := getNextPacketId v.client } else v) = second at numbered ⊢
    have alike := publish_alike (ε := ε) message.qos message.retained topicName message.payload first.client.bufSize
      (if choice then UInt16.ofNat first.client.nextPacketid else message.id)
      (if choice then UInt16.ofNat second.client.nextPacketid else message.id) (by
        cases choice with
        | false => exact .inr rfl
        | true => exact .inl (identified rfl))
    rw [twin_buf_size _ _ numbered, ← alike.1]
    apply in_step_if
    · exact fun _ => ⟨rfl, numbered⟩
    · intro made
      obtain ⟨rc, w, x, own, other, sent⟩ := in_step_outcome _ _
        (send_packet_in_step 0 _ _ (alike.2 (Int.not_le.mp made)) _ _ numbered)
      rw [own, other]
      apply in_step_if
      · exact fun _ => ⟨rfl, sent⟩
      · intro _
        apply in_step_if
        · exact fun _ => await_ack_in_step call calls PUBACK checks w x sent
        · intro _
          apply in_step_if
          · exact fun _ => await_ack_in_step call calls PUBCOMP checks w x sent
          · exact fun _ => ⟨rfl, sent⟩

theorem mqtt_subscribe_in_step (topicFilter : Bytes) (qos : Nat) (messageHandler : H) (s t : Sys H σ ε) (twin : Twin s t) :
    InStep (mqttSubscribe call topicFilter qos messageHandler s) (mqttSubscribe call topicFilter qos messageHandler t) := by
  obtain ⟨answer, u, v, own, other, sent⟩ := in_step_outcome _ _ (send_command_in_step
    (fun buflen id => mqttSerializeSubscribe buflen id topicFilter qos) (filter_renumbers SUBSCRIBE topicFilter _) s t twin)
  simp only [mqttSubscribe, own, other]
  cases answer with
  | none => exact ⟨rfl, sent⟩
  | some checks =>
      obtain ⟨rc, w, x, own, other, waited⟩ := in_step_outcome _ _
        (waitfor_in_step call calls SUBACK checks FAILURE u v sent)
      simp only [own, other]
      apply in_step_if
      · exact fun _ => accept_suback_in_step topicFilter messageHandler w x waited
      · exact fun _ => ⟨rfl, waited⟩

theorem mqtt_unsubscribe_in_step (topicFilter : Bytes) (s t : Sys H σ ε) (twin : Twin s t) :
    InStep (mqttUnsubscribe call topicFilter s) (mqttUnsubscribe call topicFilter t) := by
  obtain ⟨answer, u, v, own, other, sent⟩ := in_step_outcome _ _ (send_command_in_step
    (fun buflen id => mqttSerializeUnsubscribe buflen id topicFilter) (filter_renumbers UNSUBSCRIBE topicFilter _) s t twin)
  simp only [mqttUnsubscribe, own, other]
  cases answer with
  | none => exact ⟨rfl, sent⟩
  | some checks =>
      obtain ⟨rc, w, x, own, other, waited⟩ := in_step_outcome _ _
        (waitfor_in_step call calls UNSUBACK checks FAILURE u v sent)
      simp only [own, other, twin_readbuf _ _ waited]
      apply in_step_if
      · intro _
        apply in_step_if
        · exact fun _ => ⟨rfl, waited⟩
        · exact fun _ => ⟨rfl, waited⟩
      · exact fun _ => ⟨rfl, waited⟩

-- The two clients may also differ in the keep-alive interval that MQTTConnect sets.
theorem connect_attempt_in_step (options : Option MQTTPacketConnectData) (s t : Sys H σ ε) (n : Nat)
    (twin : Twin (s.withKeepAlive n) (t.withKeepAlive n)) (offline : s.client.isconnected = false) :
    InStep (connectAttempt call options s) (connectAttempt call options t) := by
  have away : t.client.isconnected = false := (twin_connected _ _ twin).trans offline
  have ready : ∀ interval, Twin ((startTimer s).2.withKeepAlive interval) ((startTimer t).2.withKeepAlive interval) := by
    intro interval
    obtain ⟨m, log, same, logs⟩ := (start_timer_in_step _ _ twin).2
    refine ⟨m, log, ?_, logs⟩
    exact congrArg (fun x => Sys.withKeepAlive x interval) same
  have timer : (startTimer s).1 = (startTimer t).1 := (start_timer_in_step _ _ twin).1
  have still : ∀ u : Sys H σ ε, (startTimer u).2.client.isconnected = u.client.isconnected := fun _ => rfl
  simp only [connectAttempt, still, offline, away, Bool.false_eq_true, if_false, ← timer]
  generalize (startTimer s).2 = u at ready ⊢
  generalize (startTimer t).2 = v at ready ⊢
  generalize options.getD connectDataInitializer = data
  replace ready := ready data.keepAliveInterval.toNat
  rw [twin_buf_size _ _ ready]
  apply in_step_if
  · exact fun _ => ⟨rfl, ready⟩
  · intro _
    obtain ⟨rc, w, x, own, other, sent⟩ := in_step_outcome _ _
      (send_packet_in_step 0 _ _ (fun ok => .same _) _ _ ready)
    rw [own, other]
    apply in_step_if
    · exact fun _ => ⟨rfl, sent⟩
    · intro _
      obtain ⟨rc, y, z, own, other, waited⟩ := in_step_outcome _ _
        (waitfor_in_step call calls CONNACK (startTimer s).1 FAILURE w x sent)
      simp only [own, other, twin_readbuf _ _ waited]
      apply in_step_if
      · intro _
        apply in_step_if
        · exact fun _ => ⟨rfl, waited⟩
        · exact fun _ => ⟨rfl, waited⟩
      · exact fun _ => ⟨rfl, waited⟩

theorem mqtt_connect_in_step (options : Option MQTTPacketConnectData) (s t : Sys H σ ε) (twin : Twin s t) :
    InStep (mqttConnect call options s) (mqttConnect call options t) := by
  apply mqtt_connect_from_attempt
  cases connection : s.client.isconnected with
  | true => exact connect_attempt_connected call options s t twin connection
  | false =>
      obtain ⟨n, log, rfl, logs⟩ := twin
      exact connect_attempt_in_step call calls options s (s.renumber n log) 0 ⟨n, log, rfl, logs⟩ connection

theorem run_operation_in_step (operation : Operation H) (s t : Sys H σ ε) (twin : Twin s t) :
    InStep (runOperation call operation s) (runOperation call operation t) := by
  cases operation with
  | cycle => exact cycle_in_step call calls s t twin
  | yield =>
      obtain ⟨checks, u, v, own, other, timed⟩ := in_step_outcome _ _ (start_timer_in_step s t twin)
      simp only [runOperation, mqttYield, own, other]
      exact yield_loop_in_step call calls checks u v timed
  | connect options => exact mqtt_connect_in_step call calls options s t twin
  | subscribe topicFilter qos messageHandler => exact mqtt_subscribe_in_step call calls topicFilter qos messageHandler s t twin
  | unsubscribe topicFilter => exact mqtt_unsubscribe_in_step call calls topicFilter s t twin
  | publish topicName message => exact mqtt_publish_in_step call calls topicName message s t twin
  | disconnect => exact mqtt_disconnect_in_step s t twin

theorem run_operations_twin (operations : List (Operation H)) (s t : Sys H σ ε) (twin : Twin s t) :
    Twin (runOperations call operations s) (runOperations call operations t) := by
  induction operations generalizing s t with
  | nil => exact twin
  | cons operation operations ih =>
      apply ih
      exact (run_operation_in_step call calls operation s t twin).2

end Calls

theorem operated_call_twin (depth : Nat) (fp : H) (md : MessageData) (s t : Sys H (List (List (Operation H))) ε)
    (twin : Twin s t) : Twin (operatedCall depth fp md s) (operatedCall depth fp md t) := by
  induction depth generalizing fp md s t with
  | zero => exact twin
  | succ depth ih =>
      obtain ⟨n, log, rfl, logs⟩ := twin
      simp only [operatedCall, Sys.renumber_host]
      apply run_operations_twin _ ih
      exact ⟨n, log, rfl, logs⟩

end Aliot
