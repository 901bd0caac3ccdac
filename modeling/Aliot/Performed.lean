import Aliot.Operations

set_option autoImplicit false

namespace Aliot

variable {H σ ε : Type}

-- A step that keeps what the client knows of its peer: its tables of ids, its ping, its log and what is unread.
structure Steady (s t : Sys H σ ε) : Prop where
  arrivals : t.world.arrivals = s.world.arrivals
  table : t.client.incomingQos2Messages = s.client.incomingQos2Messages
  ping : t.client.pingOutstanding = s.client.pingOutstanding
  bufSize : t.client.bufSize = s.client.bufSize
  fallback : t.client.defaultMessageHandler = s.client.defaultMessageHandler
  log : t.log = s.log

def pingreq : Bytes := headerByte PINGREQ 0 0 0 :: mqttPacketEncode 0

namespace Sys

def withPing (s : Sys H σ ε) (pingOutstanding : Bool) : Sys H σ ε :=
  { s with client := { s.client with pingOutstanding := pingOutstanding } }

end Sys

def isReceived : Event ε → Bool
  | .received _ _ => true
  | _ => false

-- Kept by every single thing that the client does, the handlers apart.
structure Performed (R : Sys H σ ε → Sys H σ ε → Prop) : Prop where
  trans : ∀ s t u, R s t → R t u → R s u
  steady : ∀ s t, Steady s t → R s t
  recorded : ∀ s event, isReceived event = false → R s (s.record event)
  arrived : ∀ s arrival arrivals, s.world.arrivals = arrival :: arrivals → packetType arrival.rc ≠ PINGRESP →
    R s (s.arrive arrival arrivals)
  answered : ∀ s arrival arrivals, s.world.arrivals = arrival :: arrivals → packetType arrival.rc = PINGRESP →
    R s ((s.arrive arrival arrivals).withPing false)
  pinged : ∀ n s, R s ((s.record (.sent n pingreq true)).withPing true)
  refused : ∀ s id, id ∈ s.client.incomingQos2Messages ∨ 0 ∉ s.client.incomingQos2Messages →
    R s (s.record (.received id s.client.incomingQos2Messages))
  opened : ∀ n s message used, message.qos = QOS2 → message.id ∉ s.client.incomingQos2Messages →
    useQoS2msgid s.client.incomingQos2Messages message.id = some used →
    R s (((s.record (.received message.id s.client.incomingQos2Messages)).withTable used).record (.delivered n message))
  freed : ∀ s id, R s (s.withTable (freeQoS2msgid s.client.incomingQos2Messages id))

theorem pingreq_made (bufSize : Nat) (made : (mqttSerializePingreq bufSize).1 > 0) : (mqttSerializePingreq bufSize).2 = pingreq := by
  by_cases short : bufSize < 2
  · simp [mqttSerializePingreq, short, MQTTPACKET_BUFFER_TOO_SHORT] at made
  · rw [mqttSerializePingreq, if_neg short]
    rfl

section Performed

variable (R : Sys H σ ε → Sys H σ ε → Prop) (performed : Performed R)

include performed

theorem performed_refl (s : Sys H σ ε) : R s s := performed.steady s s ⟨rfl, rfl, rfl, rfl, rfl, rfl⟩

theorem send_packet_performed (n : Nat) (packet : Bytes) (s : Sys H σ ε) : R s (sendPacket n packet s).2 := by
  cases outcomes : s.world.sends with
  | nil =>
      simp only [sendPacket, outcomes]
      exact performed.recorded s _ rfl
  | cons ok sends =>
      simp only [sendPacket, outcomes]
      exact performed.trans _ _ _ (performed.steady s { s with world := { s.world with sends := sends } }
        ⟨rfl, rfl, rfl, rfl, rfl, rfl⟩) (performed.recorded _ _ rfl)

theorem send_reply_performed (n : Nat) (reply : Int × Bytes) (s : Sys H σ ε) : R s (sendReply n reply s).2 := by
  unfold sendReply
  split
  · exact performed_refl R performed s
  · exact send_packet_performed R performed n reply.2 s

theorem send_ping_performed (n : Nat) (s : Sys H σ ε) :
    R s (if (sendPacket n pingreq s).1 = SUCCESS then ((sendPacket n pingreq s).1, (sendPacket n pingreq s).2.withPing true)
      else ((sendPacket n pingreq s).1, (sendPacket n pingreq s).2)).2 := by
  cases outcomes : s.world.sends with
  | nil =>
      simp only [sendPacket, outcomes]
      exact performed.recorded s _ rfl
  | cons ok sends =>
      have taken := performed.steady s { s with world := { s.world with sends := sends } } ⟨rfl, rfl, rfl, rfl, rfl, rfl⟩
      simp only [sendPacket, outcomes]
      cases ok with
      | true => exact performed.trans _ _ _ taken (performed.pinged n _)
      | false => exact performed.trans _ _ _ taken (performed.recorded _ _ rfl)

theorem keepalive_performed (n : Nat) (s : Sys H σ ε) : R s (keepalive n s).2 := by
  unfold keepalive
  split
  · exact performed_refl R performed s
  have popped := performed.steady s { s with world := { s.world with pings := s.world.pings.tail } }
    ⟨rfl, rfl, rfl, rfl, rfl, rfl⟩
  dsimp only
  split
  swap
  · exact popped
  split
  swap
  · exact popped
  rename_i _ made
  rw [pingreq_made s.client.bufSize made]
  exact performed.trans _ _ _ popped (send_ping_performed R performed n _)

theorem finish_cycle_performed (n type : Nat) (s : Sys H σ ε) : R s (finishCycle n type s).2 :=
  keepalive_performed R performed n s

theorem reply_publish_performed (n : Nat) (msg : MQTTMessage) (s : Sys H σ ε) : R s (replyPublish n msg s).2 := by
  unfold replyPublish
  split
  · exact finish_cycle_performed R performed n PUBLISH s
  · dsimp only
    generalize (if msg.qos = QOS1 then mqttSerializeAck s.client.bufSize PUBACK 0 msg.id
      else if msg.qos = QOS2 then mqttSerializeAck s.client.bufSize PUBREC 0 msg.id else (0, [])) = reply
    have replied := send_reply_performed R performed n reply s
    split
    · exact replied
    · exact performed.trans _ _ _ replied (finish_cycle_performed R performed n PUBLISH _)

theorem cycle_ack_performed (n packet_type : Nat) (arrival : Arrival) (s : Sys H σ ε) :
    R s (cycleAck n packet_type arrival s).2 := by
  unfold cycleAck
  dsimp only
  split
  · exact performed_refl R performed s
  generalize mqttSerializeAck s.client.bufSize (if packet_type = PUBREC then PUBREL else PUBCOMP) 0
    (mqttDeserializeAck s.client.readbuf arrival.packetid).packetid = reply
  have replied := send_reply_performed R performed n reply s
  split
  · exact replied
  · generalize (mqttDeserializeAck s.client.readbuf arrival.packetid).packetid = id
    apply performed.trans _ _ _ replied
    generalize (sendReply n reply s).2 = t
    split
    · exact performed.trans _ _ _ (performed.freed _ _) (finish_cycle_performed R performed n packet_type _)
    · exact finish_cycle_performed R performed n packet_type _

theorem start_timer_performed (s : Sys H σ ε) : R s (startTimer s).2 := performed.steady s _ ⟨rfl, rfl, rfl, rfl, rfl, rfl⟩

theorem mqtt_disconnect_performed (s : Sys H σ ε) : R s (mqttDisconnect s).2 := by
  have timed := start_timer_performed R performed s
  have lowered : ∀ t : Sys H σ ε, R t (t.withConnected false) := fun t => performed.steady _ _ ⟨rfl, rfl, rfl, rfl, rfl, rfl⟩
  unfold mqttDisconnect
  dsimp only
  split
  · exact performed.trans _ _ _ (performed.trans _ _ _ timed (send_packet_performed R performed 0 _ _)) (lowered _)
  · exact performed.trans _ _ _ timed (lowered _)

theorem send_command_performed (serialize : Nat → UInt16 → Int × Bytes) (s : Sys H σ ε) : R s (sendCommand serialize s).2 := by
  have timed := start_timer_performed R performed s
  unfold sendCommand
  dsimp only
  split
  · exact timed
  have numbered := performed.trans _ _ _ timed
    (performed.steady _ (startTimer s).2.withNextPacketId ⟨rfl, rfl, rfl, rfl, rfl, rfl⟩)
  split
  · exact numbered
  have sent := fun packet => performed.trans _ _ _ numbered (send_packet_performed R performed 0 packet _)
  split
  · exact sent _
  · exact sent _

variable (call : Call H σ ε) (calls : ∀ fp md t, R t (call fp md t))

include calls

theorem deliver_message_performed (n : Nat) (md : MessageData) (s : Sys H σ ε) :
    R (s.record (.delivered n md.message)) (deliverMessage call n md s).2 :=
  deliver_message_carried R (performed_refl R performed) performed.trans call calls n md s

theorem accept_publish_performed (n : Nat) (md : MessageData) (s : Sys H σ ε) : R s (acceptPublish call n md s) := by
  have delivered := deliver_message_performed R performed call calls n md
  unfold acceptPublish
  dsimp only
  split
  · exact performed.trans _ _ _ (performed.recorded s _ rfl) (delivered s)
  rename_i exactlyOnce
  by_cases held : md.message.id ∈ s.client.incomingQos2Messages
  · have busy : isQoS2msgidFree s.client.incomingQos2Messages md.message.id = false := by simp [isQoS2msgidFree, held]
    simp only [busy, Bool.false_eq_true, if_false]
    exact performed.refused s md.message.id (.inl held)
  have free : isQoS2msgidFree s.client.incomingQos2Messages md.message.id = true := by simp [isQoS2msgidFree, held]
  simp only [free, if_true]
  cases taken : useQoS2msgid s.client.incomingQos2Messages md.message.id with
  | some used => exact performed.trans _ _ _ (performed.opened n s md.message used (not_not.mp exactlyOnce) held taken) (delivered _)
  | none =>
      apply performed.refused s md.message.id
      right
      intro zero
      simp [useQoS2msgid, zero] at taken

theorem cycle_publish_performed (n : Nat) (arrival : Arrival) (s : Sys H σ ε) : R s (cyclePublish call n arrival s).2 := by
  unfold cyclePublish
  dsimp only
  split
  · exact performed_refl R performed s
  · exact performed.trans _ _ _ (accept_publish_performed R performed call calls n _ s) (reply_publish_performed R performed n _ _)

theorem cycle_performed (s : Sys H σ ε) : R s (cycle call s).2 := by
  have started := performed.steady s s.startCycle ⟨rfl, rfl, rfl, rfl, rfl, rfl⟩
  cases coming : s.world.arrivals with
  | nil =>
      have unread : s.startCycle.world.arrivals = [] := coming
      simp only [cycle, unread]
      exact performed.trans _ _ _ started (finish_cycle_performed R performed _ _ _)
  | cons arrival arrivals =>
      have unread : s.startCycle.world.arrivals = arrival :: arrivals := coming
      simp only [cycle, unread]
      have arrived := fun other => performed.trans _ _ _ started (performed.arrived s.startCycle arrival arrivals unread other)
      split
      · rename_i publish
        have other : packetType arrival.rc ≠ PINGRESP := by rw [publish]; decide
        exact performed.trans _ _ _ (arrived other) (cycle_publish_performed R performed call calls _ _ _)
      split
      · rename_i ack
        have other : packetType arrival.rc ≠ PINGRESP := by rcases ack with same | same <;> rw [same] <;> decide
        exact performed.trans _ _ _ (arrived other) (cycle_ack_performed R performed _ _ _ _)
      split
      · rename_i answer
        exact performed.trans _ _ _ (performed.trans _ _ _ started (performed.answered s.startCycle arrival arrivals unread answer))
          (finish_cycle_performed R performed _ _ _)
      · rename_i other
        exact performed.trans _ _ _ (arrived other) (finish_cycle_performed R performed _ _ _)

theorem yield_loop_performed (checks : Nat) (s : Sys H σ ε) : R s (yieldLoop call checks s).2 := by
  induction checks generalizing s with
  | zero => exact performed_refl R performed s
  | succ checks ih =>
      have step := cycle_performed R performed call calls s
      unfold yieldLoop
      dsimp only
      split
      · exact step
      · exact performed.trans _ _ _ step (ih _)

theorem waitfor_performed (packet_type checks : Nat) (rc : Int) (s : Sys H σ ε) :
    R s (waitfor call packet_type checks rc s).2 := by
  induction checks generalizing rc s with
  | zero => exact performed_refl R performed s
  | succ checks ih =>
      have step := cycle_performed R performed call calls s
      unfold waitfor
      dsimp only
      split
      · exact step
      · exact performed.trans _ _ _ step (ih _ _)

theorem await_ack_performed (packet_type checks : Nat) (s : Sys H σ ε) : R s (awaitAck call packet_type checks s).2 := by
  rw [await_ack_state]
  exact waitfor_performed R performed call calls packet_type checks FAILURE s

theorem mqtt_publish_performed (topicName : Bytes) (message : Outgoing) (s : Sys H σ ε) :
    R s (mqttPublish call topicName message s).2 := by
  have timed := start_timer_performed R performed s
  simp only [mqttPublish]
  generalize startTimer s = started at timed ⊢
  obtain ⟨checks, t⟩ := started
  simp only at timed ⊢
  split
  · exact timed
  generalize (message.qos = QOS1 || message.qos = QOS2) = numbered
  have ready : R s (if numbered then { t with client := getNextPacketId t.client } else t) := by
    cases numbered with
    | false => exact timed
    | true => exact performed.trans _ _ _ timed (performed.steady _ _ ⟨rfl, rfl, rfl, rfl, rfl, rfl⟩)
  generalize (if numbered then { t with client := getNextPacketId t.client } else t) = u at ready ⊢
  generalize (if numbered = true then UInt16.ofNat u.client.nextPacketid else message.id) = id
  generalize mqttSerializePublish u.client.bufSize 0 message.qos message.retained id topicName message.payload = packet
  have sent := performed.trans _ _ _ ready (send_packet_performed R performed 0 packet.2 u)
  split
  · exact ready
  split
  · exact sent
  split
  · exact performed.trans _ _ _ sent (await_ack_performed R performed call calls PUBACK _ _)
  split
  · exact performed.trans _ _ _ sent (await_ack_performed R performed call calls PUBCOMP _ _)
  · exact sent

theorem mqtt_subscribe_performed (topicFilter : Bytes) (qos : Nat) (messageHandler : H) (s : Sys H σ ε) :
    R s (mqttSubscribe call topicFilter qos messageHandler s).2 := by
  have sent := send_command_performed R performed
    (fun buflen id => mqttSerializeSubscribe buflen id topicFilter qos) s
  unfold mqttSubscribe
  generalize sendCommand _ s = outcome at sent ⊢
  obtain ⟨answer, t⟩ := outcome
  cases answer with
  | none => exact sent
  | some checks =>
      have waited := performed.trans _ _ _ sent (waitfor_performed R performed call calls SUBACK checks FAILURE t)
      dsimp only
      split
      · apply performed.trans _ _ _ waited
        rcases accept_suback_outcome topicFilter messageHandler (waitfor call SUBACK checks FAILURE t).2 with
          ⟨table, _, done⟩ | ⟨rc, _, done⟩
        · rw [done]
          exact performed.steady _ _ ⟨rfl, rfl, rfl, rfl, rfl, rfl⟩
        · rw [done]
          exact performed_refl R performed _
      · exact waited

theorem mqtt_unsubscribe_performed (topicFilter : Bytes) (s : Sys H σ ε) : R s (mqttUnsubscribe call topicFilter s).2 := by
  have sent := send_command_performed R performed (fun buflen id => mqttSerializeUnsubscribe buflen id topicFilter) s
  unfold mqttUnsubscribe
  generalize sendCommand _ s = outcome at sent ⊢
  obtain ⟨answer, t⟩ := outcome
  cases answer with
  | none => exact sent
  | some checks =>
      have waited := performed.trans _ _ _ sent (waitfor_performed R performed call calls UNSUBACK checks FAILURE t)
      dsimp only
      split
      · split <;> exact waited
      · exact waited

theorem connect_attempt_performed (options : Option MQTTPacketConnectData) (s : Sys H σ ε) :
    R s (connectAttempt call options s).2 := by
  have timed := start_timer_performed R performed s
  simp only [connectAttempt]
  generalize startTimer s = started at timed ⊢
  obtain ⟨checks, t⟩ := started
  simp only at timed ⊢
  split
  · exact timed
  have ready := performed.trans _ _ _ timed (performed.steady t
    (t.withKeepAlive (options.getD connectDataInitializer).keepAliveInterval.toNat) ⟨rfl, rfl, rfl, rfl, rfl, rfl⟩)
  generalize t.withKeepAlive (options.getD connectDataInitializer).keepAliveInterval.toNat = u at ready ⊢
  generalize mqttSerializeConnect u.client.bufSize (options.getD connectDataInitializer) = packet
  have sent := performed.trans _ _ _ ready (send_packet_performed R performed 0 packet.2 u)
  split
  · exact ready
  split
  · exact sent
  have waited := performed.trans _ _ _ sent (waitfor_performed R performed call calls CONNACK checks FAILURE _)
  split
  · split <;> exact waited
  · exact waited

theorem mqtt_connect_performed (options : Option MQTTPacketConnectData) (s : Sys H σ ε) : R s (mqttConnect call options s).2 := by
  have attempted := connect_attempt_performed R performed call calls options s
  unfold mqttConnect
  dsimp only
  split
  · exact performed.trans _ _ _ attempted (performed.steady _ _ ⟨rfl, rfl, rfl, rfl, rfl, rfl⟩)
  · exact attempted

theorem run_operation_performed (operation : Operation H) (s : Sys H σ ε) : R s (runOperation call operation s).2 := by
  cases operation with
  | cycle => exact cycle_performed R performed call calls s
  | yield =>
      exact performed.trans _ _ _ (start_timer_performed R performed s)
        (yield_loop_performed R performed call calls _ _)
  | connect options => exact mqtt_connect_performed R performed call calls options s
  | subscribe topicFilter qos messageHandler => exact mqtt_subscribe_performed R performed call calls topicFilter qos messageHandler s
  | unsubscribe topicFilter => exact mqtt_unsubscribe_performed R performed call calls topicFilter s
  | publish topicName message => exact mqtt_publish_performed R performed call calls topicName message s
  | disconnect => exact mqtt_disconnect_performed R performed s

theorem run_operations_performed (operations : List (Operation H)) (s : Sys H σ ε) :
    R s (runOperations call operations s) := by
  induction operations generalizing s with
  | nil => exact performed_refl R performed s
  | cons operation operations ih =>
      exact performed.trans _ _ _ (run_operation_performed R performed call calls operation s) (ih _)

end Performed

theorem operated_call_performed (R : Sys H (List (List (Operation H))) ε → Sys H (List (List (Operation H))) ε → Prop)
    (performed : Performed R) (depth : Nat) (fp : H) (md : MessageData) (s : Sys H (List (List (Operation H))) ε) :
    R s (operatedCall depth fp md s) := by
  induction depth generalizing fp md s with
  | zero => exact performed_refl R performed s
  | succ depth ih =>
      have next := performed.steady s { s with host := s.host.tail } ⟨rfl, rfl, rfl, rfl, rfl, rfl⟩
      exact performed.trans _ _ _ next (run_operations_performed R performed _ ih _ _)

end Aliot
