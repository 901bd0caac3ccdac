import Aliot.ClientRun
import Aliot.MqttCommands

set_option autoImplicit false

namespace Aliot

variable {H σ ε : Type}

inductive Operation (H : Type) where
  | cycle
  | yield
  | connect (options : Option MQTTPacketConnectData)
  | subscribe (topicFilter : Bytes) (qos : Nat) (messageHandler : H)
  | unsubscribe (topicFilter : Bytes)
  | publish (topicName : Bytes) (message : Outgoing)
  | disconnect

def runOperation (call : Call H σ ε) : Operation H → Sys H σ ε → Int × Sys H σ ε
  | .cycle, s => cycle call s
  | .yield, s => mqttYield call s
  | .connect options, s => mqttConnect call options s
  | .subscribe topicFilter qos messageHandler, s => mqttSubscribe call topicFilter qos messageHandler s
  | .unsubscribe topicFilter, s => mqttUnsubscribe call topicFilter s
  | .publish topicName message, s => mqttPublish call topicName message s
  | .disconnect, s => mqttDisconnect s

def runOperations (call : Call H σ ε) : List (Operation H) → Sys H σ ε → Sys H σ ε
  | [], s => s
  | operation :: operations, s => runOperations call operations (runOperation call operation s).2

-- Every handler that is called takes the next script; those nested deeper than depth do nothing.
def operatedCall : Nat → Call H (List (List (Operation H))) ε
  | 0 => fun _ _ s => s
  | depth + 1 => fun _ _ s =>
      runOperations (operatedCall depth) (s.host.headD []) { s with host := s.host.tail }

-- A CONNACK with both its bytes, the second of them 0.
def ConnackAccepted (readbuf : Nat → UInt8) : Prop :=
  headerType (readbuf 0) = CONNACK ∧ 2 ≤ (mqttPacketDecodeBuf readbuf 1).2 ∧
    readbuf (1 + (mqttPacketDecodeBuf readbuf 1).1 + 1) = 0

-- Kept by every operation of the client too.
structure Operated (R : Sys H σ ε → Sys H σ ε → Prop) : Prop extends Carried R where
  commanded : ∀ packet ok s, packet.head?.map headerType = some SUBSCRIBE ∨ packet.head?.map headerType = some UNSUBSCRIBE →
    s.client.isconnected = true → R s (s.record (.sent 0 packet ok))
  greeted : ∀ packet ok s, packet.head?.map headerType = some CONNECT ∨ packet.head?.map headerType = some DISCONNECT →
    R s (s.record (.sent 0 packet ok))
  installed : ∀ s table, R s (s.withHandlers table)
  raised : ∀ s, ConnackAccepted s.client.readbuf → R s (s.withConnected true)
  lowered : ∀ s, R s (s.withConnected false)

theorem filter_made (buflen type : Nat) (id : UInt16) (topicFilter requested : Bytes) (nibble : type < 16)
    (made : ¬ (serializeFilter buflen type id topicFilter requested).1 ≤ 0) :
    (serializeFilter buflen type id topicFilter requested).2.head?.map headerType = some type := by
  simp only [serializeFilter] at made ⊢
  generalize 2 + (2 + topicFilter.length + requested.length) = rem_len at made ⊢
  by_cases short : mqttPacketLen rem_len > buflen
  · exact absurd (by simp [if_pos short, MQTTPACKET_BUFFER_TOO_SHORT]) made
  · rw [if_neg short]
    exact congrArg some (header_byte_fields type 0 1 0 nibble (by decide) (by decide) (by decide)).1

theorem connect_made (buflen : Nat) (options : MQTTPacketConnectData) (made : ¬ (mqttSerializeConnect buflen options).1 ≤ 0) :
    (mqttSerializeConnect buflen options).2.head?.map headerType = some CONNECT := by
  simp only [mqttSerializeConnect] at made ⊢
  generalize mqttSerializeConnectLength options = len at made ⊢
  by_cases short : mqttPacketLen len > buflen
  · exact absurd (by simp [if_pos short, MQTTPACKET_BUFFER_TOO_SHORT]) made
  · rw [if_neg short]
    exact congrArg some (header_byte_fields CONNECT 0 0 0 (by decide) (by decide) (by decide) (by decide)).1

theorem disconnect_made (buflen : Nat) (made : (mqttSerializeDisconnect buflen).1 > 0) :
    (mqttSerializeDisconnect buflen).2.head?.map headerType = some DISCONNECT := by
  by_cases short : buflen < 2
  · simp [mqttSerializeDisconnect, short, MQTTPACKET_BUFFER_TOO_SHORT] at made
  · simp only [mqttSerializeDisconnect, if_neg short]
    rfl

theorem send_command_outcome (serialize : Nat → UInt16 → Int × Bytes) (type : Nat)
    (made : ∀ buflen id, ¬ (serialize buflen id).1 ≤ 0 → (serialize buflen id).2.head?.map headerType = some type)
    (s : Sys H σ ε) :
    (∃ t, Idle s t ∧ sendCommand serialize s = (none, t)) ∨
      ∃ t packet, Idle s t ∧ t.client.isconnected = true ∧ packet.head?.map headerType = some type ∧
        (sendCommand serialize s = (none, t.record (.sent 0 packet false)) ∨
          ∃ checks, sendCommand serialize s = (some checks, t.record (.sent 0 packet true))) := by
  have timed := timer_idle s
  simp only [sendCommand]
  generalize startTimer s = started at timed ⊢
  obtain ⟨checks, t⟩ := started
  simp only at timed ⊢
  by_cases connected : t.client.isconnected = true
  swap
  · exact .inl ⟨t, timed, by simp [connected]⟩
  have numbered : Idle s t.withNextPacketId :=
    ⟨timed.arrivals, timed.table, timed.handlers, timed.connected, timed.host, timed.log, timed.readbuf⟩
  have online := timed.connected.symm.trans connected
  simp only [connected, Bool.not_true, Bool.false_eq_true, if_false]
  generalize t.withNextPacketId = u at numbered ⊢
  have first := made u.client.bufSize (UInt16.ofNat u.client.nextPacketid)
  generalize serialize u.client.bufSize (UInt16.ofNat u.client.nextPacketid) = packet at first ⊢
  by_cases unmade : packet.1 ≤ 0
  · exact .inl ⟨u, numbered, by rw [if_pos unmade]⟩
  obtain ⟨v, ok, quiet, sent⟩ := send_packet_sends 0 packet.2 u
  have before := idle_trans _ _ _ numbered quiet
  refine .inr ⟨v, packet.2, before, before.connected.trans online, first unmade, ?_⟩
  rw [if_neg unmade, sent]
  cases ok with
  | false => exact .inl rfl
  | true => exact .inr ⟨checks, rfl⟩

-- A CONNACK cut short is reported as parsed too; it leaves the 255 that the return code starts from.
theorem connack_accepted (readbuf : Nat → UInt8) (parsed : (mqttDeserializeConnack readbuf 255).rc = 1)
    (success : (mqttDeserializeConnack readbuf 255).connackRc.toNat = 0) : ConnackAccepted readbuf := by
  simp only [mqttDeserializeConnack] at parsed success
  by_cases other : headerType (readbuf 0) ≠ CONNACK
  · rw [if_pos other] at parsed
    cases parsed
  rw [if_neg other] at success
  by_cases short : (mqttPacketDecodeBuf readbuf 1).2 < 2
  · rw [if_pos short] at success
    cases success
  · rw [if_neg short] at success
    exact ⟨not_not.mp other, Nat.le_of_not_lt short, UInt8.toNat_inj.mp success⟩

theorem read_char_range (byte : UInt8) : readChar byte < 0x80 := by
  have bound := byte.toNat_lt
  simp only [readChar]
  split
  · rename_i small
    have less : byte.toNat < 128 := small
    omega
  · omega

-- A signed char is never the 0x80 that the SUBACK's code is compared with.
theorem suback_never_refused (buf : Nat → UInt8) : (if (mqttDeserializeSuback buf 0 (-1)).rc = 1 then
    (mqttDeserializeSuback buf 0 (-1)).grantedQoS else SUCCESS) ≠ 0x80 := by
  have granted : (mqttDeserializeSuback buf 0 (-1)).grantedQoS < 0x80 := by
    have range := read_char_range (buf (1 + (mqttPacketDecodeBuf buf 1).1 + 2))
    have unset : (-1 : Int) < 0x80 := by decide
    simp only [mqttDeserializeSuback]
    split
    · exact unset
    · split
      · exact unset
      · simp only
        split
        · exact range
        · exact unset
  split
  · exact Int.ne_of_lt granted
  · decide

theorem accept_suback_outcome (topicFilter : Bytes) (messageHandler : H) (s : Sys H σ ε) :
    (∃ table, installHandler s.client.messageHandlers topicFilter messageHandler = some table ∧
        acceptSuback topicFilter messageHandler s = (0, s.withHandlers table)) ∨
      ∃ rc, installHandler s.client.messageHandlers topicFilter messageHandler = none ∧
        acceptSuback topicFilter messageHandler s = (rc, s) := by
  simp only [acceptSuback, if_pos (suback_never_refused s.client.readbuf)]
  cases installed : installHandler s.client.messageHandlers topicFilter messageHandler with
  | some table => exact .inl ⟨table, rfl, rfl⟩
  | none => exact .inr ⟨_, rfl, rfl⟩

section Operations

variable (R : Sys H σ ε → Sys H σ ε → Prop) (carried : Carried R) (call : Call H σ ε)
  (calls : ∀ fp md t, R t (call fp md t))

include carried

theorem send_command_carried (serialize : Nat → UInt16 → Int × Bytes) (type : Nat)
    (made : ∀ buflen id, ¬ (serialize buflen id).1 ≤ 0 → (serialize buflen id).2.head?.map headerType = some type)
    (commanded : ∀ packet ok s, packet.head?.map headerType = some type → s.client.isconnected = true →
      R s (s.record (.sent 0 packet ok))) (s : Sys H σ ε) : R s (sendCommand serialize s).2 := by
  rcases send_command_outcome serialize type made s with ⟨t, quiet, done⟩ | ⟨t, packet, quiet, connected, first, outcome⟩
  · exact done ▸ carried.idle s t quiet
  have sent := fun ok => carried.trans _ _ _ (carried.idle s t quiet) (commanded packet ok t first connected)
  rcases outcome with done | ⟨checks, done⟩
  · exact done ▸ sent false
  · exact done ▸ sent true

theorem mqtt_disconnect_carried (greeted : ∀ packet ok s, packet.head?.map headerType = some DISCONNECT →
      R s (s.record (.sent 0 packet ok))) (lowered : ∀ s, R s (s.withConnected false)) (s : Sys H σ ε) :
    R s (mqttDisconnect s).2 := by
  have timed := carried.idle s _ (timer_idle s)
  have made := disconnect_made s.client.bufSize
  simp only [mqttDisconnect]
  generalize mqttSerializeDisconnect s.client.bufSize = packet at made ⊢
  by_cases fits : packet.1 > 0
  · rw [if_pos fits]
    have sent := send_packet_carried R carried.idle carried.trans 0 packet.2
      (fun ok t => greeted packet.2 ok t (made fits)) (startTimer s).2
    exact carried.trans _ _ _ (carried.trans _ _ _ timed sent) (lowered _)
  · rw [if_neg fits]
    exact carried.trans _ _ _ timed (lowered _)

include calls

theorem mqtt_subscribe_outcome (commanded : ∀ packet ok s, packet.head?.map headerType = some SUBSCRIBE →
      s.client.isconnected = true → R s (s.record (.sent 0 packet ok))) (topicFilter : Bytes) (qos : Nat)
    (messageHandler : H) (s : Sys H σ ε) :
    ∃ t, R s t ∧ (mqttSubscribe call topicFilter qos messageHandler s = (FAILURE, t) ∨
      mqttSubscribe call topicFilter qos messageHandler s = acceptSuback topicFilter messageHandler t) := by
  have sent := send_command_carried R carried (fun buflen id => mqttSerializeSubscribe buflen id topicFilter qos) SUBSCRIBE
    (fun buflen id => filter_made buflen SUBSCRIBE id topicFilter _ (by decide)) commanded s
  simp only [mqttSubscribe]
  generalize sendCommand _ s = outcome at sent ⊢
  obtain ⟨answer, t⟩ := outcome
  cases answer with
  | none => exact ⟨t, sent, .inl rfl⟩
  | some checks =>
      have waited := carried.trans _ _ _ sent (waitfor_carried R carried call calls SUBACK checks FAILURE t)
      refine ⟨_, waited, ?_⟩
      simp only
      split
      · exact .inr rfl
      · exact .inl rfl

theorem mqtt_subscribe_carried (commanded : ∀ packet ok s, packet.head?.map headerType = some SUBSCRIBE →
      s.client.isconnected = true → R s (s.record (.sent 0 packet ok)))
    (installed : ∀ s table, R s (s.withHandlers table)) (topicFilter : Bytes) (qos : Nat) (messageHandler : H)
    (s : Sys H σ ε) : R s (mqttSubscribe call topicFilter qos messageHandler s).2 := by
  obtain ⟨t, kept, failed | answered⟩ :=
    mqtt_subscribe_outcome R carried call calls commanded topicFilter qos messageHandler s
  · exact failed ▸ kept
  rw [answered]
  refine carried.trans _ _ _ kept ?_
  rcases accept_suback_outcome topicFilter messageHandler t with ⟨table, _, done⟩ | ⟨rc, _, done⟩
  · exact done ▸ installed t table
  · exact done ▸ carried.idle t t (idle_refl t)

theorem mqtt_unsubscribe_carried (commanded : ∀ packet ok s, packet.head?.map headerType = some UNSUBSCRIBE →
      s.client.isconnected = true → R s (s.record (.sent 0 packet ok))) (topicFilter : Bytes) (s : Sys H σ ε) :
    R s (mqttUnsubscribe call topicFilter s).2 := by
  have sent := send_command_carried R carried (fun buflen id => mqttSerializeUnsubscribe buflen id topicFilter) UNSUBSCRIBE
    (fun buflen id => filter_made buflen UNSUBSCRIBE id topicFilter _ (by decide)) commanded s
  simp only [mqttUnsubscribe]
  generalize sendCommand _ s = outcome at sent ⊢
  obtain ⟨answer, t⟩ := outcome
  cases answer with
  | none => exact sent
  | some checks =>
      have waited := carried.trans _ _ _ sent (waitfor_carried R carried call calls UNSUBACK checks FAILURE t)
      simp only
      split
      · split <;> exact waited
      · exact waited

theorem connect_attempt_carried (greeted : ∀ packet ok s, packet.head?.map headerType = some CONNECT →
      R s (s.record (.sent 0 packet ok))) (options : Option MQTTPacketConnectData) (s : Sys H σ ε) :
    R s (connectAttempt call options s).2 ∧ ((connectAttempt call options s).1 = SUCCESS →
      ConnackAccepted (connectAttempt call options s).2.client.readbuf) := by
  have timed := timer_idle s
  simp only [connectAttempt]
  generalize startTimer s = started at timed ⊢
  obtain ⟨checks, t⟩ := started
  simp only at timed ⊢
  have impossible : FAILURE ≠ SUCCESS := by decide
  have failed : ∀ u : Sys H σ ε, R s u → R s ((FAILURE, u) : Int × Sys H σ ε).2 ∧
      (((FAILURE, u) : Int × Sys H σ ε).1 = SUCCESS → ConnackAccepted u.client.readbuf) :=
    fun u kept => ⟨kept, fun success => absurd success impossible⟩
  by_cases connected : t.client.isconnected = true
  · rw [if_pos connected]
    exact failed t (carried.idle s t timed)
  rw [if_neg connected]
  have ready : Idle s (t.withKeepAlive (options.getD connectDataInitializer).keepAliveInterval.toNat) :=
    ⟨timed.arrivals, timed.table, timed.handlers, timed.connected, timed.host, timed.log, timed.readbuf⟩
  generalize t.withKeepAlive (options.getD connectDataInitializer).keepAliveInterval.toNat = u at ready ⊢
  have first := connect_made u.client.bufSize (options.getD connectDataInitializer)
  generalize mqttSerializeConnect u.client.bufSize (options.getD connectDataInitializer) = packet at first ⊢
  by_cases unmade : packet.1 ≤ 0
  · rw [if_pos unmade]
    exact failed u (carried.idle s u ready)
  obtain ⟨v, ok, quiet, sent⟩ := send_packet_sends 0 packet.2 u
  have recorded := carried.trans _ _ _ (carried.idle s v (idle_trans _ _ _ ready quiet)) (greeted packet.2 ok v (first unmade))
  rw [if_neg unmade, sent]
  cases ok with
  | false => exact failed _ recorded
  | true =>
      have waited := carried.trans _ _ _ recorded (waitfor_carried R carried call calls CONNACK checks FAILURE _)
      simp only [if_true, ne_eq, not_true_eq_false, if_false]
      generalize waitfor call CONNACK checks FAILURE _ = outcome at waited ⊢
      by_cases answered : outcome.1 = CONNACK
      swap
      · rw [if_neg answered]
        exact failed _ waited
      rw [if_pos answered]
      by_cases parsed : (mqttDeserializeConnack outcome.2.client.readbuf 255).rc = 1
      · rw [if_pos parsed]
        refine ⟨waited, fun success => connack_accepted _ parsed ?_⟩
        have zero : ((mqttDeserializeConnack outcome.2.client.readbuf 255).connackRc.toNat : Int) = 0 := success
        exact Int.natCast_eq_zero.mp zero
      · rw [if_neg parsed]
        exact failed _ waited

theorem mqtt_connect_carried (greeted : ∀ packet ok s, packet.head?.map headerType = some CONNECT →
      R s (s.record (.sent 0 packet ok)))
    (raised : ∀ s, ConnackAccepted s.client.readbuf → R s (s.withConnected true))
    (options : Option MQTTPacketConnectData) (s : Sys H σ ε) : R s (mqttConnect call options s).2 := by
  obtain ⟨attempted, accepted⟩ := connect_attempt_carried R carried call calls greeted options s
  simp only [mqttConnect]
  split
  · rename_i success
    exact carried.trans _ _ _ attempted (raised _ (accepted success))
  · exact attempted

end Operations

theorem run_operation_carried (R : Sys H σ ε → Sys H σ ε → Prop) (operated : Operated R) (call : Call H σ ε)
    (calls : ∀ fp md t, R t (call fp md t)) (operation : Operation H) (s : Sys H σ ε) :
    R s (runOperation call operation s).2 := by
  have carried := operated.toCarried
  cases operation with
  | cycle => exact carried.stepped call s calls
  | yield => exact mqtt_yield_carried R carried call calls s
  | connect options =>
      exact mqtt_connect_carried R carried call calls (fun packet ok t type => operated.greeted packet ok t (.inl type))
        operated.raised options s
  | subscribe topicFilter qos messageHandler =>
      exact mqtt_subscribe_carried R carried call calls (fun packet ok t type => operated.commanded packet ok t (.inl type))
        operated.installed topicFilter qos messageHandler s
  | unsubscribe topicFilter =>
      exact mqtt_unsubscribe_carried R carried call calls
        (fun packet ok t type => operated.commanded packet ok t (.inr type)) topicFilter s
  | publish topicName message => exact mqtt_publish_carried R carried call calls topicName message s
  | disconnect =>
      exact mqtt_disconnect_carried R carried (fun packet ok t type => operated.greeted packet ok t (.inr type))
        operated.lowered s

theorem run_operations_carried (R : Sys H σ ε → Sys H σ ε → Prop) (operated : Operated R) (call : Call H σ ε)
    (calls : ∀ fp md t, R t (call fp md t)) (operations : List (Operation H)) (s : Sys H σ ε) :
    R s (runOperations call operations s) := by
  induction operations generalizing s with
  | nil => exact operated.idle s s (idle_refl s)
  | cons operation operations ih =>
      exact operated.trans _ _ _ (run_operation_carried R operated call calls operation s) (ih _)

theorem operated_call_carried (R : Sys H (List (List (Operation H))) ε → Sys H (List (List (Operation H))) ε → Prop)
    (operated : Operated R) (scripts : ∀ s, R s { s with host := s.host.tail }) (depth : Nat) (fp : H)
    (md : MessageData) (s : Sys H (List (List (Operation H))) ε) : R s (operatedCall depth fp md s) := by
  induction depth generalizing fp md s with
  | zero => exact operated.idle s s (idle_refl s)
  | succ depth ih => exact operated.trans _ _ _ (scripts s) (run_operations_carried R operated _ ih _ _)

end Aliot
