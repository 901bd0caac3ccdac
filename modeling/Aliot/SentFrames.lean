import Aliot.AtMostOnce
import Aliot.Gating
import Aliot.PublishedBytes
import Aliot.ReadFraming
import Aliot.ServerConnect

set_option autoImplicit false

namespace Aliot

variable {H ε : Type}

-- MQTTSerialize_connect counts the bytes of two protocol names only.
def Versioned : Operation H → Prop
  | .connect (some options) => options.mqttVersion = 3 ∨ options.mqttVersion = 4
  | _ => True

-- The buffer is no larger than the largest packet, and the handlers' scripts connect with a known version.
structure Orderly (s : OperatedSys H ε) : Prop where
  size : s.client.bufSize ≤ 128 ^ 4
  scripts : ∀ script ∈ s.host, ∀ operation ∈ script, Versioned operation

-- Header byte, minimal length, exactly as many bytes, all within the client's buffer.
def IsFrame (size : Nat) (packet : Bytes) : Prop := ∃ frame : Packet size, packet = frame.wire

structure Wrote (s t : OperatedSys H ε) : Prop where
  size : t.client.bufSize = s.client.bufSize
  host : t.host <:+ s.host
  log : ∃ new, t.log = new ++ s.log ∧ ∀ n packet ok, .sent n packet ok ∈ new → IsFrame s.client.bufSize packet

def WroteFrames (s t : OperatedSys H ε) : Prop := Orderly s → Wrote s t

theorem packet_len_covers (n : Nat) (small : n < 128 ^ 4) : 1 + (VarInt.encode n).length + n ≤ mqttPacketLen n := by
  have one := VarInt.encode_length_le 0 n
  have two := VarInt.encode_length_le 1 n
  have three := VarInt.encode_length_le 2 n
  have four := VarInt.encode_length_le 3 n small
  simp only [mqttPacketLen]
  split
  · have := one (by omega)
    omega
  · split
    · have := two (by omega)
      omega
    · split
      · have := three (by omega)
        omega
      · omega

theorem frame_made (size : Nat) (header : UInt8) (body : Bytes) (bounded : size ≤ 128 ^ 4)
    (room : ¬ mqttPacketLen body.length > size) : IsFrame size (header :: (mqttPacketEncode body.length ++ body)) := by
  have longer := packet_len_longer body.length
  have small : body.length < 128 ^ 4 := by omega
  have covers := packet_len_covers body.length small
  refine ⟨⟨header, body, small, by omega⟩, ?_⟩
  rw [mqtt_packet_encode_refines]
  rfl

-- The frame of a serialiser that counts its body before it writes it.
theorem counted_frame (size len : Nat) (header : UInt8) (body packet : Bytes) (bounded : size ≤ 128 ^ 4)
    (counted : body.length = len) (made : packet = header :: (mqttPacketEncode len ++ body))
    (room : ¬ mqttPacketLen len > size) : IsFrame size packet := by
  subst counted made
  exact frame_made size header body bounded room

theorem publish_frame (size dup qos retained : Nat) (id : UInt16) (topicName payload : Bytes) (bounded : size ≤ 128 ^ 4)
    (made : ¬ (mqttSerializePublish size dup qos retained id topicName payload).1 ≤ 0) :
    IsFrame size (mqttSerializePublish size dup qos retained id topicName payload).2 := by
  simp only [mqttSerializePublish] at made ⊢
  by_cases room : mqttPacketLen (2 + topicName.length + payload.length + if qos > 0 then 2 else 0) > size
  · exact absurd (by simp [if_pos room, MQTTPACKET_BUFFER_TOO_SHORT]) made
  rw [if_neg room]
  refine counted_frame size _ (headerByte PUBLISH dup qos retained) (writeInt topicName.length ++ (topicName ++
    ((if qos > 0 then writeInt id.toNat else []) ++ payload))) _ bounded ?_ (by simp only [List.append_assoc]) room
  split <;> simp [writeInt] <;> omega

theorem ack_frame (size type dup : Nat) (id : UInt16) (bounded : size ≤ 128 ^ 4) (room : ¬ size < 4) :
    IsFrame size (ackBytes type dup id) :=
  counted_frame size 2 _ (writeInt id.toNat) _ bounded rfl rfl (by
    have len : mqttPacketLen 2 = 4 := rfl
    omega)

theorem empty_frame (size type : Nat) (bounded : size ≤ 128 ^ 4) (room : ¬ size < 2) :
    IsFrame size (headerByte type 0 0 0 :: mqttPacketEncode 0) :=
  counted_frame size 0 _ [] _ bounded rfl (by rw [List.append_nil]) (by
    have len : mqttPacketLen 0 = 2 := rfl
    omega)

theorem filter_frame (size type : Nat) (id : UInt16) (topicFilter requested : Bytes) (bounded : size ≤ 128 ^ 4)
    (made : ¬ (serializeFilter size type id topicFilter requested).1 ≤ 0) :
    IsFrame size (serializeFilter size type id topicFilter requested).2 := by
  simp only [serializeFilter] at made ⊢
  by_cases room : mqttPacketLen (2 + (2 + topicFilter.length + requested.length)) > size
  · exact absurd (by simp [if_pos room, MQTTPACKET_BUFFER_TOO_SHORT]) made
  rw [if_neg room]
  refine counted_frame size _ (headerByte type 0 1 0) (writeInt id.toNat ++ (writeMQTTString topicFilter ++ requested)) _
    bounded ?_ (by simp only [List.append_assoc]) room
  simp [writeInt, writeMQTTString]
  omega

theorem connect_frame (size : Nat) (options : MQTTPacketConnectData) (bounded : size ≤ 128 ^ 4)
    (versioned : options.mqttVersion = 3 ∨ options.mqttVersion = 4) (made : ¬ (mqttSerializeConnect size options).1 ≤ 0) :
    IsFrame size (mqttSerializeConnect size options).2 := by
  have bytes := connect_bytes size options (Int.lt_of_not_ge made)
  simp only [mqttSerializeConnect] at made
  by_cases room : mqttPacketLen (mqttSerializeConnectLength options) > size
  · exact absurd (by simp [if_pos room, MQTTPACKET_BUFFER_TOO_SHORT]) made
  refine counted_frame size _ (headerByte CONNECT 0 0 0) (connectBody options) _ bounded
    (connect_body_length options versioned) ?_ room
  rw [bytes, mqtt_packet_encode_refines]
  rfl

theorem wrote_trans (s t u : OperatedSys H ε) (first : WroteFrames s t) (second : WroteFrames t u) : WroteFrames s u := by
  intro orderly
  obtain ⟨size, host, new, log, frames⟩ := first orderly
  obtain ⟨size', host', new', log', frames'⟩ := second ⟨size ▸ orderly.size, fun script member =>
    orderly.scripts script (host.subset member)⟩
  refine ⟨size'.trans size, host'.trans host, new' ++ new, by rw [log', log, List.append_assoc], ?_⟩
  intro n packet ok member
  rcases List.mem_append.mp member with later | earlier
  · exact size ▸ frames' n packet ok later
  · exact frames n packet ok earlier

theorem wrote_quiet (s t : OperatedSys H ε) (size : t.client.bufSize = s.client.bufSize) (host : t.host = s.host)
    (log : t.log = s.log) : WroteFrames s t :=
  fun _ => ⟨size, host ▸ List.suffix_refl _, [], log, fun _ _ _ member => absurd member List.not_mem_nil⟩

theorem wrote_refl (s : OperatedSys H ε) : WroteFrames s s := wrote_quiet s s rfl rfl rfl

theorem wrote_event (s : OperatedSys H ε) (event : Event ε)
    (frames : Orderly s → ∀ n packet ok, event = .sent n packet ok → IsFrame s.client.bufSize packet) :
    WroteFrames s (s.record event) := by
  refine fun orderly => ⟨rfl, List.suffix_refl _, [event], rfl, fun n packet ok member => ?_⟩
  exact frames orderly n packet ok (List.mem_singleton.mp member).symm

theorem send_packet_wrote (n : Nat) (packet : Bytes) (s : OperatedSys H ε)
    (frame : Orderly s → IsFrame s.client.bufSize packet) : WroteFrames s (sendPacket n packet s).2 := by
  have recorded : ∀ (ok : Bool) (t : OperatedSys H ε), t.client = s.client → t.host = s.host →
      WroteFrames t (t.record (.sent n packet ok)) := by
    intro ok t client host
    refine wrote_event t _ (fun orderly m sent outcome same => ?_)
    obtain ⟨-, rfl, -⟩ := Event.sent.inj same
    exact client ▸ frame ⟨client ▸ orderly.size, host ▸ orderly.scripts⟩
  cases outcomes : s.world.sends with
  | nil =>
      simp only [sendPacket, outcomes]
      exact recorded false s rfl rfl
  | cons ok sends =>
      simp only [sendPacket, outcomes]
      exact wrote_trans _ _ _ (wrote_quiet s { s with world := { s.world with sends := sends } } rfl rfl rfl)
        (recorded ok _ rfl rfl)

theorem keepalive_wrote (n : Nat) (s : OperatedSys H ε) : WroteFrames s (keepalive n s).2 := by
  simp only [keepalive]
  by_cases off : s.client.keepAliveInterval = 0
  · rw [if_pos off]
    exact wrote_refl s
  rw [if_neg off]
  have popped : WroteFrames s { s with world := { s.world with pings := s.world.pings.tail } } := wrote_quiet _ _ rfl rfl rfl
  split
  · split
    · rename_i made
      have sent := wrote_trans _ _ _ popped (send_packet_wrote n (mqttSerializePingreq s.client.bufSize).2 _
        (fun orderly => by
          by_cases short : s.client.bufSize < 2
          · simp [mqttSerializePingreq, short, MQTTPACKET_BUFFER_TOO_SHORT] at made
          · simp only [mqttSerializePingreq, if_neg short]
            exact empty_frame _ PINGREQ orderly.size short))
      split
      · exact wrote_trans _ _ _ sent (wrote_quiet _ _ rfl rfl rfl)
      · exact sent
    · exact popped
  · exact popped

theorem send_reply_wrote (n type : Nat) (id : UInt16) (s : OperatedSys H ε) :
    WroteFrames s (sendReply n (mqttSerializeAck s.client.bufSize type 0 id) s).2 := by
  by_cases short : s.client.bufSize < 4
  · rw [send_reply_short n _ type id s short]
    exact wrote_refl s
  · have made : ¬ (mqttSerializeAck s.client.bufSize type 0 id).1 ≤ 0 := by
      simp [mqttSerializeAck, short, ackBytes]
      omega
    rw [sendReply, if_neg made, mqttSerializeAck, if_neg short]
    exact send_packet_wrote n _ s (fun orderly => ack_frame _ type 0 id orderly.size short)

theorem reply_publish_wrote (n : Nat) (msg : MQTTMessage) (s : OperatedSys H ε) : WroteFrames s (replyPublish n msg s).2 := by
  have finished : ∀ outcome : Int × OperatedSys H ε, WroteFrames s outcome.2 →
      WroteFrames s (if outcome.1 = FAILURE then (FAILURE, outcome.2) else finishCycle n PUBLISH outcome.2).2 := by
    intro outcome replied
    split
    · exact replied
    · exact wrote_trans _ _ _ replied (keepalive_wrote n outcome.2)
  simp only [replyPublish]
  by_cases most : msg.qos = QOS0
  · rw [if_pos most]
    exact keepalive_wrote n s
  rw [if_neg most]
  apply finished
  by_cases least : msg.qos = QOS1
  · rw [if_pos least]
    exact send_reply_wrote n PUBACK msg.id s
  rw [if_neg least]
  by_cases exactlyOnce : msg.qos = QOS2
  · rw [if_pos exactlyOnce]
    exact send_reply_wrote n PUBREC msg.id s
  · rw [if_neg exactlyOnce, sendReply, if_pos (Int.le_refl 0)]
    exact wrote_refl s

section Handlers

variable (call : Call H (List (List (Operation H))) ε) (calls : ∀ fp md t, WroteFrames t (call fp md t))

include calls

theorem accept_publish_wrote (n : Nat) (md : MessageData) (s : OperatedSys H ε) :
    WroteFrames s (acceptPublish call n md s) := by
  have noted : ∀ (t : OperatedSys H ε) event, (∀ n packet ok, event ≠ .sent n packet ok) → WroteFrames t (t.record event) :=
    fun t event other => wrote_event t event (fun _ n packet ok same => absurd same (other n packet ok))
  have delivered : ∀ t, WroteFrames t (deliverMessage call n md t).2 := fun t =>
    wrote_trans _ _ _ (noted t (.delivered n md.message) (fun _ _ _ same => by cases same))
      (deliver_message_carried WroteFrames wrote_refl wrote_trans call calls n md t)
  have tabled : ∀ (t : OperatedSys H ε) table, WroteFrames t (t.withTable table) := fun t table =>
    wrote_quiet t (t.withTable table) rfl rfl rfl
  have received := noted s (.received md.message.id s.client.incomingQos2Messages) (fun _ _ _ same => by cases same)
  simp only [acceptPublish]
  split
  · exact delivered s
  · split
    · split
      · exact wrote_trans _ _ _ received (wrote_trans _ _ _ (tabled _ _) (delivered _))
      · exact received
    · exact received

theorem cycle_publish_wrote (n : Nat) (arrival : Arrival) (s : OperatedSys H ε) :
    WroteFrames s (cyclePublish call n arrival s).2 := by
  simp only [cyclePublish]
  split
  · exact wrote_refl s
  · exact wrote_trans _ _ _ (accept_publish_wrote call calls n _ s) (reply_publish_wrote n _ _)

omit calls in
theorem cycle_ack_wrote (n packet_type : Nat) (arrival : Arrival) (s : OperatedSys H ε) :
    WroteFrames s (cycleAck n packet_type arrival s).2 := by
  simp only [cycleAck]
  generalize mqttDeserializeAck s.client.readbuf arrival.packetid = ack
  have replied := send_reply_wrote n (if packet_type = PUBREC then PUBREL else PUBCOMP) ack.packetid s
  generalize sendReply n (mqttSerializeAck s.client.bufSize (if packet_type = PUBREC then PUBREL else PUBCOMP) 0
    ack.packetid) s = outcome at replied ⊢
  by_cases malformed : ack.rc ≠ 1
  · rw [if_pos malformed]
    exact wrote_refl s
  rw [if_neg malformed]
  by_cases failed : outcome.1 ≠ SUCCESS
  · rw [if_pos failed]
    exact replied
  rw [if_neg failed]
  refine wrote_trans _ _ _ replied ?_
  split
  · refine wrote_trans _ (outcome.2.withTable _) _ ?_ (keepalive_wrote n _)
    exact wrote_quiet _ _ rfl rfl rfl
  · exact keepalive_wrote n _

theorem cycle_wrote (s : OperatedSys H ε) : WroteFrames s (cycle call s).2 := by
  have quiet : ∀ t : OperatedSys H ε, t.client.bufSize = s.client.bufSize → t.host = s.host → t.log = s.log →
      WroteFrames s t := fun t size host log => wrote_quiet s t size host log
  simp only [cycle]
  split
  · exact wrote_trans _ _ _ (quiet s.startCycle rfl rfl rfl) (keepalive_wrote _ _)
  · rename_i arrival arrivals _
    have took := quiet (s.startCycle.arrive arrival arrivals) rfl rfl rfl
    split
    · exact wrote_trans _ _ _ took (cycle_publish_wrote call calls _ arrival _)
    · split
      · exact wrote_trans _ _ _ took (cycle_ack_wrote _ _ arrival _)
      · split
        · refine wrote_trans _ _ _ (quiet { s.startCycle.arrive arrival arrivals with
            client := { (s.startCycle.arrive arrival arrivals).client with pingOutstanding := false } } rfl rfl rfl) ?_
          exact keepalive_wrote _ _
        · exact wrote_trans _ _ _ took (keepalive_wrote _ _)

theorem yield_wrote (s : OperatedSys H ε) : WroteFrames s (mqttYield call s).2 := by
  have loop : ∀ checks (t : OperatedSys H ε), WroteFrames t (yieldLoop call checks t).2 := by
    intro checks
    induction checks with
    | zero => exact wrote_refl
    | succ checks ih =>
        intro t
        simp only [yieldLoop]
        split
        · exact cycle_wrote call calls t
        · exact wrote_trans _ _ _ (cycle_wrote call calls t) (ih _)
  exact wrote_trans _ _ _ (wrote_quiet s (startTimer s).2 rfl rfl rfl) (loop _ _)

theorem waitfor_wrote (packet_type checks : Nat) (rc : Int) (s : OperatedSys H ε) :
    WroteFrames s (waitfor call packet_type checks rc s).2 := by
  induction checks generalizing rc s with
  | zero => exact wrote_refl s
  | succ checks ih =>
      simp only [waitfor]
      split
      · exact cycle_wrote call calls s
      · exact wrote_trans _ _ _ (cycle_wrote call calls s) (ih _ _)

theorem await_ack_wrote (packet_type checks : Nat) (s : OperatedSys H ε) :
    WroteFrames s (awaitAck call packet_type checks s).2 := by
  rw [await_ack_state]
  exact waitfor_wrote call calls packet_type checks FAILURE s

theorem publish_wrote (topicName : Bytes) (message : Outgoing) (s : OperatedSys H ε) :
    WroteFrames s (mqttPublish call topicName message s).2 := by
  have timed := wrote_quiet s (startTimer s).2 rfl rfl rfl
  simp only [mqttPublish]
  generalize startTimer s = started at timed ⊢
  obtain ⟨checks, t⟩ := started
  simp only at timed ⊢
  split
  · exact timed
  have numbered : WroteFrames t (if (decide (message.qos = QOS1) || decide (message.qos = QOS2)) = true then
      { t with client := getNextPacketId t.client } else t) := by
    split
    · exact wrote_quiet _ _ rfl rfl rfl
    · exact wrote_refl t
  generalize (if (decide (message.qos = QOS1) || decide (message.qos = QOS2)) = true then
      { t with client := getNextPacketId t.client } else t) = u at numbered ⊢
  generalize (if (decide (message.qos = QOS1) || decide (message.qos = QOS2)) = true then
      UInt16.ofNat u.client.nextPacketid else message.id) = id
  have before := wrote_trans _ _ _ timed numbered
  split
  · exact before
  rename_i made
  have sent := wrote_trans _ _ _ before (send_packet_wrote 0 _ u (fun orderly => publish_frame _ _ _ _ _ _ _ orderly.size made))
  split
  · exact sent
  · split
    · exact wrote_trans _ _ _ sent (await_ack_wrote call calls _ _ _)
    · split
      · exact wrote_trans _ _ _ sent (await_ack_wrote call calls _ _ _)
      · exact sent

omit calls in
theorem command_wrote (serialize : Nat → UInt16 → Int × Bytes) (s : OperatedSys H ε)
    (frames : ∀ size id, size ≤ 128 ^ 4 → ¬ (serialize size id).1 ≤ 0 → IsFrame size (serialize size id).2) :
    WroteFrames s (sendCommand serialize s).2 := by
  have timed := wrote_quiet s (startTimer s).2 rfl rfl rfl
  simp only [sendCommand]
  split
  · exact timed
  have numbered := wrote_trans _ _ _ timed (wrote_quiet _ (startTimer s).2.withNextPacketId rfl rfl rfl)
  split
  · exact numbered
  rename_i made
  have sent := wrote_trans _ _ _ numbered (send_packet_wrote 0 _ _ (fun orderly => frames _ _ orderly.size made))
  split
  · exact sent
  · exact sent

theorem subscribe_wrote (topicFilter : Bytes) (qos : Nat) (messageHandler : H) (s : OperatedSys H ε) :
    WroteFrames s (mqttSubscribe call topicFilter qos messageHandler s).2 := by
  have sent := command_wrote (fun buflen id => mqttSerializeSubscribe buflen id topicFilter qos) s
    (fun size id bounded made => filter_frame size SUBSCRIBE id topicFilter _ bounded made)
  simp only [mqttSubscribe]
  generalize sendCommand _ s = outcome at sent ⊢
  obtain ⟨answer, t⟩ := outcome
  cases answer with
  | none => exact sent
  | some checks =>
      have waited := wrote_trans _ _ _ sent (waitfor_wrote call calls SUBACK checks FAILURE t)
      simp only
      split
      · refine wrote_trans _ _ _ waited ?_
        rcases accept_suback_outcome topicFilter messageHandler (waitfor call SUBACK checks FAILURE t).2 with
          ⟨table, _, done⟩ | ⟨rc, _, done⟩
        · rw [done]
          exact wrote_quiet _ _ rfl rfl rfl
        · rw [done]
          exact wrote_refl _
      · exact waited

theorem unsubscribe_wrote (topicFilter : Bytes) (s : OperatedSys H ε) :
    WroteFrames s (mqttUnsubscribe call topicFilter s).2 := by
  have sent := command_wrote (fun buflen id => mqttSerializeUnsubscribe buflen id topicFilter) s
    (fun size id bounded made => filter_frame size UNSUBSCRIBE id topicFilter _ bounded made)
  simp only [mqttUnsubscribe]
  generalize sendCommand _ s = outcome at sent ⊢
  obtain ⟨answer, t⟩ := outcome
  cases answer with
  | none => exact sent
  | some checks =>
      have waited := wrote_trans _ _ _ sent (waitfor_wrote call calls UNSUBACK checks FAILURE t)
      simp only
      split
      · split <;> exact waited
      · exact waited

theorem connect_wrote (options : Option MQTTPacketConnectData) (s : OperatedSys H ε)
    (versioned : Versioned (.connect options : Operation H)) : WroteFrames s (mqttConnect call options s).2 := by
  have known : (options.getD connectDataInitializer).mqttVersion = 3 ∨ (options.getD connectDataInitializer).mqttVersion = 4 := by
    cases options with
    | none => exact .inr rfl
    | some options => exact versioned
  have attempted : WroteFrames s (connectAttempt call options s).2 := by
    have timed := wrote_quiet s (startTimer s).2 rfl rfl rfl
    simp only [connectAttempt]
    split
    · exact timed
    have ready := wrote_trans _ _ _ timed (wrote_quiet _ ((startTimer s).2.withKeepAlive
      (options.getD connectDataInitializer).keepAliveInterval.toNat) rfl rfl rfl)
    split
    · exact ready
    rename_i made
    have sent := wrote_trans _ _ _ ready (send_packet_wrote 0 _ _ (fun orderly => connect_frame _ _ orderly.size known made))
    split
    · exact sent
    have waited := wrote_trans _ _ _ sent (waitfor_wrote call calls CONNACK (startTimer s).1 FAILURE _)
    split
    · split <;> exact waited
    · exact waited
  simp only [mqttConnect]
  split
  · exact wrote_trans _ _ _ attempted (wrote_quiet _ _ rfl rfl rfl)
  · exact attempted

omit calls in
theorem disconnect_wrote (s : OperatedSys H ε) : WroteFrames s (mqttDisconnect s).2 := by
  have timed := wrote_quiet s (startTimer s).2 rfl rfl rfl
  have lowered : ∀ t : OperatedSys H ε, WroteFrames s t → WroteFrames s (t.withConnected false) :=
    fun t kept => wrote_trans _ _ _ kept (wrote_quiet _ _ rfl rfl rfl)
  simp only [mqttDisconnect]
  apply lowered
  split
  · rename_i made
    refine wrote_trans _ _ _ timed (send_packet_wrote 0 _ _ (fun orderly => ?_))
    by_cases short : s.client.bufSize < 2
    · simp [mqttSerializeDisconnect, short, MQTTPACKET_BUFFER_TOO_SHORT] at made
    · simp only [mqttSerializeDisconnect, if_neg short]
      exact empty_frame _ DISCONNECT orderly.size short
  · exact timed

theorem operation_wrote (operation : Operation H) (s : OperatedSys H ε) (versioned : Versioned operation) :
    WroteFrames s (runOperation call operation s).2 := by
  cases operation with
  | cycle => exact cycle_wrote call calls s
  | yield => exact yield_wrote call calls s
  | connect options => exact connect_wrote call calls options s versioned
  | subscribe topicFilter qos messageHandler => exact subscribe_wrote call calls topicFilter qos messageHandler s
  | unsubscribe topicFilter => exact unsubscribe_wrote call calls topicFilter s
  | publish topicName message => exact publish_wrote call calls topicName message s
  | disconnect => exact disconnect_wrote s

theorem operations_wrote (operations : List (Operation H)) (s : OperatedSys H ε)
    (versioned : ∀ operation ∈ operations, Versioned operation) : WroteFrames s (runOperations call operations s) := by
  induction operations generalizing s with
  | nil => exact wrote_refl s
  | cons operation operations ih =>
      rw [List.forall_mem_cons] at versioned
      exact wrote_trans _ _ _ (operation_wrote call calls operation s versioned.1) (ih _ versioned.2)

end Handlers

-- A handler takes the next script of the host, whose operations are versioned like all others.
theorem handlers_wrote (depth : Nat) (fp : H) (md : MessageData) (s : OperatedSys H ε) :
    WroteFrames s (operatedCall depth fp md s) := by
  induction depth generalizing fp md s with
  | zero => exact wrote_refl s
  | succ depth ih =>
      intro orderly
      have taken : Orderly ({ s with host := s.host.tail } : OperatedSys H ε) :=
        ⟨orderly.size, fun script member => orderly.scripts script (List.mem_of_mem_tail member)⟩
      have script : ∀ operation ∈ s.host.headD [], Versioned operation := by
        cases scripts : s.host with
        | nil => simp
        | cons first others => exact orderly.scripts first (by rw [scripts]; exact List.mem_cons_self)
      have wrote := operations_wrote (operatedCall depth) ih _ { s with host := s.host.tail } script taken
      exact ⟨wrote.size, wrote.host.trans (List.tail_suffix s.host), wrote.log⟩

-- Every packet that any run hands to sendPacket, also those of the operations that handlers run.
theorem run_writes_frames (depth : Nat) (operations : List (Operation H)) (s : OperatedSys H ε) (orderly : Orderly s)
    (versioned : ∀ operation ∈ operations, Versioned operation) :
    ∃ new, (runOperations (operatedCall depth) operations s).log = new ++ s.log ∧
      ∀ n packet ok, .sent n packet ok ∈ new → IsFrame s.client.bufSize packet :=
  (operations_wrote (operatedCall depth) (handlers_wrote depth) operations s versioned orderly).log

-- A QoS 2 PUBLISH whose handler publishes with QoS 1, and waits for its PUBACK in a cycle of its own.
def relaySession : OperatedSys Unit Unit :=
  startedClient { staticClient with messageHandlers := List.replicate MAX_MESSAGE_HANDLERS ⟨none, none⟩ } 100
    ⟨[.other 0x20 [0, 0], .other 0x90 [0, 1, 2], exactlyOncePublish 1, .ack PUBACK 0 2, .ack PUBREL 2 1].map arrivalOf,
      List.replicate 9 true, [1, 1, 1], []⟩ [[.publish (ascii "state") ⟨1, 0, 0, ascii "on"⟩]]

def relayOperations : List (Operation Unit) :=
  [.connect none, .subscribe (ascii "t") 2 (), .cycle, .cycle, .disconnect]

theorem relay_writes_frames :
    .sent 0 (mqttSerializePublish 100 0 1 0 2 (ascii "state") (ascii "on")).2 true ∈
        (runOperations (operatedCall 1) relayOperations relaySession).log ∧
      ∃ new, (runOperations (operatedCall 1) relayOperations relaySession).log = new ++ relaySession.log ∧
        ∀ n packet ok, .sent n packet ok ∈ new → IsFrame 100 packet :=
  ⟨by decide +kernel, run_writes_frames 1 relayOperations relaySession ⟨by decide, by simp [relaySession, startedClient, Versioned]⟩
    (by simp [relayOperations, Versioned])⟩

end Aliot
