import Aliot.Operations
import Aliot.QosTwo

set_option autoImplicit false

namespace Aliot

variable {H σ ε : Type}

structure Request where
  serialize : Nat → UInt16 → Int × Bytes
  reply : Nat

-- The calls that wait for a reply to a packet with an id of their own.
def request : Operation H → Option Request
  | .publish topicName message =>
      if message.qos = QOS1 ∨ message.qos = QOS2 then
        some ⟨fun buflen id => mqttSerializePublish buflen 0 message.qos message.retained id topicName message.payload,
          if message.qos = QOS1 then PUBACK else PUBCOMP⟩
      else none
  | .subscribe topicFilter qos _ => some ⟨fun buflen id => mqttSerializeSubscribe buflen id topicFilter qos, SUBACK⟩
  | .unsubscribe topicFilter => some ⟨fun buflen id => mqttSerializeUnsubscribe buflen id topicFilter, UNSUBACK⟩
  | _ => none

def successful : Operation H → Int → Prop
  | .publish _ _, rc => rc = SUCCESS
  | .subscribe _ _ _, rc => rc = 0 ∨ rc = 1 ∨ rc = 2
  | .unsubscribe _, rc => rc = 0
  | _, _ => False

-- What the call makes of the reply in readbuf.
def conclude : Operation H → Sys H σ ε → Int × Sys H σ ε
  | .publish _ _, s => if (mqttDeserializeAck s.client.readbuf 0).rc ≠ 1 then (FAILURE, s) else (SUCCESS, s)
  | .subscribe topicFilter _ messageHandler, s => acceptSuback topicFilter messageHandler s
  | .unsubscribe _, s => if (mqttDeserializeUnsuback s.client.readbuf 0).rc = 1 then (0, s) else (SUCCESS, s)
  | _, s => (FAILURE, s)

-- The id that the next call puts into its packet.
def ownId (s : Sys H σ ε) : UInt16 := UInt16.ofNat (getNextPacketId s.client).nextPacketid

-- A reply of this type and with this id; a SUBACK has one code behind the id.
structure OwnReply (type : Nat) (id : UInt16) (arrival : Arrival) : Prop where
  returned : packetType arrival.rc = type
  header : headerType (arrival.readbuf 0) = type
  length : mqttPacketDecodeBuf arrival.readbuf 1 = (1, if type = SUBACK then 3 else 2)
  packetid : UInt16.ofNat (readInt arrival.readbuf 2) = id

def readDuring (s t : Sys H σ ε) : List Arrival :=
  s.world.arrivals.take (s.world.arrivals.length - t.world.arrivals.length)

def OnlyByOwnReply (call : Call H σ ε) (operation : Operation H) (s : Sys H σ ε) : Prop :=
  ∀ own, request operation = some own → successful operation (runOperation call operation s).1 →
    ∃ reply ∈ readDuring s (runOperation call operation s).2, OwnReply own.reply (ownId s) reply

def nextIs (type : Nat) (s : Sys H σ ε) : Bool :=
  s.world.arrivals.head?.any (fun arrival => packetType arrival.rc = type)

-- The state in which the wait reads the packet that ends it.
def closing (call : Call H σ ε) (type : Nat) : Nat → Sys H σ ε → Option (Sys H σ ε)
  | 0, _ => none
  | checks + 1, s => if nextIs type s then some s else closing call type checks (cycle call s).2

-- The replies of the awaited type that the call takes for a success; a SUBACK's code is never found to be 0x80.
def Accepts : Operation H → Client H → Arrival → Prop
  | .publish _ _, _, reply => (mqttDeserializeAck reply.readbuf 0).rc = 1
  | .subscribe topicFilter _ messageHandler, c, reply =>
      let suback := mqttDeserializeSuback reply.readbuf 0 (-1)
      (installHandler c.messageHandlers topicFilter messageHandler).isSome ∨ suback.rc ≠ 1 ∨
        suback.grantedQoS = 0 ∨ suback.grantedQoS = 1 ∨ suback.grantedQoS = 2
  | .unsubscribe _, _, _ => True
  | _, _, _ => False

-- A packet that ends the wait and is taken for a success is the call's own reply, or a handler has read that one before.
def ClosedByOwnReply (call : Call H σ ε) (operation : Operation H) (s : Sys H σ ε) : Prop :=
  ∀ own checks t u closer, request operation = some own → sendCommand own.serialize s = (some checks, t) →
    closing call own.reply checks t = some u → u.world.arrivals.head? = some closer → Accepts operation u.client closer →
      OwnReply own.reply (ownId s) closer ∨ ∃ reply ∈ readDuring s u, OwnReply own.reply (ownId s) reply

def Awaitable (type : Nat) : Prop := type = PUBACK ∨ type = PUBCOMP ∨ type = SUBACK ∨ type = UNSUBACK

theorem request_awaitable (operation : Operation H) (own : Request) (asked : request operation = some own) :
    Awaitable own.reply := by
  cases operation with
  | publish topicName message =>
      simp only [request] at asked
      split at asked
      · obtain rfl := Option.some.inj asked
        simp only [Awaitable]
        split
        · exact .inl rfl
        · exact .inr (.inl rfl)
      · cases asked
  | subscribe topicFilter qos messageHandler =>
      obtain rfl := Option.some.inj asked
      exact .inr (.inr (.inl rfl))
  | unsubscribe topicFilter =>
      obtain rfl := Option.some.inj asked
      exact .inr (.inr (.inr rfl))
  | cycle => cases asked
  | yield => cases asked
  | connect options => cases asked
  | disconnect => cases asked

theorem failure_unsuccessful (operation : Operation H) : ¬ successful operation FAILURE := by
  cases operation <;> simp [successful, FAILURE, SUCCESS]

theorem send_packet_rc (n : Nat) (packet : Bytes) (s : Sys H σ ε) (failed : (sendPacket n packet s).1 ≠ SUCCESS) :
    (sendPacket n packet s).1 = FAILURE := by
  obtain ⟨t, ok, _, sent⟩ := send_packet_sends n packet s
  rw [sent] at failed ⊢
  cases ok with
  | true => exact absurd rfl failed
  | false => rfl

-- The lines of MQTTPublish up to the wait are those of the other two.
theorem send_command_waits (serialize : Nat → UInt16 → Int × Bytes) (await : Nat → Sys H σ ε → Int × Sys H σ ε)
    (s : Sys H σ ε) :
    (let (checks, s) := startTimer s
      if !s.client.isconnected then (FAILURE, s)
      else
        let s := s.withNextPacketId
        let (len, packet) := serialize s.client.bufSize (UInt16.ofNat s.client.nextPacketid)
        if len ≤ 0 then (FAILURE, s)
        else
          let (rc, s) := sendPacket 0 packet s
          if rc ≠ SUCCESS then (rc, s) else await checks s) =
      match sendCommand serialize s with
      | (none, t) => (FAILURE, t)
      | (some checks, t) => await checks t := by
  simp only [sendCommand]
  generalize startTimer s = started
  by_cases connected : started.2.client.isconnected = true
  swap
  · simp [connected]
  simp only [connected, Bool.not_true, Bool.false_eq_true, if_false]
  generalize started.2.withNextPacketId = t
  generalize serialize t.client.bufSize (UInt16.ofNat t.client.nextPacketid) = packet
  by_cases unmade : packet.1 ≤ 0
  · simp [unmade]
  simp only [unmade, if_false]
  have failure := send_packet_rc 0 packet.2 t
  generalize sendPacket 0 packet.2 t = outcome at failure ⊢
  by_cases sent : outcome.1 = SUCCESS
  · simp [sent]
  · have apart : ¬ FAILURE = SUCCESS := by decide
    simp [failure sent, apart]

-- The packet of a call that goes on to wait carries ownId.
theorem send_command_own_id (serialize : Nat → UInt16 → Int × Bytes) (checks : Nat) (s t : Sys H σ ε)
    (sent : sendCommand serialize s = (some checks, t)) :
    t.log = .sent 0 (serialize s.client.bufSize (ownId s)).2 true :: s.log := by
  simp only [sendCommand] at sent
  split at sent
  · cases sent
  split at sent
  · cases sent
  have numbered : serialize (startTimer s).2.withNextPacketId.client.bufSize
      (UInt16.ofNat (startTimer s).2.withNextPacketId.client.nextPacketid) = serialize s.client.bufSize (ownId s) := rfl
  have log : (startTimer s).2.withNextPacketId.log = s.log := rfl
  rw [numbered] at sent
  generalize (startTimer s).2.withNextPacketId = u at sent log
  obtain ⟨v, ok, quiet, outcome⟩ := send_packet_sends 0 (serialize s.client.bufSize (ownId s)).2 u
  rw [outcome] at sent
  cases ok with
  | false => cases sent
  | true =>
      obtain ⟨_, rfl⟩ := Prod.mk.inj sent
      rw [Sys.record, quiet.log, log]

theorem run_publish (call : Call H σ ε) (topicName : Bytes) (message : Outgoing) (own : Request) (s : Sys H σ ε)
    (asked : request (.publish topicName message : Operation H) = some own) :
    mqttPublish call topicName message s =
      match sendCommand own.serialize s with
      | (none, t) => (FAILURE, t)
      | (some checks, t) =>
          if (waitfor call own.reply checks FAILURE t).1 = own.reply then
            conclude (.publish topicName message) (waitfor call own.reply checks FAILURE t).2
          else (FAILURE, (waitfor call own.reply checks FAILURE t).2) := by
  simp only [request] at asked
  by_cases numbered : message.qos = QOS1 ∨ message.qos = QOS2
  swap
  · rw [if_neg numbered] at asked
    cases asked
  rw [if_pos numbered] at asked
  obtain rfl := Option.some.inj asked
  have takes : (message.qos = QOS1 || message.qos = QOS2) = true := by simpa using numbered
  refine Eq.trans ?_ (send_command_waits _ (fun checks t =>
    if (waitfor call (if message.qos = QOS1 then PUBACK else PUBCOMP) checks FAILURE t).1 =
        ((if message.qos = QOS1 then PUBACK else PUBCOMP : Nat) : Int) then
      conclude (.publish topicName message)
        (waitfor call (if message.qos = QOS1 then PUBACK else PUBCOMP) checks FAILURE t).2
    else (FAILURE, (waitfor call (if message.qos = QOS1 then PUBACK else PUBCOMP) checks FAILURE t).2)) s)
  simp only [mqttPublish, takes, if_true]
  by_cases least : message.qos = QOS1
  · simp only [if_pos least]
    rfl
  · simp only [if_neg least, if_pos (numbered.resolve_left least)]
    rfl

-- All four calls send their packet and wait in the same way.
theorem run_request (call : Call H σ ε) (operation : Operation H) (own : Request) (s : Sys H σ ε)
    (asked : request operation = some own) :
    runOperation call operation s =
      match sendCommand own.serialize s with
      | (none, t) => (FAILURE, t)
      | (some checks, t) =>
          if (waitfor call own.reply checks FAILURE t).1 = own.reply then
            conclude operation (waitfor call own.reply checks FAILURE t).2
          else (FAILURE, (waitfor call own.reply checks FAILURE t).2) := by
  cases operation with
  | publish topicName message => exact run_publish call topicName message own s asked
  | subscribe topicFilter qos messageHandler =>
      obtain rfl := Option.some.inj asked
      rfl
  | unsubscribe topicFilter =>
      obtain rfl := Option.some.inj asked
      rfl
  | cycle => cases asked
  | yield => cases asked
  | connect options => cases asked
  | disconnect => cases asked

theorem awaitable_other (type : Nat) (awaitable : Awaitable type) :
    ¬ type = PUBLISH ∧ ¬ (type = PUBREL ∨ type = PUBREC) ∧ ¬ type = PINGRESP ∧ type ≠ packetType FAILURE := by
  rcases awaitable with rfl | rfl | rfl | rfl <;> decide

-- What MQTTSubscribe and the others read when their wait is over.
structure Kept (s t : Sys H σ ε) : Prop where
  arrivals : t.world.arrivals = s.world.arrivals
  readbuf : t.client.readbuf = s.client.readbuf
  handlers : t.client.messageHandlers = s.client.messageHandlers

theorem keepalive_kept (n : Nat) (s : Sys H σ ε) : Kept s (keepalive n s).2 := by
  have sends : ∀ (packet : Bytes) (t : Sys H σ ε), Kept t (sendPacket n packet t).2 := by
    intro packet t
    simp only [sendPacket]
    split <;> exact ⟨rfl, rfl, rfl⟩
  have pinged := fun packet => sends packet { s with world := { s.world with pings := s.world.pings.tail } }
  simp only [keepalive]
  split
  · exact ⟨rfl, rfl, rfl⟩
  split
  · split
    · have ping := pinged (mqttSerializePingreq s.client.bufSize).2
      split
      · exact ⟨ping.arrivals, ping.readbuf, ping.handlers⟩
      · exact ⟨ping.arrivals, ping.readbuf, ping.handlers⟩
    · exact ⟨rfl, rfl, rfl⟩
  · exact ⟨rfl, rfl, rfl⟩

theorem next_is_cons (type : Nat) (s : Sys H σ ε) (next : nextIs type s = true) :
    ∃ closer unread, s.world.arrivals = closer :: unread ∧ packetType closer.rc = type := by
  cases coming : s.world.arrivals with
  | nil => simp [nextIs, coming] at next
  | cons closer unread => exact ⟨closer, unread, rfl, by simpa [nextIs, coming] using next⟩

theorem cycle_awaited (call : Call H σ ε) (type : Nat) (awaitable : Awaitable type) (s : Sys H σ ε) (closer : Arrival)
    (unread : List Arrival) (coming : s.world.arrivals = closer :: unread) (read : packetType closer.rc = type) :
    (cycle call s).1 = type ∧ Kept (s.arrive closer unread) (cycle call s).2 := by
  obtain ⟨publish, ack, ping, _⟩ := awaitable_other type awaitable
  have started : s.startCycle.world.arrivals = closer :: unread := coming
  simp only [cycle, started, read, if_neg publish, if_neg ack, if_neg ping]
  obtain ⟨arrivals, readbuf, handlers⟩ := keepalive_kept s.startCycle.cycles (s.startCycle.arrive closer unread)
  exact ⟨rfl, arrivals, readbuf, handlers⟩

theorem conclude_successful_iff (operation : Operation H) (own : Request) (asked : request operation = some own)
    (c : Client H) (reply : Arrival) (s : Sys H σ ε) (readbuf : s.client.readbuf = reply.readbuf)
    (handlers : s.client.messageHandlers = c.messageHandlers) :
    successful operation (conclude operation s).1 ↔ Accepts operation c reply := by
  cases operation with
  | publish topicName message =>
      simp only [conclude, successful, Accepts, readbuf]
      by_cases parsed : (mqttDeserializeAck reply.readbuf 0).rc = 1
      · simp [parsed]
      · simp [parsed, FAILURE, SUCCESS]
  | subscribe topicFilter qos messageHandler =>
      simp only [conclude, successful, Accepts, acceptSuback, if_pos (suback_never_refused s.client.readbuf), ← readbuf,
        ← handlers]
      cases installHandler s.client.messageHandlers topicFilter messageHandler with
      | some table => simp
      | none =>
          by_cases parsed : (mqttDeserializeSuback s.client.readbuf 0 (-1)).rc = 1
          · simp [parsed]
          · simp [parsed, SUCCESS]
  | unsubscribe topicFilter =>
      simp only [conclude, successful, Accepts]
      split
      · exact iff_of_true rfl trivial
      · exact iff_of_true rfl trivial
  | cycle => cases asked
  | yield => cases asked
  | connect options => cases asked
  | disconnect => cases asked

theorem reply_publish_rc (n : Nat) (message : MQTTMessage) (s : Sys H σ ε) :
    (replyPublish n message s).1 = PUBLISH ∨ (replyPublish n message s).1 = FAILURE := by
  simp only [replyPublish]
  by_cases most : message.qos = QOS0
  · rw [if_pos most]
    exact .inl rfl
  rw [if_neg most]
  generalize sendReply n _ s = outcome
  split
  · exact .inr rfl
  · exact .inl rfl

theorem cycle_publish_rc (call : Call H σ ε) (n : Nat) (arrival : Arrival) (s : Sys H σ ε) :
    (cyclePublish call n arrival s).1 = PUBLISH ∨ (cyclePublish call n arrival s).1 = FAILURE := by
  simp only [cyclePublish]
  split
  · exact .inl rfl
  · exact reply_publish_rc n _ _

theorem cycle_ack_rc (n type : Nat) (arrival : Arrival) (s : Sys H σ ε) :
    (cycleAck n type arrival s).1 = type ∨ (cycleAck n type arrival s).1 = FAILURE := by
  simp only [cycleAck]
  generalize sendReply n _ s = outcome
  split
  · exact .inr rfl
  split
  · exact .inr rfl
  · exact .inl rfl

theorem cycle_not_awaited (call : Call H σ ε) (type : Nat) (awaitable : Awaitable type) (s : Sys H σ ε)
    (other : nextIs type s = false) : (cycle call s).1 ≠ type := by
  obtain ⟨publish, ack, _, unread⟩ := awaitable_other type awaitable
  have failure : FAILURE ≠ (type : Int) := by
    simp only [FAILURE]
    omega
  cases coming : s.world.arrivals with
  | nil =>
      have started : s.startCycle.world.arrivals = [] := coming
      simp only [cycle, started, finishCycle]
      exact fun same => unread (Int.ofNat_inj.mp same).symm
  | cons arrival arrivals =>
      have started : s.startCycle.world.arrivals = arrival :: arrivals := coming
      have apart : packetType arrival.rc ≠ type := by simpa [nextIs, coming] using other
      simp only [cycle, started]
      by_cases publishes : packetType arrival.rc = PUBLISH
      · rw [if_pos publishes]
        rcases cycle_publish_rc call _ arrival ((s.startCycle).arrive arrival arrivals) with rc | rc
        · rw [rc]
          exact fun same => publish (Int.ofNat_inj.mp same).symm
        · rw [rc]
          exact failure
      rw [if_neg publishes]
      by_cases acks : packetType arrival.rc = PUBREL ∨ packetType arrival.rc = PUBREC
      · rw [if_pos acks]
        rcases cycle_ack_rc _ (packetType arrival.rc) arrival ((s.startCycle).arrive arrival arrivals) with rc | rc
        · rw [rc]
          exact fun same => apart (Int.ofNat_inj.mp same)
        · rw [rc]
          exact failure
      rw [if_neg acks]
      split <;> exact fun same => apart (Int.ofNat_inj.mp same)

theorem waitfor_closing (call : Call H σ ε) (type : Nat) (awaitable : Awaitable type) (checks : Nat) (rc : Int)
    (s : Sys H σ ε) (other : rc ≠ type) :
    (∃ u, closing call type checks s = some u ∧ nextIs type u = true ∧
        waitfor call type checks rc s = ((type : Int), (cycle call u).2)) ∨
      closing call type checks s = none ∧ (waitfor call type checks rc s).1 ≠ type := by
  induction checks generalizing rc s with
  | zero => exact .inr ⟨rfl, other⟩
  | succ checks ih =>
      by_cases next : nextIs type s = true
      · obtain ⟨closer, unread, coming, read⟩ := next_is_cons type s next
        have found := (cycle_awaited call type awaitable s closer unread coming read).1
        refine .inl ⟨s, by simp only [closing, if_pos next], next, ?_⟩
        simp only [waitfor, if_pos found]
        exact Prod.ext found rfl
      · have missed := cycle_not_awaited call type awaitable s (Bool.eq_false_iff.mpr next)
        simp only [closing, waitfor, if_neg next, if_neg missed]
        exact ih _ _ missed

-- Arrivals are only ever taken off the front.
def Consumes (s t : Sys H σ ε) : Prop := t.world.arrivals <:+ s.world.arrivals

theorem consumes_same (s t : Sys H σ ε) (arrivals : t.world.arrivals = s.world.arrivals) : Consumes s t := ⟨[], arrivals⟩

theorem consumes_trans (s t u : Sys H σ ε) (first : Consumes s t) (second : Consumes t u) : Consumes s u :=
  List.IsSuffix.trans second first

theorem consumes_operated : Operated (Consumes : Sys H σ ε → Sys H σ ε → Prop) where
  toCarried := carried_of_recorded Consumes (fun _ _ idle => idle.arrivals) consumes_trans
    (fun s _ => consumes_same s _ rfl) (fun s _ _ => consumes_same s _ rfl) (fun _ _ _ s _ _ => consumes_same s _ rfl)
  commanded _ _ s _ _ := consumes_same s _ rfl
  greeted _ _ s _ := consumes_same s _ rfl
  installed s _ := consumes_same s _ rfl
  raised s _ := consumes_same s _ rfl
  lowered s := consumes_same s _ rfl

theorem closing_consumes (call : Call H σ ε) (calls : ∀ fp md (t : Sys H σ ε), Consumes t (call fp md t))
    (type checks : Nat) (s u : Sys H σ ε) (closed : closing call type checks s = some u) : Consumes s u := by
  induction checks generalizing s with
  | zero => cases closed
  | succ checks ih =>
      rw [closing] at closed
      by_cases next : nextIs type s = true
      · rw [if_pos next] at closed
        exact consumes_same s u (by rw [Option.some.inj closed])
      · rw [if_neg next] at closed
        exact consumes_trans s _ u (consumes_operated.stepped call s calls) (ih _ closed)

theorem send_command_consumes (serialize : Nat → UInt16 → Int × Bytes) (s : Sys H σ ε) :
    Consumes s (sendCommand serialize s).2 := by
  have sends : ∀ (packet : Bytes) (t : Sys H σ ε), Consumes t (sendPacket 0 packet t).2 :=
    fun packet t => send_packet_carried Consumes (fun _ _ idle => idle.arrivals) consumes_trans 0 packet
      (fun _ u => consumes_same u _ rfl) t
  simp only [sendCommand]
  split
  · exact consumes_same s _ rfl
  split
  · exact consumes_same s _ rfl
  split
  · exact sends _ _
  · exact sends _ _

theorem conclude_arrivals (operation : Operation H) (s : Sys H σ ε) :
    (conclude operation s).2.world.arrivals = s.world.arrivals := by
  cases operation with
  | publish topicName message =>
      simp only [conclude]
      split <;> rfl
  | subscribe topicFilter qos messageHandler =>
      rcases accept_suback_outcome topicFilter messageHandler s with ⟨table, _, done⟩ | ⟨rc, _, done⟩
      · rw [conclude, done]
        rfl
      · rw [conclude, done]
  | unsubscribe topicFilter =>
      simp only [conclude]
      split <;> rfl
  | cycle => rfl
  | yield => rfl
  | connect options => rfl
  | disconnect => rfl

theorem read_during_append (s t : Sys H σ ε) (before : List Arrival) (arrivals : s.world.arrivals = before ++ t.world.arrivals) :
    readDuring s t = before := by
  rw [readDuring, arrivals, List.length_append, Nat.add_sub_cancel, List.take_left']
  rfl

theorem read_during_next (s u v : Sys H σ ε) (closer : Arrival) (earlier : Consumes s u)
    (next : u.world.arrivals = closer :: v.world.arrivals) : readDuring s v = readDuring s u ++ [closer] := by
  obtain ⟨before, whole⟩ := earlier
  rw [read_during_append s u before whole.symm, read_during_append s v (before ++ [closer])]
  rw [← whole, next, List.append_assoc]
  rfl

-- The packet that ends the wait is the last one the call reads.
theorem closer_read_last (call : Call H σ ε) (operation : Operation H) (own : Request)
    (asked : request operation = some own) (s u : Sys H σ ε) (earlier : Consumes s u) (next : nextIs own.reply u = true) :
    ∃ closer, u.world.arrivals.head? = some closer ∧
      readDuring s (conclude operation (cycle call u).2).2 = readDuring s u ++ [closer] ∧
      (successful operation (conclude operation (cycle call u).2).1 ↔ Accepts operation u.client closer) := by
  obtain ⟨closer, unread, coming, read⟩ := next_is_cons own.reply u next
  have kept := (cycle_awaited call own.reply (request_awaitable operation own asked) u closer unread coming read).2
  have left : (conclude operation (cycle call u).2).2.world.arrivals = unread :=
    (conclude_arrivals operation _).trans kept.arrivals
  refine ⟨closer, by rw [coming]; rfl, read_during_next s u _ closer earlier (by rw [coming, left]), ?_⟩
  exact conclude_successful_iff operation own asked u.client closer (cycle call u).2 kept.readbuf kept.handlers

theorem request_answered_iff (call : Call H σ ε) (calls : ∀ fp md (t : Sys H σ ε), Consumes t (call fp md t))
    (operation : Operation H) (own : Request) (asked : request operation = some own) (id : UInt16) (s : Sys H σ ε) :
    (successful operation (runOperation call operation s).1 →
        ∃ reply ∈ readDuring s (runOperation call operation s).2, OwnReply own.reply id reply) ↔
      ∀ checks t u closer, sendCommand own.serialize s = (some checks, t) → closing call own.reply checks t = some u →
        u.world.arrivals.head? = some closer → Accepts operation u.client closer →
          OwnReply own.reply id closer ∨ ∃ reply ∈ readDuring s u, OwnReply own.reply id reply := by
  have awaitable := request_awaitable operation own asked
  have unsuccessful := failure_unsuccessful operation
  have sent := send_command_consumes own.serialize s
  rw [run_request call operation own s asked]
  generalize sendCommand own.serialize s = outcome at sent ⊢
  obtain ⟨answer, t⟩ := outcome
  cases answer with
  | none => exact iff_of_true (fun success => absurd success unsuccessful) (fun _ _ _ _ same => nomatch same)
  | some checks =>
      have failure : FAILURE ≠ (own.reply : Int) := by
        simp only [FAILURE]
        omega
      rcases waitfor_closing call own.reply awaitable checks FAILURE t failure with ⟨u, closed, next, waited⟩ | ⟨waiting, missed⟩
      · have earlier := consumes_trans s t u sent (closing_consumes call calls own.reply checks t u closed)
        obtain ⟨closer, head, during, accepts⟩ := closer_read_last call operation own asked s u earlier next
        simp only [waited, if_true, during, accepts, List.mem_append, List.mem_singleton]
        constructor
        · rintro only checks' t' u' closer' same closed' head' success
          obtain ⟨rfl, rfl⟩ : checks = checks' ∧ t = t' := by simpa using same
          obtain rfl := Option.some.inj (closed.symm.trans closed')
          obtain rfl := Option.some.inj (head.symm.trans head')
          obtain ⟨reply, before | rfl, own⟩ := only success
          · exact .inr ⟨reply, before, own⟩
          · exact .inl own
        · intro ended success
          rcases ended checks t u closer rfl closed head success with own | ⟨reply, before, own⟩
          · exact ⟨closer, .inr rfl, own⟩
          · exact ⟨reply, .inl before, own⟩
      · simp only [if_neg missed]
        refine iff_of_true (fun success => absurd success unsuccessful) ?_
        intro checks' t' u' closer same closed'
        obtain ⟨rfl, rfl⟩ : checks = checks' ∧ t = t' := by simpa using same
        cases waiting.symm.trans closed'

theorem only_by_own_reply_iff (depth : Nat) (operation : Operation H) (s : Sys H (List (List (Operation H))) ε) :
    OnlyByOwnReply (operatedCall depth) operation s ↔ ClosedByOwnReply (operatedCall depth) operation s := by
  have calls := operated_call_carried (H := H) (ε := ε) Consumes consumes_operated (fun t => consumes_same t _ rfl) depth
  have each := fun own asked => request_answered_iff (operatedCall depth) calls operation own asked (ownId s) s
  constructor
  · exact fun only own checks t u closer asked => (each own asked).mp (only own asked) checks t u closer
  · exact fun closed own asked => (each own asked).mpr (fun checks t u closer => closed own checks t u closer asked)

def lateClient : Client Unit := { mqttClient staticClient 4096 with isconnected := true }

def leastOnce : Operation Unit := .publish [0x74] ⟨QOS1, 0, 0, [0x70]⟩

-- A first publish has timed out, and its PUBACK comes in during the second one.
def lateSystem : Sys Unit (List (List (Operation Unit))) Unit :=
  (runOperation (operatedCall 0) leastOnce
    ⟨lateClient, ⟨[arrivalOf (.ack PUBACK 0 1)], [true, true], [0, 1], []⟩, [], 0, []⟩).2

theorem late_puback_accepted : (runOperation (operatedCall 0) leastOnce lateSystem).1 = SUCCESS ∧ ownId lateSystem = 2 ∧
    ¬ OnlyByOwnReply (operatedCall 0) leastOnce lateSystem := by
  have run : (runOperation (operatedCall 0) leastOnce lateSystem).1 = SUCCESS ∧ ownId lateSystem = 2 := by decide +kernel
  have read : readDuring lateSystem (runOperation (operatedCall 0) leastOnce lateSystem).2 =
      [arrivalOf (.ack PUBACK 0 1)] := rfl
  refine ⟨run.1, run.2, fun only => ?_⟩
  obtain ⟨reply, member, own⟩ := only _ rfl run.1
  rw [read] at member
  obtain rfl := List.mem_singleton.mp member
  have id := own.packetid
  rw [run.2] at id
  exact absurd id (by decide +kernel)

end Aliot
