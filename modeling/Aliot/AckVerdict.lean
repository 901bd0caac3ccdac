import Aliot.CompressedText
import Aliot.QosTwo
import Aliot.SendResult

set_option autoImplicit false

namespace Aliot

section Call

variable (g : Gateway) (depth qos : Nat) (topic json : Bytes) (flag : Int) (s t : GatewaySys) (rc : Int)

-- A call whose send_data has returned 0: the events of its waits, its own reset, and those of send_data behind the PUBLISH.
structure Waited (events earlier : List (Event Note)) (packet : Bytes) : Prop where
  type : packet.head?.map headerType = some PUBLISH
  log : t.log = (events ++ .note (.reset s.log.length) :: earlier) ++ .sent 0 packet true :: s.log
  verdict : rc = translateHttpCode t.host.httpReturnCode
  outcome : t.host.httpReturnCode = 408 ∨ ackAccepted (g.getHmac g.secretKey json) t.host
  reflected : ∃ before, before.httpReturnCode = 408 ∧ Reflected events before t.host
  right : ReadRight events

theorem unsent_numbered (sent : Int × GatewaySys)
    (returned : sendData g (gatewayCall g depth) qos topic (signedJson g json) flag s = some sent)
    (later : List (Event Note)) (packet : Bytes) (log : sent.2.log = later ++ .sent 0 packet true :: s.log) :
    ResetFrom (s.log.length + 1) later := by
  rcases send_data_published g depth qos topic (signedJson g json) flag s sent returned with
    ⟨_, events, grown, unsent⟩ | ⟨_, before, other, _, grown, numbered⟩
  · have same : later ++ [.sent 0 packet true] = events := by
      have grown : (later ++ [.sent 0 packet true]) ++ s.log = events ++ s.log := by
        rw [← grown, log, List.append_assoc]
        rfl
      exact List.append_cancel_right grown
    obtain ⟨other, refused⟩ := unsent _ (same ▸ List.mem_append_right later (List.mem_singleton_self _))
    cases refused
  · obtain ⟨rfl, _⟩ := List.append_inj' (log.symm.trans grown) rfl
    exact numbered

theorem call_outcome_cases (ran : encodeAndSendData g (gatewayCall g depth) qos topic json flag s = some (rc, t)) :
    (rc = FAILURE ∧ ∀ later packet, t.log = later ++ .sent 0 packet true :: s.log → ResetFrom (s.log.length + 1) later) ∨
      ∃ events earlier packet, Waited g json s t rc events earlier packet := by
  obtain ⟨sent, returned, verdict⟩ := Option.map_eq_some_iff.mp ran
  have calls := tracks_call g depth
  by_cases failed : sent.1 = FAILURE
  · have unsent : sent.1 ≠ 0 := by rw [failed]; decide
    rw [awaitVerdict, if_pos unsent] at verdict
    subst verdict
    exact .inl ⟨failed, unsent_numbered g depth qos topic json flag s _ returned⟩
  · rcases send_data_published g depth qos topic (signedJson g json) flag s sent returned with
      ⟨failure, _⟩ | ⟨success | failure, earlier, packet, type, grown, _⟩
    · exact absurd failure failed
    · have zero : ¬ sent.1 ≠ 0 := not_not.mpr success
      rw [awaitVerdict, if_neg zero] at verdict
      obtain ⟨rfl, rfl⟩ := Prod.mk.inj verdict
      obtain ⟨events, log, reflected, right⟩ := wait_tracks _ calls (g.getHmac g.secretKey json) s.log.length RETRIES_FOR_ACK
        (resetReturnCode s.log.length sent.2)
      have reset : (resetReturnCode s.log.length sent.2).log = .note (.reset s.log.length) :: sent.2.log := rfl
      refine .inr ⟨events, earlier, packet, type, ?_, rfl, wait_for_ack_outcome _ _ _ _ _ rfl, ⟨_, rfl, reflected⟩, right⟩
      rw [log, reset, grown]
      simp
    · exact absurd failure failed

theorem waited_answer (events earlier : List (Event Note)) (packet : Bytes)
    (waited : Waited g json s t rc events earlier packet) (other : t.host.httpReturnCode ≠ 408) :
    ackAccepted (g.getHmac g.secretKey json) t.host ∧
      ∃ payload, events.find? isWrite = some (.note (.acked payload t.host.httpAckContext t.host.httpReturnCode)) := by
  obtain ⟨before, start, reflected⟩ := waited.reflected
  exact ⟨waited.outcome.resolve_left other, reflected_write events before t.host start reflected other⟩

-- A call that has sent its PUBLISH and returned: its result and the events behind the PUBLISH.
def Concluded (rc : Int) (later : List (Event Note)) : Prop :=
  ∃ packet t, encodeAndSendData g (gatewayCall g depth) qos topic json flag s = some (rc, t) ∧
    t.log = later ++ .sent 0 packet true :: s.log

def AcksOnly (log : List (Event Note)) : Prop :=
  ∀ payload context code, .note (.acked payload context code) ∈ log → ∃ ownContext ownCode, IsAck payload ownContext ownCode

-- Read within buf, and as one of the message not taken for a success by the lower half of its code alone.
def AckFits (hash payload context : Bytes) (code : Int) : Prop :=
  payload.length < ACK_BUF ∧ (context = hash → intOf code = 200 ∨ intOf code = 202 → code = 200 ∨ code = 202)

def AcksFit (hash : Bytes) (log : List (Event Note)) : Prop :=
  ∀ payload context code, .note (.acked payload context code) ∈ log →
    ∀ ownContext ownCode, IsAck payload ownContext ownCode → AckFits hash payload ownContext ownCode

-- ERR_OK only with an acknowledgement of the message behind its PUBLISH.
def OkAcknowledged : Prop :=
  ∀ t, encodeAndSendData g (gatewayCall g depth) qos topic json flag s = some (ERR_OK, t) → AcksOnly t.log →
    ∃ later packet payload context code, packet.head?.map headerType = some PUBLISH ∧
      t.log = later ++ .sent 0 packet true :: s.log ∧ .note (.acked payload context code) ∈ later ∧
      (IsAck payload (g.getHmac g.secretKey json) 200 ∨ IsAck payload (g.getHmac g.secretKey json) 202)

theorem ok_acknowledged
    (fit : ∀ rc later, Concluded g depth qos topic json flag s rc later → AcksFit (g.getHmac g.secretKey json) later) :
    OkAcknowledged g depth qos topic json flag s := by
  intro t ran acks
  rcases call_outcome_cases g depth qos topic json flag s t ERR_OK ran with ⟨failed, _⟩ | ⟨events, earlier, packet, waited⟩
  · cases failed
  have granted := translate_ok _ waited.verdict.symm
  obtain ⟨accepted, payload, write⟩ := waited_answer g json s t ERR_OK events earlier packet waited (by omega)
  have newest := List.mem_of_find?_eq_some write
  have later : .note (.acked payload t.host.httpAckContext t.host.httpReturnCode) ∈
      events ++ .note (.reset s.log.length) :: earlier := List.mem_append_left _ newest
  have logged := waited.log ▸ List.mem_append_left (Event.sent 0 packet true :: s.log) later
  obtain ⟨ownContext, ownCode, ack⟩ := acks payload _ _ logged
  obtain ⟨short, whole⟩ := fit _ _ ⟨packet, t, ran, waited.log⟩ payload _ _ later ownContext ownCode ack
  obtain ⟨contextEq, codeEq⟩ := waited.right payload _ _ newest short ownContext ownCode ack
  have own : ownContext = g.getHmac g.secretKey json := by
    rw [← contextEq]
    rcases accepted with ⟨_, own⟩ | ⟨internal, _⟩
    · exact own
    · omega
  subst own
  refine ⟨_, packet, payload, _, _, waited.type, waited.log, later, ?_⟩
  rcases whole rfl (codeEq ▸ granted) with rfl | rfl
  · exact .inl ack
  · exact .inr ack

def Carries (payload context : Bytes) (code : Int) : Prop :=
  IsAck payload context code ∨ ∀ prior stray, parseHttpAck (printed payload) prior stray = (context, code)

def OwnAckHanded (later : List (Event Note)) (c : Int) : Prop :=
  ∃ payload context code, .note (.acked payload context code) ∈ later ∧ Carries payload (g.getHmac g.secretKey json) c

def AckReturned : Prop :=
  ∀ rc later, Concluded g depth qos topic json flag s rc later → ∀ c, c ≠ 408 → OwnAckHanded g json later c →
    rc = translateHttpCode c

-- The newest write to the globals is an acknowledgement of the same verdict, behind the reset that the call makes itself.
def AckLast (later : List (Event Note)) (c : Int) : Prop :=
  ∃ payload context code, later.find? isWrite = some (.note (.acked payload context code)) ∧
    .note (.reset s.log.length) ∈ later ∧
    (context = g.getHmac g.secretKey json ∨ code = 500 ∧ context = ascii "PARSE_ERROR") ∧
    translateHttpCode code = translateHttpCode c

def AckKept : Prop :=
  ∀ rc later, Concluded g depth qos topic json flag s rc later → ∀ c, c ≠ 408 → OwnAckHanded g json later c →
    AckLast g json s later c

theorem translate_result (code : Int) :
    0 ≤ translateHttpCode code ∧ (translateHttpCode code = ERR_TIMED_OUT → code = 408) := by
  unfold translateHttpCode
  repeat' split
  all_goals refine ⟨by decide, fun timedOut => ?_⟩
  all_goals first | assumption | cases timedOut

-- The reset of the call itself parts its waits from what send_data has read.
theorem waited_newest (events earlier : List (Event Note)) (payload context : Bytes) (code : Int)
    (newest : (events ++ .note (.reset s.log.length) :: earlier).find? isWrite = some (.note (.acked payload context code))) :
    events.find? isWrite = some (.note (.acked payload context code)) := by
  rw [List.find?_append] at newest
  cases found : events.find? isWrite with
  | some event => rwa [found] at newest
  | none =>
      rw [found, Option.none_or] at newest
      cases newest

theorem concluded_waited (later events earlier : List (Event Note)) (packet sent : Bytes)
    (waited : Waited g json s t rc events earlier packet) (log : t.log = later ++ .sent 0 sent true :: s.log) :
    later = events ++ .note (.reset s.log.length) :: earlier :=
  (List.append_inj' (log.symm.trans waited.log) rfl).1

theorem ack_returned_iff :
    AckReturned g depth qos topic json flag s ↔ AckKept g depth qos topic json flag s := by
  constructor
  · intro returned rc later concluded c other handed
    have verdict := returned rc later concluded c other handed
    obtain ⟨sent, t, ran, log⟩ := concluded
    rcases call_outcome_cases g depth qos topic json flag s t rc ran with ⟨failed, _⟩ | ⟨events, earlier, packet, waited⟩
    · have range := (translate_result c).1
      rw [← verdict, failed] at range
      exact absurd range (by decide)
    have answered : t.host.httpReturnCode ≠ 408 := by
      intro timedOut
      have rcEq := waited.verdict
      rw [verdict, timedOut] at rcEq
      exact other ((translate_result c).2 rcEq)
    obtain ⟨accepted, payload, write⟩ := waited_answer g json s t rc events earlier packet waited answered
    obtain rfl := concluded_waited g json s t rc later events earlier packet sent waited log
    refine ⟨payload, t.host.httpAckContext, t.host.httpReturnCode, ?_, List.mem_append_right _ List.mem_cons_self, ?_,
      waited.verdict.symm.trans verdict⟩
    · rw [List.find?_append, write, Option.some_or]
    · rcases accepted with ⟨_, own⟩ | ⟨internal, parse⟩
      · exact .inl own
      · exact .inr ⟨internal, parse⟩
  · intro kept rc later concluded c other handed
    obtain ⟨payload, context, code, newest, reset, _, verdict⟩ := kept rc later concluded c other handed
    obtain ⟨sent, t, ran, log⟩ := concluded
    rcases call_outcome_cases g depth qos topic json flag s t rc ran with ⟨_, unreset⟩ | ⟨events, earlier, packet, waited⟩
    · have early := unreset later sent log _ reset
      omega
    obtain rfl := concluded_waited g json s t rc later events earlier packet sent waited log
    obtain ⟨before, _, reflected⟩ := waited.reflected
    rw [Reflected, waited_newest s events earlier payload context code newest] at reflected
    rw [waited.verdict, reflected.2, verdict]

end Call

def eventJson : Bytes := ascii "\x7b\"thing_key\":\"k\",\"data\":1\x7d"

-- The HMAC of eventJson under the key "secret".
def eventHash : Bytes := ascii "2ca8d0d26744a97069078901215daebcd800d03d1a226bfe8d15e7d0b7c78020"

def eventGateway : Gateway :=
  ⟨fun _ _ => eventHash, lzfCompressText freshScratch (lzfStart (fun _ => 0) (fun _ => 0) (fun _ => 0)), ascii "secret",
    ascii "access", ascii "c", fun _ => ⟨([], ⟨[], [], [], []⟩), ([], ⟨[], [], [], []⟩), ([], 0), ([], 0), [], 0, 0⟩⟩

def ackPayload (codeText : Bytes) : Bytes := (Json.Value.object (codeFirst eventHash codeText)).text

theorem ack_payload_is_ack (codeText : Bytes) (code : Int) (integer : Json.integer codeText = some code) :
    IsAck (ackPayload codeText) eventHash code where
  spelled := ⟨_, codeText, [], ackPayload codeText, [], by simp, Json.blank_nil, Json.blank_nil, Json.text_spells _, integer,
    .inr rfl⟩
  quotable := by decide +kernel
  short := by decide

def eventSystem (arrivals : List Inbound) (timers : List Nat) : GatewaySys where
  client := { mqttClient ⟨0, 0, fun _ => 0, 0, false, false, [], none, []⟩ 4096 with
    isconnected := true, messageHandlers := [⟨some (ascii "ack"), some .httpAck⟩] }
  world := ⟨arrivals.map arrivalOf, List.replicate 10 true, timers, []⟩
  host := ⟨-1, [], ⟨fun _ => ⟨[], [], [], [], none⟩, []⟩, []⟩
  cycles := 0
  log := []

def eventPuback : Inbound := .ack PUBACK 0 1

def eventAck (codeText : Bytes) : Inbound := .publish false false 0 (ascii "ack") 0 (ackPayload codeText)

-- The call that reads the PUBACK inside MQTTPublish and the acknowledgement in its first wait.
def acknowledgedCall (codeText : Bytes) : Option (Int × GatewaySys) :=
  encodeAndSendData eventGateway (gatewayCall eventGateway 0) 1 (ascii "event") eventJson 0
    (eventSystem [eventPuback, eventAck codeText] [1, 1])

def isAckOf (payload : Bytes) : Event Note → Bool
  | .note (.acked given _ _) => given == payload
  | _ => true

def okWithAcksOf (payload : Bytes) (outcome : Int × GatewaySys) : Bool :=
  outcome.1 == ERR_OK && outcome.2.log.all (isAckOf payload)

theorem ok_with_acks_of (payload : Bytes) (outcome : Option (Int × GatewaySys))
    (ran : outcome.any (okWithAcksOf payload) = true) :
    ∃ t, outcome = some (ERR_OK, t) ∧ ∀ given context code, .note (.acked given context code) ∈ t.log → given = payload := by
  obtain ⟨⟨rc, t⟩, rfl, met⟩ := (Option.any_eq_true _ _).mp ran
  obtain ⟨ok, acks⟩ := Bool.and_eq_true_iff.mp met
  obtain rfl := beq_iff_eq.mp ok
  exact ⟨t, rfl, fun given context code logged => beq_iff_eq.mp (List.all_eq_true.mp acks _ logged)⟩

theorem event_acknowledged :
    ∃ t later packet payload context code, acknowledgedCall (ascii "200") = some (ERR_OK, t) ∧
      packet.head?.map headerType = some PUBLISH ∧ t.log = later ++ .sent 0 packet true :: [] ∧
      .note (.acked payload context code) ∈ later ∧ (IsAck payload eventHash 200 ∨ IsAck payload eventHash 202) := by
  have ack := ack_payload_is_ack (ascii "200") 200 (by decide +kernel)
  obtain ⟨t, ran, acks⟩ := ok_with_acks_of (ackPayload (ascii "200")) (acknowledgedCall (ascii "200")) (by decide +kernel)
  obtain ⟨later, packet, payload, context, code, published⟩ :=
    ok_acknowledged eventGateway 0 1 (ascii "event") eventJson 0 (eventSystem [eventPuback, eventAck (ascii "200")] [1, 1])
      (by
        intro rc later ⟨packet, u, again, log⟩ payload context code handed ownContext ownCode own
        obtain ⟨_, rfl⟩ := Prod.mk.inj (Option.some.inj (again.symm.trans ran))
        obtain rfl := acks payload context code (log ▸ List.mem_append_left _ handed)
        obtain rfl := ack_code_unique _ _ _ _ _ own ack
        exact ⟨by decide, fun _ _ => .inl rfl⟩)
      t ran (fun payload context code logged => ⟨eventHash, 200, acks payload context code logged ▸ ack⟩)
  exact ⟨t, later, packet, payload, context, code, ran, published⟩

-- 4294967496 is 200 behind 2 ^ 32, and atoi keeps 200 of it.
theorem wide_code_taken : ¬ OkAcknowledged eventGateway 0 1 (ascii "event") eventJson 0
    (eventSystem [eventPuback, eventAck (ascii "4294967496")] [1, 1]) := by
  have ack := ack_payload_is_ack (ascii "4294967496") 4294967496 (by decide +kernel)
  obtain ⟨t, ran, acks⟩ := ok_with_acks_of (ackPayload (ascii "4294967496")) (acknowledgedCall (ascii "4294967496"))
    (by decide +kernel)
  intro acknowledged
  obtain ⟨later, packet, payload, context, code, _, log, handed, own⟩ := acknowledged t ran
    (fun payload context code logged => ⟨eventHash, 4294967496, acks payload context code logged ▸ ack⟩)
  obtain rfl := acks payload context code (log ▸ List.mem_append_left _ handed)
  rcases own with own | own
  · exact absurd (ack_code_unique _ _ _ _ _ own ack) (by decide)
  · exact absurd (ack_code_unique _ _ _ _ _ own ack) (by decide)

theorem yield_expired (call : Call Handler Host Note) (s : GatewaySys) (expired : s.world.timers = []) :
    (mqttYield call s).2 = s := by
  obtain ⟨client, ⟨arrivals, sends, timers, pings⟩, host, cycles, log⟩ := s
  obtain rfl : timers = [] := expired
  rfl

theorem wait_expired (call : Call Handler Host Note) (hash : Bytes) (caller retries : Nat) (s : GatewaySys)
    (expired : s.world.timers = []) (start : s.host.httpReturnCode = 408) :
    (waitForAck call hash caller retries s).host.httpReturnCode = 408 ∧
      ∃ resets, (waitForAck call hash caller retries s).log = resets ++ s.log := by
  induction retries generalizing s with
  | zero => exact ⟨start, [], rfl⟩
  | succ retries ih =>
      have refused : ¬ ackAccepted hash s.host := by simp [ackAccepted, start]
      obtain ⟨code, resets, log⟩ := ih (resetReturnCode caller s) expired rfl
      simp only [waitForAck, yield_expired call s expired, if_neg refused]
      exact ⟨code, resets ++ [.note (.reset caller)], by rw [log, List.append_assoc]; rfl⟩

def earlyAckSent : Int × GatewaySys :=
  mqttPublish (gatewayCall eventGateway 0) (ascii "event") ⟨1, 0, 0, signedJson eventGateway eventJson⟩
    (eventSystem [eventAck (ascii "200"), eventPuback] [2])

def eventPublish : Bytes :=
  (mqttSerializePublish 4096 0 1 0 1 (ascii "event") (signedJson eventGateway eventJson)).2

theorem early_ack_read : earlyAckSent.1 = 0 ∧ earlyAckSent.2.world.timers = [] ∧
    earlyAckSent.2.log = earlyAckSent.2.log.dropLast ++ [.sent 0 eventPublish true] ∧
    .note (.acked (ackPayload (ascii "200")) eventHash 200) ∈ earlyAckSent.2.log.dropLast := by
  decide +kernel

-- The acknowledgement is read while MQTTPublish waits for the PUBACK.
theorem early_ack_lost : ¬ AckReturned eventGateway 0 1 (ascii "event") eventJson 0
    (eventSystem [eventAck (ascii "200"), eventPuback] [2]) := by
  obtain ⟨sent, expired, published, seen⟩ := early_ack_read
  have ran : encodeAndSendData eventGateway (gatewayCall eventGateway 0) 1 (ascii "event") eventJson 0
      (eventSystem [eventAck (ascii "200"), eventPuback] [2]) =
        some (awaitVerdict eventGateway (gatewayCall eventGateway 0) eventJson 0 earlyAckSent) := rfl
  have zero : ¬ earlyAckSent.1 ≠ 0 := not_not.mpr sent
  rw [awaitVerdict, if_neg zero] at ran
  generalize earlyAckSent.2 = t at *
  obtain ⟨code, resets, log⟩ := wait_expired (gatewayCall eventGateway 0)
    (eventGateway.getHmac eventGateway.secretKey eventJson) 0 RETRIES_FOR_ACK (resetReturnCode 0 t) expired rfl
  have resetLog : (resetReturnCode 0 t).log = .note (.reset 0) :: t.log := rfl
  have start : (eventSystem [eventAck (ascii "200"), eventPuback] [2]).log = [] := rfl
  intro returned
  have rc := returned _ (resets ++ .note (.reset 0) :: t.log.dropLast) ⟨eventPublish, _, ran, ?_⟩ 200 (by decide)
    ⟨ackPayload (ascii "200"), eventHash, 200, List.mem_append_right _ (List.mem_cons_of_mem _ seen),
      .inl (ack_payload_is_ack (ascii "200") 200 (by decide +kernel))⟩
  · simp only [code] at rc
    exact absurd rc (by decide)
  · rw [log, resetLog, start, List.append_assoc, List.cons_append, ← published]

end Aliot
