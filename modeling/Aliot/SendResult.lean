import Aliot.GatewayRun

set_option autoImplicit false

namespace Aliot

def isWrite : Event Note → Bool
  | .note (.acked ..) => true
  | .note (.reset _) => true
  | _ => false

-- The newest write among these events decides what the two globals hold.
def Reflected (events : List (Event Note)) (before after : Host) : Prop :=
  match events.find? isWrite with
  | some (.note (.acked _ context code)) => after.httpAckContext = context ∧ after.httpReturnCode = code
  | some _ => after.httpReturnCode = 408
  | none => after.httpAckContext = before.httpAckContext ∧ after.httpReturnCode = before.httpReturnCode

def ReadRight (events : List (Event Note)) : Prop :=
  ∀ payload context code, .note (.acked payload context code) ∈ events → payload.length < ACK_BUF →
    ∀ ownContext ownCode, IsAck payload ownContext ownCode → context = ownContext ∧ code = intOf ownCode

def Tracks (s t : GatewaySys) : Prop :=
  ∃ events, t.log = events ++ s.log ∧ Reflected events s.host t.host ∧ ReadRight events

theorem tracks_host (s t : GatewaySys) (context : t.host.httpAckContext = s.host.httpAckContext)
    (code : t.host.httpReturnCode = s.host.httpReturnCode) (log : t.log = s.log) : Tracks s t :=
  ⟨[], log, ⟨context, code⟩, nofun⟩

theorem tracks_idle (s t : GatewaySys) (idle : Idle s t) : Tracks s t :=
  tracks_host s t (by rw [idle.host]) (by rw [idle.host]) idle.log

theorem reflected_append (newer older : List (Event Note)) (s t u : Host) (first : Reflected older s t)
    (second : Reflected newer t u) : Reflected (newer ++ older) s u := by
  unfold Reflected at *
  rw [List.find?_append]
  cases write : newer.find? isWrite with
  | some event =>
      rw [write] at second
      cases event with
      | note note => cases note <;> exact second
      | _ => exact second
  | none =>
      rw [write] at second
      simp only [Option.none_or]
      rw [second.1, second.2]
      exact first

theorem tracks_trans (s t u : GatewaySys) (first : Tracks s t) (second : Tracks t u) : Tracks s u := by
  obtain ⟨older, log, reflected, right⟩ := first
  obtain ⟨newer, grown, reflected', right'⟩ := second
  refine ⟨newer ++ older, by rw [grown, log, List.append_assoc], reflected_append newer older _ _ _ reflected reflected', ?_⟩
  intro payload context code seen
  rcases List.mem_append.mp seen with late | early
  · exact right' payload context code late
  · exact right payload context code early

theorem tracks_record (s : GatewaySys) (event : Event Note) (client : isWrite event = false) : Tracks s (s.record event) := by
  refine ⟨[event], rfl, ?_, ?_⟩
  · simp only [Reflected, List.find?_cons, client, List.find?_nil]
    exact ⟨rfl, rfl⟩
  · intro payload context code seen
    obtain rfl := List.mem_singleton.mp seen
    cases client

theorem tracks_carried : Carried Tracks := by
  apply carried_of_recorded Tracks tracks_idle tracks_trans
  · exact fun s table => tracks_host s _ rfl rfl rfl
  · intro s event client
    apply tracks_record
    cases event with
    | note note => exact client.elim
    | _ => rfl
  · exact fun n packet ok s _ _ => tracks_record s (.sent n packet ok) rfl

theorem tracks_reset (caller : Nat) (s : GatewaySys) : Tracks s (resetReturnCode caller s) := by
  refine ⟨[.note (.reset caller)], rfl, rfl, ?_⟩
  intro payload context code seen
  cases List.mem_singleton.mp seen

theorem tracks_ack_stored (payload : Bytes) (globals : Bytes × Int) (s : GatewaySys)
    (right : payload.length < ACK_BUF → ∀ context code, IsAck payload context code → globals = (context, intOf code)) :
    Tracks s (ackStored payload globals s) := by
  refine ⟨[.note (.acked payload globals.1 globals.2)], rfl, ⟨rfl, rfl⟩, ?_⟩
  intro other context code seen short ownContext ownCode ack
  injection List.mem_singleton.mp seen with seen
  injection seen with payloadEq contextEq codeEq
  subst payloadEq
  rw [contextEq, codeEq, right short ownContext ownCode ack]
  exact ⟨rfl, rfl⟩

theorem tracks_ack (g : Gateway) (md : MessageData) (s : GatewaySys) : Tracks s (handleHttpAck g md s) := by
  refine tracks_ack_stored _ _ s (fun short context code ack => ?_)
  obtain ⟨_, _, whole, _⟩ := ack_read _ context code ack
  rw [if_pos (by rw [whole]; exact short)]
  exact ack_parsed _ context code _ _ ack

theorem tracks_gateway : GatewayCarried Tracks where
  toCarried := tracks_carried
  reset s t before := tracks_trans s t _ before (tracks_reset s.log.length t)
  acked := tracks_ack
  handled _ s := tracks_record s _ rfl
  scripted s := tracks_host s _ rfl rfl rfl

theorem tracks_call (g : Gateway) (depth : Nat) (handler : Handler) (md : MessageData) (s : GatewaySys) :
    Tracks s (gatewayCall g depth handler md s) :=
  gateway_call_carried Tracks tracks_gateway g depth handler md s

theorem wait_tracks (call : Call Handler Host Note) (calls : ∀ handler md s, Tracks s (call handler md s)) (hash : Bytes)
    (caller retries : Nat) (s : GatewaySys) : Tracks s (waitForAck call hash caller retries s) := by
  induction retries generalizing s with
  | zero => exact tracks_idle s s (idle_refl s)
  | succ retries ih =>
      have yielded := mqtt_yield_carried Tracks tracks_carried call calls s
      simp only [waitForAck]
      split
      · exact yielded
      · exact tracks_trans _ _ _ yielded (tracks_trans _ _ _ (tracks_reset caller _) (ih _))

-- Resets by calls that began when the log had at least so many events.
def ResetFrom (start : Nat) (events : List (Event Note)) : Prop := ∀ caller, .note (.reset caller) ∈ events → start ≤ caller

def Numbered (s t : GatewaySys) : Prop := ∃ events, t.log = events ++ s.log ∧ ResetFrom s.log.length events

theorem numbered_trans (s t u : GatewaySys) (first : Numbered s t) (second : Numbered t u) : Numbered s u := by
  obtain ⟨older, log, from_start⟩ := first
  obtain ⟨newer, grown, later⟩ := second
  refine ⟨newer ++ older, by rw [grown, log, List.append_assoc], fun caller seen => ?_⟩
  rcases List.mem_append.mp seen with late | early
  · have bound := later caller late
    rw [log, List.length_append] at bound
    omega
  · exact from_start caller early

theorem numbered_record (s : GatewaySys) (event : Event Note) (other : ∀ caller, event ≠ .note (.reset caller)) :
    Numbered s (s.record event) :=
  ⟨[event], rfl, fun caller seen => absurd (List.mem_singleton.mp seen).symm (other caller)⟩

theorem numbered_carried : Carried Numbered := by
  apply carried_of_recorded Numbered (fun s t idle => ⟨[], idle.log, nofun⟩) numbered_trans
  · exact fun s table => ⟨[], rfl, nofun⟩
  · intro s event client
    apply numbered_record
    rintro caller rfl
    exact client.elim
  · exact fun n packet ok s _ _ => numbered_record s (.sent n packet ok) nofun

theorem numbered_gateway : GatewayCarried Numbered where
  toCarried := numbered_carried
  reset s t before := by
    obtain ⟨events, log, numbered⟩ := before
    refine ⟨.note (.reset s.log.length) :: events, congrArg (_ :: ·) log, fun caller seen => ?_⟩
    rcases List.mem_cons.mp seen with own | earlier
    · cases own
      exact Nat.le_refl _
    · exact numbered caller earlier
  acked g md s := numbered_record _ _ nofun
  handled _ s := numbered_record s _ nofun
  scripted s := ⟨[], rfl, nofun⟩

theorem wait_for_ack_outcome (call : Call Handler Host Note) (hash : Bytes) (caller retries : Nat) (s : GatewaySys)
    (start : s.host.httpReturnCode = 408) :
    (waitForAck call hash caller retries s).host.httpReturnCode = 408 ∨
      ackAccepted hash (waitForAck call hash caller retries s).host := by
  induction retries generalizing s with
  | zero => exact .inl start
  | succ retries ih =>
      by_cases accepted : ackAccepted hash (mqttYield call s).2.host
      · simp only [waitForAck, if_pos accepted]
        exact .inr accepted
      · simp only [waitForAck, if_neg accepted]
        exact ih _ rfl

-- A code other than 408 behind a reset is that of the newest write, an acknowledgement.
theorem reflected_write (events : List (Event Note)) (before after : Host) (start : before.httpReturnCode = 408)
    (reflected : Reflected events before after) (other : after.httpReturnCode ≠ 408) :
    ∃ payload, events.find? isWrite = some (.note (.acked payload after.httpAckContext after.httpReturnCode)) := by
  unfold Reflected at reflected
  split at reflected
  · rename_i payload context code write
    rw [reflected.1, reflected.2]
    exact ⟨payload, write⟩
  · exact absurd reflected other
  · exact absurd (reflected.2.trans start) other

theorem translate_ok (code : Int) (ok : translateHttpCode code = ERR_OK) : code = 200 ∨ code = 202 := by
  unfold translateHttpCode at ok
  split at ok
  · assumption
  · repeat' split at ok
    all_goals cases ok

-- The PUBLISH is the first event of a send_data that sends it, and the call itself resets nothing in it.
theorem send_data_published (g : Gateway) (depth qos : Nat) (topic data : Bytes) (flag : Int) (s : GatewaySys)
    (sent : Int × GatewaySys) (returned : sendData g (gatewayCall g depth) qos topic data flag s = some sent) :
    (sent.1 = FAILURE ∧ ∃ events, sent.2.log = events ++ s.log ∧ ∀ event ∈ events, ∃ packet, event = .sent 0 packet false) ∨
      (sent.1 = SUCCESS ∨ sent.1 = FAILURE) ∧ ∃ later packet, packet.head?.map headerType = some PUBLISH ∧
        sent.2.log = later ++ .sent 0 packet true :: s.log ∧ ResetFrom (s.log.length + 1) later := by
  obtain ⟨topicName, message, rfl⟩ := send_data_returned g _ qos topic data flag s sent returned
  rcases mqtt_publish_outcome (gatewayCall g depth) topicName message s with ⟨t, idle, failed⟩ | ⟨t, packet, idle, _, type, outcome⟩
  · rw [failed]
    exact .inl ⟨rfl, [], idle.log, nofun⟩
  have log : ∀ ok, (t.record (.sent 0 packet ok)).log = .sent 0 packet ok :: s.log :=
    fun ok => congrArg (_ :: ·) idle.log
  rcases outcome with failed | unacknowledged | ⟨awaited, checks, waited⟩
  · rw [failed]
    exact .inl ⟨rfl, [.sent 0 packet false], log false, fun event listed => ⟨packet, List.mem_singleton.mp listed⟩⟩
  · rw [unacknowledged]
    exact .inr ⟨.inl rfl, [], packet, type, log true, nofun⟩
  · obtain ⟨events, grown, numbered⟩ := waitfor_carried Numbered numbered_carried _
      (gateway_call_carried Numbered numbered_gateway g depth) awaited checks FAILURE (t.record (.sent 0 packet true))
    rw [log, List.length_cons] at numbered
    rw [waited]
    exact .inr ⟨await_ack_result _ awaited checks _, events, packet, type, by rw [await_ack_state, grown, log], numbered⟩

end Aliot
