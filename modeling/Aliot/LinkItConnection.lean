import Aliot.LinkItPort

set_option autoImplicit false

namespace Aliot.LinkIt

def UIP_CONNS : Nat := 6

inductive UipState where
  | closed
  | synRcvd
  | synSent
  | established
  | finWait1
  | finWait2
  | closing
  | timeWait
  | lastAck
deriving DecidableEq

-- An entry of uip_conns; the timer tells how long it has been in TIME_WAIT.
structure UipConn where
  tcpstateflags : UipState
  timer : Nat
  lport : Nat
deriving DecidableEq

structure Stack where
  uipConns : List UipConn
  myHttpPort : Nat
  readyFlag : Bool
deriving DecidableEq

-- The first closed entry, or else the one that has been in TIME_WAIT for the longest time.
def findUnused : List UipConn → Nat → Option (Nat × Nat) → Option Nat
  | [], _, conn => conn.map Prod.fst
  | cconn :: conns, c, conn =>
      if cconn.tcpstateflags = .closed then some c
      else if cconn.tcpstateflags = .timeWait ∧ conn.all (fun found => found.2 < cconn.timer) = true then
        findUnused conns (c + 1) (some (c, cconn.timer))
      else findUnused conns (c + 1) conn

-- The entry that uip_connect takes, none for NULL; the port it gives out is overwritten by its caller.
def uipConnect (conns : List UipConn) : Option Nat := findUnused conns 0 none

-- `times` are the results of iot_get_ms_time; none stands for a loop that has not found a port yet.
def pickPort (conns : List UipConn) : List Nat → Option Nat
  | [] => none
  | time :: times =>
      if conns.any (fun poll => poll.lport = time % 65536) then pickPort conns times else some (time % 65536)

-- What uip_process does to the connection of an entry that is in use.
inductive ConnEvent where
  | connected
  | fin
  | finAcked
  | reset
  | timedOut
deriving DecidableEq

def UipConn.isOpen (conn : UipConn) : Bool :=
  conn.tcpstateflags = .synSent || conn.tcpstateflags = .synRcvd || conn.tcpstateflags = .established

namespace Stack

def withConn (s : Stack) (c : Nat) (conn : UipConn) : Stack := { s with uipConns := s.uipConns.set c conn }

def appInitConnection (s : Stack) (times : List Nat) : Option (Int × Stack) :=
  match uipConnect s.uipConns with
  | none => some (0, s)
  | some c =>
      let s := s.withConn c ⟨.synSent, 1, 8888⟩
      (pickPort s.uipConns times).map (fun port => (1, { s.withConn c ⟨.synSent, 1, port⟩ with myHttpPort := port }))

-- The lines of encode_and_send_data on the connection; the result of app_init_connection is not looked at.
def encodeAndSendData (s : Stack) (times : List Nat) : Option Stack :=
  if s.readyFlag then some s
  else (s.appInitConnection times).map (fun (_, s) => { s with readyFlag := true })

def connectionClosed (s : Stack) : Stack := { s with readyFlag := false }

-- app_handle_connection is called for the connection of MyHttpPort only, and does not ask for uip_timedout.
def iotTcpAppcall (flags : Flags) (lport : Nat) (s : Stack) : Stack :=
  if lport = s.myHttpPort ∧ (flags.aborted || flags.closed) = true then s.connectionClosed else s

def uipProcess (event : ConnEvent) (c : Nat) (conn : UipConn) (s : Stack) : Stack :=
  match event with
  | .connected =>
      if conn.tcpstateflags = .synSent ∨ conn.tcpstateflags = .synRcvd then
        (s.withConn c { conn with tcpstateflags := .established }).iotTcpAppcall ⟨false, false, false, true, false⟩ conn.lport
      else s
  | .fin =>
      if conn.tcpstateflags = .established then
        (s.iotTcpAppcall ⟨false, false, true, false, false⟩ conn.lport).withConn c { conn with tcpstateflags := .lastAck }
      else s
  | .finAcked =>
      if conn.tcpstateflags = .lastAck then
        (s.withConn c { conn with tcpstateflags := .closed }).iotTcpAppcall ⟨false, false, true, false, false⟩ conn.lport
      else s
  | .reset =>
      if conn.tcpstateflags = .closed then s
      else (s.withConn c { conn with tcpstateflags := .closed }).iotTcpAppcall ⟨false, true, false, false, false⟩ conn.lport
  | .timedOut =>
      if conn.tcpstateflags = .closed ∨ conn.tcpstateflags = .timeWait ∨ conn.tcpstateflags = .finWait2 then s
      else (s.withConn c { conn with tcpstateflags := .closed }).iotTcpAppcall ⟨false, false, false, false, false⟩ conn.lport

def owns (s : Stack) (c : Nat) : Bool :=
  (s.uipConns[c]?).any (fun conn => conn.isOpen && decide (conn.lport = s.myHttpPort))

end Stack

-- `other` is whatever peers and other applications do to the remaining entries: they open, change and close connections.
inductive StackStep where
  | call (times : List Nat)
  | process (event : ConnEvent) (c : Nat)
  | other (c : Nat) (conn : UipConn)

namespace Stack

def step : StackStep → Stack → Option Stack
  | .call times, s => s.encodeAndSendData times
  | .process event c, s => some (match s.uipConns[c]? with
      | none => s
      | some conn => s.uipProcess event c conn)
  | .other c conn, s => some (if s.owns c then s else s.withConn c conn)

def run : List StackStep → Stack → Option Stack
  | [], s => some s
  | event :: events, s => (step event s).bind (run events)

-- iot_tcp_app_init, after uip_init has closed all entries.
def started (times : List Nat) : Option Stack :=
  ((Stack.mk (List.replicate UIP_CONNS ⟨.closed, 0, 0⟩) 0 true).appInitConnection times).map Prod.snd

-- A connection, open or being opened, on whose polls a request is sent.
def Polled (s : Stack) : Prop := ∃ c, s.owns c = true

def ConnectionKept (s : Stack) : Prop := s.readyFlag = true → s.Polled

def StepConnects (s : Stack) : StackStep → Prop
  | .call _ => s.readyFlag = false → ∃ conn ∈ s.uipConns, conn.tcpstateflags = .closed ∨ conn.tcpstateflags = .timeWait
  | .process .timedOut c => s.owns c = false
  | _ => True

def RunConnects (s : Stack) : List StackStep → Prop
  | [] => True
  | event :: events => s.StepConnects event ∧ ∀ t, step event s = some t → RunConnects t events

end Stack

def TcpState.slot : TcpState → UipState
  | .closed => .closed
  | .synSent => .synSent
  | .established => .established
  | .lastAck => .lastAck

def ConnEvent.uipEvent (mss : Nat) : ConnEvent → UipEvent
  | .connected => .synAck mss
  | .fin => .fin false false
  | .finAcked => .finAcked
  | .reset => .reset
  | .timedOut => .timedOut

structure Shows (p : Port) (s : Stack) (c : Nat) : Prop where
  ready : p.readyFlag = s.readyFlag
  entry : ∃ conn, s.uipConns[c]? = some conn ∧ conn.lport = s.myHttpPort ∧ conn.tcpstateflags = p.uipConn.tcpstateflags.slot

theorem find_unused_within (conns : List UipConn) (c : Nat) (conn : Option (Nat × Nat))
    (earlier : ∀ found, conn = some found → found.1 < c) :
    ∀ found, findUnused conns c conn = some found → found < c + conns.length := by
  induction conns generalizing c conn with
  | nil =>
      intro found taken
      obtain ⟨best, same, rfl⟩ := Option.map_eq_some_iff.mp taken
      have bound := earlier best same
      simpa using bound
  | cons cconn conns ih =>
      intro found taken
      rw [findUnused] at taken
      rw [List.length_cons]
      split at taken
      · have same := Option.some.inj taken
        omega
      split at taken
      · have later := ih (c + 1) (some (c, cconn.timer)) (fun best same => by cases same; exact Nat.lt_succ_self c) found taken
        omega
      · have later := ih (c + 1) conn (fun best same => Nat.lt_succ_of_lt (earlier best same)) found taken
        omega

theorem find_unused_found (conns : List UipConn) (c : Nat) (conn : Option (Nat × Nat))
    (unused : conn.isSome ∨ ∃ cconn ∈ conns, cconn.tcpstateflags = .closed ∨ cconn.tcpstateflags = .timeWait) :
    ∃ found, findUnused conns c conn = some found := by
  induction conns generalizing c conn with
  | nil =>
      rcases unused with taken | ⟨_, none, _⟩
      · obtain ⟨best, rfl⟩ := Option.isSome_iff_exists.mp taken
        exact ⟨best.1, rfl⟩
      · cases none
  | cons cconn conns ih =>
      rw [findUnused]
      split
      · exact ⟨c, rfl⟩
      rename_i busy
      split
      · exact ih (c + 1) _ (.inl rfl)
      rename_i kept
      apply ih (c + 1) conn
      rcases unused with taken | ⟨free, listed, state⟩
      · exact .inl taken
      · rcases List.mem_cons.mp listed with rfl | later
        · have waits := state.resolve_left busy
          cases conn with
          | some best => exact .inl rfl
          | none => exact absurd ⟨waits, rfl⟩ kept
        · exact .inr ⟨free, later, state⟩

theorem uip_connect_found (conns : List UipConn)
    (unused : ∃ conn ∈ conns, conn.tcpstateflags = .closed ∨ conn.tcpstateflags = .timeWait) :
    ∃ c, uipConnect conns = some c ∧ c < conns.length := by
  obtain ⟨c, found⟩ := find_unused_found conns 0 none (.inr unused)
  have within := find_unused_within conns 0 none (fun _ none => by cases none) c found
  exact ⟨c, found, by omega⟩

namespace Stack

theorem owns_of_conn (s : Stack) (c : Nat) (conn : UipConn) (found : s.uipConns[c]? = some conn) :
    s.owns c = (conn.isOpen && decide (conn.lport = s.myHttpPort)) := by
  rw [owns, found, Option.any_some]

-- An entry is written without loss if it held no open connection of MyHttpPort, or holds one afterwards.
theorem polled_with_conn (s : Stack) (c : Nat) (conn : UipConn) (polled : s.Polled)
    (harmless : s.owns c = false ∨ (conn.isOpen && decide (conn.lport = s.myHttpPort)) = true) : (s.withConn c conn).Polled := by
  obtain ⟨kept, held⟩ := polled
  by_cases same : kept = c
  · subst same
    have replaced := harmless.resolve_left (by simp [held])
    have within : kept < s.uipConns.length := by
      by_contra outside
      rw [owns, List.getElem?_eq_none (Nat.le_of_not_lt outside)] at held
      cases held
    refine ⟨kept, ?_⟩
    rw [owns_of_conn _ kept conn (by rw [withConn, List.getElem?_set_self within])]
    exact replaced
  · refine ⟨kept, ?_⟩
    rw [owns, withConn, List.getElem?_set_ne (Ne.symm same)]
    exact held

theorem connected_polled (s t : Stack) (times : List Nat) (rc : Int)
    (unused : ∃ conn ∈ s.uipConns, conn.tcpstateflags = .closed ∨ conn.tcpstateflags = .timeWait)
    (connected : s.appInitConnection times = some (rc, t)) : t.Polled := by
  obtain ⟨c, found, within⟩ := uip_connect_found s.uipConns unused
  simp only [appInitConnection, found] at connected
  obtain ⟨port, _, same⟩ := Option.map_eq_some_iff.mp connected
  obtain ⟨_, rfl⟩ := Prod.mk.inj same
  refine ⟨c, ?_⟩
  rw [owns_of_conn _ c ⟨.synSent, 1, port⟩ (by
    rw [withConn, withConn, List.getElem?_set_self (by rwa [List.length_set])])]
  simp [UipConn.isOpen]

theorem call_keeps (s t : Stack) (times : List Nat) (kept : s.ConnectionKept) (connects : s.StepConnects (.call times))
    (called : s.encodeAndSendData times = some t) : t.ConnectionKept := by
  cases ready : s.readyFlag with
  | true =>
      rw [encodeAndSendData, ready, if_pos rfl] at called
      obtain rfl := Option.some.inj called
      exact kept
  | false =>
      rw [encodeAndSendData, ready, if_neg Bool.false_ne_true] at called
      obtain ⟨⟨rc, u⟩, connected, rfl⟩ := Option.map_eq_some_iff.mp called
      exact fun _ => connected_polled s u times rc (connects ready) connected

theorem appcall_with_conn (s : Stack) (flags : Flags) (lport c : Nat) (conn : UipConn) :
    (s.iotTcpAppcall flags lport).withConn c conn = (s.withConn c conn).iotTcpAppcall flags lport := by
  by_cases told : lport = s.myHttpPort ∧ (flags.aborted || flags.closed) = true
  · simp only [iotTcpAppcall, withConn, connectionClosed, told, and_self, if_true]
  · simp only [iotTcpAppcall, withConn, told, if_false]

-- All but a timeout tell the application what has become of the connection.
theorem process_cases (event : ConnEvent) (s : Stack) (c : Nat) (conn : UipConn) :
    s.uipProcess event c conn = s ∨ conn.tcpstateflags ≠ .closed ∧ ∃ changed flags, changed.lport = conn.lport ∧
      s.uipProcess event c conn = (s.withConn c changed).iotTcpAppcall flags conn.lport ∧
      (event = .timedOut ∨ changed.isOpen = true ∨ (flags.aborted || flags.closed) = true) := by
  cases event with
  | connected =>
      simp only [uipProcess]
      split
      · rename_i opening
        refine .inr ⟨fun closed => by simp [closed] at opening, { conn with tcpstateflags := .established },
          ⟨false, false, false, true, false⟩, rfl, rfl, .inr (.inl ?_)⟩
        simp [UipConn.isOpen]
      · exact .inl rfl
  | fin =>
      simp only [uipProcess]
      split
      · rename_i established
        refine .inr ⟨by simp [established], { conn with tcpstateflags := .lastAck }, ⟨false, false, true, false, false⟩, rfl,
          appcall_with_conn s _ _ c _, .inr (.inr rfl)⟩
      · exact .inl rfl
  | finAcked =>
      simp only [uipProcess]
      split
      · rename_i last
        exact .inr ⟨by simp [last], { conn with tcpstateflags := .closed }, ⟨false, false, true, false, false⟩, rfl, rfl,
          .inr (.inr rfl)⟩
      · exact .inl rfl
  | reset =>
      simp only [uipProcess]
      split
      · exact .inl rfl
      · rename_i used
        exact .inr ⟨used, { conn with tcpstateflags := .closed }, ⟨false, true, false, false, false⟩, rfl, rfl, .inr (.inr rfl)⟩
  | timedOut =>
      simp only [uipProcess]
      split
      · exact .inl rfl
      · rename_i used
        exact .inr ⟨fun closed => used (.inl closed), { conn with tcpstateflags := .closed }, ⟨false, false, false, false, false⟩,
          rfl, rfl, .inl trivial⟩

-- A close or an abort of a connection of MyHttpPort is reported; other connections do not matter.
theorem reported_keeps (s : Stack) (c : Nat) (conn changed : UipConn) (flags : Flags) (found : s.uipConns[c]? = some conn)
    (port : changed.lport = conn.lport) (kept : s.ConnectionKept)
    (reported : s.owns c = true → changed.isOpen = true ∨ (flags.aborted || flags.closed) = true) :
    ((s.withConn c changed).iotTcpAppcall flags conn.lport).ConnectionKept := by
  by_cases told : conn.lport = s.myHttpPort ∧ (flags.aborted || flags.closed) = true
  · have closed : (s.withConn c changed).iotTcpAppcall flags conn.lport = (s.withConn c changed).connectionClosed := if_pos told
    rw [closed]
    exact fun ready => by cases ready
  · have untold : (s.withConn c changed).iotTcpAppcall flags conn.lport = s.withConn c changed := if_neg told
    rw [untold]
    intro ready
    refine polled_with_conn s c changed (kept ready) ?_
    cases mine : s.owns c with
    | false => exact .inl rfl
    | true =>
        rw [owns_of_conn s c conn found, Bool.and_eq_true] at mine
        have own := of_decide_eq_true mine.2
        have still := (reported (by rw [owns_of_conn s c conn found, Bool.and_eq_true]; exact mine)).resolve_right
          (fun flagged => told ⟨own, flagged⟩)
        exact .inr (by simp [still, port, own])

theorem process_keeps (event : ConnEvent) (s : Stack) (c : Nat) (conn : UipConn) (found : s.uipConns[c]? = some conn)
    (kept : s.ConnectionKept) (connects : s.StepConnects (.process event c)) :
    (s.uipProcess event c conn).ConnectionKept := by
  rcases process_cases event s c conn with same | ⟨_, changed, flags, port, outcome, told⟩
  · rwa [same]
  rw [outcome]
  refine reported_keeps s c conn changed flags found port kept fun mine => ?_
  rcases told with rfl | told
  · exact absurd (connects.symm.trans mine) Bool.false_ne_true
  · exact told

theorem step_keeps (event : StackStep) (s t : Stack) (kept : s.ConnectionKept) (connects : s.StepConnects event)
    (stepped : step event s = some t) : t.ConnectionKept := by
  cases event with
  | call times => exact call_keeps s t times kept connects stepped
  | process event c =>
      obtain rfl := Option.some.inj stepped
      cases found : s.uipConns[c]? with
      | none => exact kept
      | some conn => exact process_keeps event s c conn found kept connects
  | other c conn =>
      obtain rfl := Option.some.inj stepped
      cases mine : s.owns c with
      | true => exact kept
      | false => exact fun ready => polled_with_conn s c conn (kept ready) (.inl mine)

theorem run_keeps (events : List StackStep) (s t : Stack) (kept : s.ConnectionKept) (connects : s.RunConnects events)
    (ran : run events s = some t) : t.ConnectionKept := by
  induction events generalizing s with
  | nil =>
      obtain rfl := Option.some.inj ran
      exact kept
  | cons event events ih =>
      obtain ⟨u, stepped, later⟩ := Option.bind_eq_some_iff.mp ran
      exact ih u (step_keeps event s u kept connects.1 stepped) (connects.2 u stepped) later

theorem run_connects_take (events : List StackStep) (s : Stack) (n : Nat) (connects : s.RunConnects events) :
    s.RunConnects (events.take n) := by
  induction events generalizing s n with
  | nil => rwa [List.take_nil]
  | cons event events ih =>
      cases n with
      | zero => trivial
      | succ n => exact ⟨connects.1, fun t stepped => ih t n (connects.2 t stepped)⟩

-- uip_init leaves all entries closed, so the first app_init_connection finds one.
theorem started_polled (times : List Nat) (s : Stack) (start : started times = some s) : s.Polled := by
  obtain ⟨⟨rc, t⟩, connected, rfl⟩ := Option.map_eq_some_iff.mp start
  exact connected_polled _ t times rc ⟨_, List.mem_cons_self, .inl rfl⟩ connected

theorem ready_connection_kept (times : List Nat) (s : Stack) (events : List StackStep) (start : started times = some s)
    (connects : s.RunConnects events) : ∀ n t, run (events.take n) s = some t → t.ConnectionKept :=
  fun n t ran => run_keeps (events.take n) s t (fun _ => started_polled times s start) (run_connects_take events s n connects) ran

def afterStart : Stack := ⟨⟨.synSent, 1, 5000⟩ :: List.replicate 5 ⟨.closed, 0, 0⟩, 5000, true⟩

def reconnecting : List StackStep := [.process .connected 0, .process .fin 0, .call [6000]]

-- The old entry waits for its last ACK while the next one gets the new connection.
def reconnected : Stack := ⟨[⟨.lastAck, 1, 5000⟩, ⟨.synSent, 1, 6000⟩] ++ List.replicate 4 ⟨.closed, 0, 0⟩, 6000, true⟩

theorem reconnecting_connects : afterStart.RunConnects reconnecting := by
  refine ⟨trivial, fun t first => ⟨trivial, fun u second => ⟨fun _ => ?_, fun _ _ => trivial⟩⟩⟩
  obtain rfl := Option.some.inj first
  obtain rfl := Option.some.inj second
  exact ⟨⟨.closed, 0, 0⟩, by decide, .inl rfl⟩

theorem reconnected_kept : run reconnecting afterStart = some reconnected ∧ reconnected.ConnectionKept :=
  ⟨rfl, ready_connection_kept [5000] afterStart reconnecting rfl reconnecting_connects 3 reconnected rfl⟩

-- encode_and_send_data takes the connection for ready, and there is none.
def Lost (s : Stack) : Prop :=
  s.readyFlag = true ∧ ∀ conn ∈ s.uipConns, conn.lport = s.myHttpPort → conn.tcpstateflags = .closed

theorem lost_not_kept (s : Stack) (lost : s.Lost) : ¬ s.ConnectionKept := by
  intro kept
  obtain ⟨c, held⟩ := kept lost.1
  cases found : s.uipConns[c]? with
  | none =>
      rw [owns, found] at held
      cases held
  | some conn =>
      rw [owns_of_conn s c conn found, Bool.and_eq_true] at held
      have closed := lost.2 conn (List.mem_of_getElem? found) (of_decide_eq_true held.2)
      simp [UipConn.isOpen, closed] at held

theorem lost_with_conn (s : Stack) (c : Nat) (conn : UipConn) (lost : s.Lost) (foreign : conn.lport ≠ s.myHttpPort) :
    (s.withConn c conn).Lost := by
  refine ⟨lost.1, fun other listed same => ?_⟩
  rcases List.mem_or_eq_of_mem_set listed with before | rfl
  · exact lost.2 other before same
  · exact absurd same foreign

theorem lost_process (event : ConnEvent) (s : Stack) (c : Nat) (conn : UipConn) (found : s.uipConns[c]? = some conn)
    (lost : s.Lost) : (s.uipProcess event c conn).Lost ∧ (s.uipProcess event c conn).myHttpPort = s.myHttpPort := by
  rcases process_cases event s c conn with same | ⟨used, changed, flags, port, outcome, _⟩
  · rw [same]
    exact ⟨lost, rfl⟩
  have foreign : conn.lport ≠ s.myHttpPort := fun own => used (lost.2 conn (List.mem_of_getElem? found) own)
  have unheard : (s.withConn c changed).iotTcpAppcall flags conn.lport = s.withConn c changed := if_neg fun told => foreign told.1
  rw [outcome, unheard]
  exact ⟨lost_with_conn s c changed lost (port ▸ foreign), rfl⟩

-- No call and no event brings a lost connection back, unless someone else opens one of the same port.
theorem lost_stays (events : List StackStep) (s t : Stack) (lost : s.Lost)
    (foreign : ∀ c conn, .other c conn ∈ events → conn.lport ≠ s.myHttpPort) (ran : run events s = some t) : t.Lost := by
  induction events generalizing s with
  | nil =>
      obtain rfl := Option.some.inj ran
      exact lost
  | cons event events ih =>
      obtain ⟨u, stepped, later⟩ := Option.bind_eq_some_iff.mp ran
      have kept : u.Lost ∧ u.myHttpPort = s.myHttpPort := by
        cases event with
        | call times =>
            have same : s.encodeAndSendData times = some s := by rw [encodeAndSendData, lost.1, if_pos rfl]
            obtain rfl := Option.some.inj (same.symm.trans stepped)
            exact ⟨lost, rfl⟩
        | process event c =>
            obtain rfl := Option.some.inj stepped
            cases found : s.uipConns[c]? with
            | none => exact ⟨lost, rfl⟩
            | some conn => exact lost_process event s c conn found lost
        | other c conn =>
            obtain rfl := Option.some.inj stepped
            cases mine : s.owns c with
            | true => exact ⟨lost, rfl⟩
            | false => exact ⟨lost_with_conn s c conn lost (foreign c conn List.mem_cons_self), rfl⟩
      exact ih u kept.1 (fun c conn listed => kept.2 ▸ foreign c conn (List.mem_cons_of_mem _ listed)) later

def inbound : UipConn := ⟨.established, 0, 7681⟩

-- The peer resets the connection while the other five entries are in use; a sixth peer takes the free entry.
def failedReconnect : List StackStep :=
  [.other 1 inbound, .other 2 inbound, .other 3 inbound, .other 4 inbound, .other 5 inbound, .process .reset 0, .other 0 inbound,
    .call []]

def withoutConnection : Stack := ⟨List.replicate 6 inbound, 5000, true⟩

theorem failed_reconnect_unpolled :
    started [5000] = some afterStart ∧ run failedReconnect afterStart = some withoutConnection ∧
      ¬ withoutConnection.ConnectionKept ∧
      ∀ events t, (∀ c conn, .other c conn ∈ events → conn.lport ≠ 5000) → run events withoutConnection = some t →
        ¬ t.ConnectionKept := by
  have lost : withoutConnection.Lost := ⟨rfl, by decide⟩
  exact ⟨rfl, by decide, lost_not_kept _ lost, fun events t foreign ran => lost_not_kept t (lost_stays events _ t lost foreign ran)⟩

theorem slot_eq (state other : TcpState) : state.slot = other.slot ↔ state = other := by
  cases state <;> cases other <;> simp [TcpState.slot]

theorem app_ready (flags : Flags) (expired : Bool) (p : Port) :
    (appHandleConnection flags expired p).2.readyFlag = (p.readyFlag && !(flags.aborted || flags.closed)) ∧
      (appHandleConnection flags expired p).2.uipConn = p.uipConn := by
  have kept : ∀ q : Port, (sendData q).2.readyFlag = q.readyFlag ∧ (sendData q).2.uipConn = q.uipConn := by
    intro q
    rw [sendData]
    split
    · exact ⟨rfl, rfl⟩
    · exact ⟨rfl, rfl⟩
  cases flagged : flags.aborted || flags.closed with
  | true =>
      simp only [appHandleConnection, flagged, if_true]
      split
      · exact ⟨by rw [(kept _).1]; simp, (kept _).2⟩
      · exact ⟨by simp, rfl⟩
  | false =>
      simp only [appHandleConnection, flagged, Bool.false_eq_true, if_false]
      split
      · exact ⟨by rw [(kept _).1]; simp, (kept _).2⟩
      · exact ⟨by simp, rfl⟩

theorem appsend_ready (acked : Bool) (data : Bytes) (p : Port) :
    (appsend acked data p).2.readyFlag = p.readyFlag ∧
      (appsend acked data p).2.uipConn.tcpstateflags = p.uipConn.tcpstateflags := by
  rw [appsend]
  split
  · exact ⟨rfl, rfl⟩
  · exact ⟨rfl, rfl⟩

theorem shows_told (p q : Port) (s : Stack) (c : Nat) (conn : UipConn) (found : s.uipConns[c]? = some conn)
    (own : conn.lport = s.myHttpPort) (ready : p.readyFlag = s.readyFlag) (flags : Flags) (state : TcpState)
    (told : q.readyFlag = (p.readyFlag && !(flags.aborted || flags.closed))) (entered : q.uipConn.tcpstateflags = state) :
    Shows q ((s.withConn c { conn with tcpstateflags := state.slot }).iotTcpAppcall flags conn.lport) c := by
  have within : c < s.uipConns.length := (List.getElem?_eq_some_iff.mp found).1
  have entry : ∃ held, (s.withConn c { conn with tcpstateflags := state.slot }).uipConns[c]? = some held ∧
      held.lport = s.myHttpPort ∧ held.tcpstateflags = q.uipConn.tcpstateflags.slot :=
    ⟨_, List.getElem?_set_self within, own, by rw [entered]⟩
  cases flagged : flags.aborted || flags.closed with
  | true =>
      have closed : (s.withConn c { conn with tcpstateflags := state.slot }).iotTcpAppcall flags conn.lport =
          (s.withConn c { conn with tcpstateflags := state.slot }).connectionClosed := if_pos ⟨own, flagged⟩
      rw [closed]
      exact ⟨by rw [told, flagged, Bool.not_true, Bool.and_false]; rfl, entry⟩
  | false =>
      have untold : (s.withConn c { conn with tcpstateflags := state.slot }).iotTcpAppcall flags conn.lport =
          s.withConn c { conn with tcpstateflags := state.slot } := if_neg fun both => by simp [flagged] at both
      rw [untold]
      exact ⟨by rw [told, flagged, Bool.not_false, Bool.and_true, ready]; rfl, entry⟩

-- What happens to the connection of MyHttpPort looks the same in the table and in the port alone.
theorem process_shows (event : ConnEvent) (mss : Nat) (p : Port) (s : Stack) (c : Nat) (shown : Shows p s c)
    (idle : event = .fin → p.uipConn.len = 0) (busy : event = .timedOut → p.uipConn.len ≠ 0) :
    ∃ conn, s.uipConns[c]? = some conn ∧ Shows (LinkIt.uipProcess (event.uipEvent mss) p).2 (s.uipProcess event c conn) c := by
  obtain ⟨conn, found, own, state⟩ := shown.entry
  refine ⟨conn, found, ?_⟩
  have isClosed : p.uipConn.tcpstateflags.slot = UipState.closed ↔ p.uipConn.tcpstateflags = .closed := slot_eq _ .closed
  have isOpening : p.uipConn.tcpstateflags.slot = UipState.synSent ↔ p.uipConn.tcpstateflags = .synSent := slot_eq _ .synSent
  have isOpen : p.uipConn.tcpstateflags.slot = UipState.established ↔ p.uipConn.tcpstateflags = .established :=
    slot_eq _ .established
  have isLast : p.uipConn.tcpstateflags.slot = UipState.lastAck ↔ p.uipConn.tcpstateflags = .lastAck := slot_eq _ .lastAck
  have told := fun q => shows_told p q s c conn found own shown.ready
  have app := fun flags => app_ready flags false
  cases event with
  | connected =>
      simp only [LinkIt.uipProcess, ConnEvent.uipEvent, uipProcess, state]
      by_cases opening : p.uipConn.tcpstateflags = .synSent
      · rw [if_pos opening, if_pos (.inl (isOpening.mpr opening))]
        refine told _ ⟨false, false, false, true, false⟩ .established ?_ ?_
        · rw [(appsend_ready _ _ _).1, (app _ _).1]
          rfl
        · rw [(appsend_ready _ _ _).2, (app _ _).2]
          rfl
      · have other : ¬ (p.uipConn.tcpstateflags.slot = .synSent ∨ p.uipConn.tcpstateflags.slot = .synRcvd) := by
          rintro (sent | received)
          · exact opening (isOpening.mp sent)
          · cases flags : p.uipConn.tcpstateflags <;> simp [flags, TcpState.slot] at received
        rw [if_neg opening, if_neg other]
        exact shown
  | fin =>
      simp only [LinkIt.uipProcess, ConnEvent.uipEvent, uipProcess, state, appcall_with_conn]
      by_cases established : p.uipConn.tcpstateflags = .established
      · rw [if_pos established, if_pos (isOpen.mpr established), if_neg (by simp [idle rfl])]
        exact told _ ⟨false, false, true, false, false⟩ .lastAck (app _ _).1 rfl
      · rw [if_neg established, if_neg (fun same => established (isOpen.mp same))]
        exact shown
  | finAcked =>
      simp only [LinkIt.uipProcess, ConnEvent.uipEvent, uipProcess, state]
      by_cases last : p.uipConn.tcpstateflags = .lastAck
      · rw [if_pos last, if_pos (isLast.mpr last)]
        exact told _ ⟨false, false, true, false, false⟩ .closed (app _ _).1 rfl
      · rw [if_neg last, if_neg (fun same => last (isLast.mp same))]
        exact shown
  | reset =>
      simp only [LinkIt.uipProcess, ConnEvent.uipEvent, uipProcess, state]
      by_cases closed : p.uipConn.tcpstateflags = .closed
      · rw [if_pos closed, if_pos (isClosed.mpr closed)]
        exact shown
      · rw [if_neg closed, if_neg (fun same => closed (isClosed.mp same))]
        exact told _ ⟨false, true, false, false, false⟩ .closed (app _ _).1 rfl
  | timedOut =>
      simp only [LinkIt.uipProcess, ConnEvent.uipEvent, uipProcess, state]
      by_cases closed : p.uipConn.tcpstateflags = .closed
      · rw [if_pos (.inl closed), if_pos (.inl (isClosed.mpr closed))]
        exact shown
      · have used : ¬ (p.uipConn.tcpstateflags.slot = .closed ∨ p.uipConn.tcpstateflags.slot = .timeWait ∨
            p.uipConn.tcpstateflags.slot = .finWait2) := by
          cases flags : p.uipConn.tcpstateflags <;> simp [flags, TcpState.slot] at closed ⊢
        rw [if_neg (fun either => either.elim closed (busy rfl)), if_neg used]
        exact told _ ⟨false, false, false, false, false⟩ .closed (app _ _).1 rfl

theorem text_taken (text : Bytes) (p q : Port) (rc : Int)
    (taken : (if p.localMyWebData.length = 0 then
      if text.length < WEB_DATA_SIZE then some ((1 : Int), { p with localMyWebData := text }) else none
      else some (1, p)) = some (rc, q)) : q.readyFlag = p.readyFlag ∧ q.uipConn = p.uipConn := by
  split at taken
  · split at taken
    · obtain ⟨_, rfl⟩ := Prod.mk.inj (Option.some.inj taken)
      exact ⟨rfl, rfl⟩
    · cases taken
  · obtain ⟨_, rfl⟩ := Prod.mk.inj (Option.some.inj taken)
    exact ⟨rfl, rfl⟩

theorem call_shows (configuration : Configuration) (path : Bytes) (json : CString) (times : List Nat) (p q : Port) (s t : Stack)
    (c : Nat) (rc : Int) (shown : Shows p s c)
    (called : LinkIt.encodeAndSendData configuration path json (uipConnect s.uipConns).isSome p = some (rc, q))
    (stepped : s.encodeAndSendData times = some t) : ∃ held, Shows q t held := by
  obtain ⟨conn, found, own, state⟩ := shown.entry
  simp only [LinkIt.encodeAndSendData, shown.ready] at called
  generalize requestText configuration path json = text at called
  obtain ⟨same, kept⟩ := text_taken text _ q rc called
  cases ready : s.readyFlag with
  | true =>
      rw [encodeAndSendData, ready, if_pos rfl] at stepped
      obtain rfl := Option.some.inj stepped
      rw [ready, if_pos rfl] at same kept
      exact ⟨c, same.trans shown.ready, conn, found, own, by rw [state, kept]⟩
  | false =>
      rw [encodeAndSendData, ready, if_neg Bool.false_ne_true] at stepped
      rw [ready, if_neg Bool.false_ne_true] at same kept
      obtain ⟨⟨_, u⟩, connected, rfl⟩ := Option.map_eq_some_iff.mp stepped
      cases unused : uipConnect s.uipConns with
      | none =>
          simp only [appInitConnection, unused] at connected
          obtain ⟨_, rfl⟩ := Prod.mk.inj (Option.some.inj connected)
          rw [unused] at kept
          exact ⟨c, same, conn, found, own, by rw [state, kept]; rfl⟩
      | some free =>
          simp only [appInitConnection, unused] at connected
          obtain ⟨port, _, result⟩ := Option.map_eq_some_iff.mp connected
          obtain ⟨_, rfl⟩ := Prod.mk.inj result
          rw [unused] at kept
          have within : free < s.uipConns.length := by
            simpa using find_unused_within s.uipConns 0 none (fun _ none => by cases none) free unused
          have entry : ((s.withConn free ⟨.synSent, 1, 8888⟩).withConn free ⟨.synSent, 1, port⟩).uipConns[free]? =
              some ⟨.synSent, 1, port⟩ := by
            rw [withConn, withConn, List.getElem?_set_self (by rwa [List.length_set])]
          have opening : q.uipConn.tcpstateflags = .synSent := by
            rw [kept]
            simp [LinkIt.appInitConnection]
          exact ⟨free, same, _, entry, rfl, by rw [opening]; rfl⟩

end Stack

end Aliot.LinkIt
