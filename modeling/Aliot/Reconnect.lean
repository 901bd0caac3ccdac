import Aliot.AtMostOnce
import Aliot.Performed
import Aliot.Renumbered

set_option autoImplicit false

namespace Aliot

variable {H σ ε : Type}

def Quiet (read : List Arrival) : Prop := ∀ arrival ∈ read, packetType arrival.rc ≠ PINGRESP

-- The single steps of the client that lead from one state to another.
def Performs (s t : Sys H σ ε) : Prop := ∀ R : Sys H σ ε → Sys H σ ε → Prop, Performed R → R s t

-- A PINGREQ goes out on the way, and nothing that is read behind it is a PINGRESP.
def Unanswered (s t : Sys H σ ε) : Prop :=
  ∃ n u read, Performs s u ∧ Performs ((u.record (.sent n pingreq true)).withPing true) t ∧
    u.world.arrivals = read ++ t.world.arrivals ∧ Quiet read

structure Framed (s t : Sys H σ ε) : Prop where
  path : Performs s t
  bufSize : t.client.bufSize = s.client.bufSize
  fallback : t.client.defaultMessageHandler = s.client.defaultMessageHandler
  entries : t.client.incomingQos2Messages.length = s.client.incomingQos2Messages.length
  read : t.world.arrivals <:+ s.world.arrivals
  log : s.log <:+ t.log
  ping : t.client.pingOutstanding = true → Unanswered s t ∨
    s.client.pingOutstanding = true ∧ ∃ read, s.world.arrivals = read ++ t.world.arrivals ∧ Quiet read

theorem quiet_append (first second : List Arrival) (firstQuiet : Quiet first) (secondQuiet : Quiet second) :
    Quiet (first ++ second) := List.forall_mem_append.mpr ⟨firstQuiet, secondQuiet⟩

theorem performs_trans (s t u : Sys H σ ε) (first : Performs s t) (second : Performs t u) : Performs s u :=
  fun R performed => performed.trans s t u (first R performed) (second R performed)

theorem framed_trans (s t u : Sys H σ ε) (first : Framed s t) (second : Framed t u) : Framed s u where
  path := performs_trans s t u first.path second.path
  bufSize := second.bufSize.trans first.bufSize
  fallback := second.fallback.trans first.fallback
  entries := second.entries.trans first.entries
  read := second.read.trans first.read
  log := first.log.trans second.log
  ping outstanding := by
    rcases second.ping outstanding with ⟨n, v, later, before, after, unread, quiet⟩ | ⟨between, later, unread, quiet⟩
    · exact .inl ⟨n, v, later, performs_trans s t v first.path before, after, unread, quiet⟩
    · rcases first.ping between with ⟨n, v, earlier, before, after, unreadThen, quietThen⟩ | ⟨held, earlier, unreadThen, quietThen⟩
      · refine .inl ⟨n, v, earlier ++ later, before, performs_trans _ t u after second.path, ?_, quiet_append _ _ quietThen quiet⟩
        rw [unreadThen, unread, List.append_assoc]
      · refine .inr ⟨held, earlier ++ later, ?_, quiet_append _ _ quietThen quiet⟩
        rw [unreadThen, unread, List.append_assoc]

theorem framed_kept (s t : Sys H σ ε) (path : Performs s t) (bufSize : t.client.bufSize = s.client.bufSize)
    (fallback : t.client.defaultMessageHandler = s.client.defaultMessageHandler)
    (entries : t.client.incomingQos2Messages.length = s.client.incomingQos2Messages.length)
    (ping : t.client.pingOutstanding = s.client.pingOutstanding) (unread : t.world.arrivals = s.world.arrivals)
    (log : s.log <:+ t.log) : Framed s t := by
  refine ⟨path, bufSize, fallback, entries, unread ▸ List.suffix_refl _, log, fun outstanding => ?_⟩
  exact .inr ⟨ping.symm.trans outstanding, [], unread.symm, fun _ listed => nomatch listed⟩

theorem table_used_length (table used : List UInt16) (id : UInt16) (taken : useQoS2msgid table id = some used) :
    used.length = table.length := by
  unfold useQoS2msgid at taken
  split at taken
  · rw [← Option.some.inj taken, List.length_replace]
  · cases taken

theorem framed_performed : Performed (Framed : Sys H σ ε → Sys H σ ε → Prop) where
  trans := framed_trans
  steady s t steady := framed_kept s t (fun _ performed => performed.steady s t steady) steady.bufSize steady.fallback
    (congrArg List.length steady.table) steady.ping steady.arrivals (steady.log ▸ List.suffix_refl _)
  recorded s event other := framed_kept s _ (fun _ performed => performed.recorded s event other) rfl rfl rfl rfl rfl
    (List.suffix_cons _ _)
  arrived s arrival arrivals coming other := by
    refine ⟨fun _ performed => performed.arrived s arrival arrivals coming other, rfl, rfl, rfl, coming ▸ List.suffix_cons _ _,
      List.suffix_refl _, fun outstanding => .inr ⟨outstanding, [arrival], coming, ?_⟩⟩
    exact List.forall_mem_singleton.mpr other
  answered s arrival arrivals coming response :=
    ⟨fun _ performed => performed.answered s arrival arrivals coming response, rfl, rfl, rfl, coming ▸ List.suffix_cons _ _,
      List.suffix_refl _, fun outstanding => nomatch outstanding⟩
  pinged n s := by
    refine ⟨fun _ performed => performed.pinged n s, rfl, rfl, rfl, List.suffix_refl _, List.suffix_cons _ _, fun _ => .inl ?_⟩
    exact ⟨n, s, [], fun R performed => performed_refl R performed s, fun R performed => performed_refl R performed _, rfl,
      fun _ listed => nomatch listed⟩
  refused s id known := framed_kept s _ (fun _ performed => performed.refused s id known) rfl rfl rfl rfl rfl (List.suffix_cons _ _)
  opened n s message used qos new taken :=
    framed_kept s (((s.record (.received message.id s.client.incomingQos2Messages)).withTable used).record (.delivered n message))
      (fun _ performed => performed.opened n s message used qos new taken) rfl rfl (table_used_length _ _ message.id taken) rfl rfl
      ((List.suffix_cons _ _).trans (List.suffix_cons _ _))
  freed s id := framed_kept s (s.withTable (freeQoS2msgid s.client.incomingQos2Messages id)) (fun _ performed => performed.freed s id)
    rfl rfl List.length_replace rfl rfl (List.suffix_refl _)

def StillWaits (s t : Sys H σ ε) : Prop :=
  ∃ read, s.world.arrivals = read ++ t.world.arrivals ∧
    (s.client.pingOutstanding = true → Quiet read → t.client.pingOutstanding = true)

theorem still_waits_same (s t : Sys H σ ε) (unread : t.world.arrivals = s.world.arrivals)
    (ping : s.client.pingOutstanding = true → t.client.pingOutstanding = true) : StillWaits s t :=
  ⟨[], unread.symm, fun outstanding _ => ping outstanding⟩

theorem still_waits_performed : Performed (StillWaits : Sys H σ ε → Sys H σ ε → Prop) where
  trans s t u := by
    rintro ⟨earlier, unreadThen, waitsThen⟩ ⟨later, unread, waits⟩
    refine ⟨earlier ++ later, by rw [unreadThen, unread, List.append_assoc], fun outstanding quiet => ?_⟩
    obtain ⟨quietThen, quietLater⟩ := List.forall_mem_append.mp quiet
    exact waits (waitsThen outstanding quietThen) quietLater
  steady s t steady := still_waits_same s t steady.arrivals (fun outstanding => steady.ping.trans outstanding)
  recorded s event _ := still_waits_same s (s.record event) rfl id
  arrived s arrival arrivals coming _ := ⟨[arrival], coming, fun outstanding _ => outstanding⟩
  answered s arrival arrivals coming response := ⟨[arrival], coming, fun _ quiet => absurd response (quiet arrival List.mem_cons_self)⟩
  pinged n s := still_waits_same s ((s.record (.sent n pingreq true)).withPing true) rfl (fun _ => rfl)
  refused s message _ := still_waits_same s (s.record (.received message s.client.incomingQos2Messages)) rfl id
  opened n s message used _ _ _ :=
    still_waits_same s (((s.record (.received message.id s.client.incomingQos2Messages)).withTable used).record (.delivered n message))
      rfl id
  freed s message := still_waits_same s (s.withTable (freeQoS2msgid s.client.incomingQos2Messages message)) rfl id

theorem unanswered_outstanding (s t : Sys H σ ε) (unanswered : Unanswered s t) : t.client.pingOutstanding = true := by
  obtain ⟨n, u, read, _, after, unread, quiet⟩ := unanswered
  obtain ⟨others, unreadToo, waits⟩ := after StillWaits still_waits_performed
  have same : others = read := List.append_cancel_right (unreadToo.symm.trans unread)
  exact waits rfl (same ▸ quiet)

-- The first PUBLISH with an id, read while an entry is free, is delivered next.
def FirstHandled (since : List (Event ε)) : Prop :=
  ∀ newer older id table, since = newer ++ .received id table :: older → id ≠ 0 →
    (∀ other, .received id other ∉ older) →
    id ∉ table ∧ (0 ∈ table → ∃ n message, newer.getLast? = some (.delivered n message) ∧ message.qos = QOS2 ∧ message.id = id)

-- The log since `base`, where the ids in the table come from.
def NewSince (base : List (Event ε)) (s : Sys H σ ε) : Prop :=
  ∃ since, s.log = since ++ base ∧
    (∀ id ∈ s.client.incomingQos2Messages, id ≠ 0 → ∃ table, .received id table ∈ since) ∧ FirstHandled since

def NewKept (s t : Sys H σ ε) : Prop := ∀ base, NewSince base s → NewSince base t

theorem first_handled_cons (event : Event ε) (since : List (Event ε)) (handled : FirstHandled since)
    (latest : ∀ id table, event = .received id table → id ≠ 0 → (∀ other, .received id other ∉ since) →
      id ∉ table ∧ 0 ∉ table) : FirstHandled (event :: since) := by
  intro newer older id table split nonzero first
  cases newer with
  | nil =>
      obtain ⟨same, rfl⟩ := List.cons.inj split
      obtain ⟨absent, full⟩ := latest id table same nonzero first
      exact ⟨absent, fun free => absurd free full⟩
  | cons head newer =>
      rw [List.cons_append] at split
      obtain ⟨absent, delivered⟩ := handled newer older id table (List.cons.inj split).2 nonzero first
      refine ⟨absent, fun free => ?_⟩
      obtain ⟨n, message, last, rest⟩ := delivered free
      refine ⟨n, message, ?_, rest⟩
      rw [List.getLast?_cons, last]
      rfl

theorem first_handled_opened (n : Nat) (message : MQTTMessage) (table : List UInt16) (since : List (Event ε))
    (handled : FirstHandled since) (exactlyOnce : message.qos = QOS2) (absent : message.id ∉ table) :
    FirstHandled (.delivered n message :: .received message.id table :: since) := by
  intro newer older id other split nonzero first
  cases newer with
  | nil => cases (List.cons.inj split).1
  | cons head newer =>
      rw [List.cons_append] at split
      obtain ⟨rfl, received⟩ := List.cons.inj split
      cases newer with
      | nil =>
          cases (List.cons.inj received).1
          exact ⟨absent, fun _ => ⟨n, message, rfl, exactlyOnce, rfl⟩⟩
      | cons next newer =>
          rw [List.cons_append] at received
          obtain ⟨missing, delivered⟩ := handled newer older id other (List.cons.inj received).2 nonzero first
          refine ⟨missing, fun free => ?_⟩
          obtain ⟨m, found, last, rest⟩ := delivered free
          refine ⟨m, found, ?_, rest⟩
          rw [List.getLast?_cons, List.getLast?_cons, last]
          rfl

theorem new_kept_same (s t : Sys H σ ε) (log : t.log = s.log)
    (table : ∀ id ∈ t.client.incomingQos2Messages, id ≠ 0 → id ∈ s.client.incomingQos2Messages) : NewKept s t := by
  rintro base ⟨since, split, held, handled⟩
  exact ⟨since, log.trans split, fun id listed nonzero => held id (table id listed nonzero) nonzero, handled⟩

theorem new_kept_recorded (s t : Sys H σ ε) (event : Event ε) (log : t.log = event :: s.log)
    (table : t.client.incomingQos2Messages = s.client.incomingQos2Messages)
    (latest : ∀ id, event = .received id s.client.incomingQos2Messages →
      id ∈ s.client.incomingQos2Messages ∨ 0 ∉ s.client.incomingQos2Messages)
    (own : ∀ id other, event = .received id other → other = s.client.incomingQos2Messages) : NewKept s t := by
  rintro base ⟨since, split, held, handled⟩
  refine ⟨event :: since, by rw [log, split]; rfl, fun id listed nonzero => ?_, ?_⟩
  · obtain ⟨seen, received⟩ := held id (table ▸ listed) nonzero
    exact ⟨seen, List.mem_cons_of_mem _ received⟩
  · apply first_handled_cons event since handled
    rintro id other same nonzero first
    obtain rfl := own id other same
    have absent : id ∉ s.client.incomingQos2Messages := by
      intro listed
      obtain ⟨seen, received⟩ := held id listed nonzero
      exact first seen received
    exact ⟨absent, (latest id same).resolve_left absent⟩

theorem new_kept_performed : Performed (NewKept : Sys H σ ε → Sys H σ ε → Prop) where
  trans s t u first second base kept := second base (first base kept)
  steady s t steady := new_kept_same s t steady.log (fun id listed _ => steady.table ▸ listed)
  recorded s event other := by
    refine new_kept_recorded s (s.record event) event rfl rfl ?_ ?_
    · rintro id rfl
      cases other
    · rintro id table rfl
      cases other
  arrived s arrival arrivals _ _ := new_kept_same s _ rfl (fun id listed _ => listed)
  answered s arrival arrivals _ _ := new_kept_same s _ rfl (fun id listed _ => listed)
  pinged n s := new_kept_recorded s _ _ rfl rfl (fun _ same => nomatch same) (fun _ _ same => nomatch same)
  refused s id full := by
    refine new_kept_recorded s (s.record (.received id s.client.incomingQos2Messages)) _ rfl rfl ?_ ?_
    · rintro other same
      injection same with same
      exact same ▸ full
    · rintro other table same
      injection same with _ same
      exact same.symm
  opened n s message used exactlyOnce absent taken := by
    rintro base ⟨since, split, held, handled⟩
    have nonzero : message.id ≠ 0 := by
      intro zero
      rw [zero] at absent
      simp [useQoS2msgid, absent] at taken
    refine ⟨_ :: _ :: since, by simp only [Sys.record, Sys.withTable, split]; rfl, fun id listed other => ?_,
      first_handled_opened n message _ since handled exactlyOnce absent⟩
    have perm := held_ids_used _ used message.id nonzero taken
    rcases List.mem_cons.mp (perm.mem_iff.mp ((mem_held_ids used id).mpr ⟨listed, other⟩)) with rfl | old
    · exact ⟨_, List.mem_cons_of_mem _ List.mem_cons_self⟩
    · obtain ⟨seen, received⟩ := held id ((mem_held_ids _ id).mp old).1 other
      exact ⟨seen, List.mem_cons_of_mem _ (List.mem_cons_of_mem _ received)⟩
  freed s id := by
    refine new_kept_same s (s.withTable (freeQoS2msgid s.client.incomingQos2Messages id)) rfl ?_
    intro other listed nonzero
    have freed := (held_ids_freed s.client.incomingQos2Messages id).mem_iff.mp ((mem_held_ids _ other).mpr ⟨listed, nonzero⟩)
    exact ((mem_held_ids _ other).mp (List.mem_of_mem_erase freed)).1

def FirstDelivered (since : List (Event ε)) : Prop :=
  ∀ newer older id table, since = newer ++ .received id table :: older → id ≠ 0 →
    (∀ other, .received id other ∉ older) →
    ∃ n message, newer.getLast? = some (.delivered n message) ∧ message.qos = QOS2 ∧ message.id = id

theorem first_handled_delivered (since : List (Event ε)) (handled : FirstHandled since) (room : NoOverflow since) :
    FirstDelivered since := by
  intro newer older id table split nonzero first
  obtain ⟨absent, delivered⟩ := handled newer older id table split nonzero first
  apply delivered
  have fits := room (.received id table) (by simp [split])
  simpa [overflowed, isQoS2msgidFree, absent] using fits

namespace Sys

-- MQTTClient on whatever memory, with the buffers that this client has and with its subscriptions.
def setUpFresh (s : Sys H σ ε) (memory : Client H) : Sys H σ ε :=
  { s with client := { mqttClient memory s.client.bufSize with
      readbuf := s.client.readbuf
      messageHandlers := s.client.messageHandlers } }

end Sys

-- No PINGREQ is outstanding and no QoS 2 exchange is open.
def ExchangesSettled (c : Client H) : Prop := c.pingOutstanding = false ∧ ∀ id ∈ c.incomingQos2Messages, id = 0

def logSince (s t : Sys H σ ε) : List (Event ε) := t.log.take (t.log.length - s.log.length)

structure AsFresh (call : Call H σ ε) (options : Option MQTTPacketConnectData) (further : List (Operation H))
    (s : Sys H σ ε) : Prop where
  connects : ∀ memory, (mqttConnect call options (s.setUpFresh memory)).1 = SUCCESS
  alike : ∀ memory, Twin (runOperations call (.connect options :: further) s)
    (runOperations call (.connect options :: further) (s.setUpFresh memory))
  delivered : FirstDelivered (logSince s (runOperations call (.connect options :: further) s))
  pinged : ∀ n, (runOperations call (.connect options :: further) s).client.keepAliveInterval ≠ 0 →
    (runOperations call (.connect options :: further) s).world.pings.head? = some true →
    ((∃ ok, (keepalive n (runOperations call (.connect options :: further) s)).2.log =
        .sent n pingreq ok :: (runOperations call (.connect options :: further) s).log) ↔
      ¬ Unanswered s (runOperations call (.connect options :: further) s))

theorem new_since_log (s t : Sys H σ ε) (new : NewSince s.log t) : FirstHandled (logSince s t) := by
  obtain ⟨since, split, _, handled⟩ := new
  have same : logSince s t = since := by simp [logSince, split]
  exact same ▸ handled

theorem connected_room (call : Call H σ ε) (options : Option MQTTPacketConnectData) (s : Sys H σ ε)
    (success : (mqttConnect call options s).1 = SUCCESS) : 2 ≤ s.client.bufSize := by
  have attempted : (connectAttempt call options s).1 = SUCCESS := by
    simp only [mqttConnect] at success
    split at success
    · assumption
    · exact success
  by_cases room : 2 ≤ s.client.bufSize
  · exact room
  · have short : mqttPacketLen (mqttSerializeConnectLength (options.getD connectDataInitializer)) > s.client.bufSize := by
      apply lt_of_lt_of_le (Nat.not_le.mp room)
      unfold mqttPacketLen
      dsimp only
      split
      · exact Nat.le_add_left 2 _
      split
      · exact Nat.le_add_left 2 _
      split
      · exact Nat.le_add_left 2 (_ + 1)
      · exact Nat.le_add_left 2 (_ + 2)
    have started : ((startTimer s).2.withKeepAlive (options.getD connectDataInitializer).keepAliveInterval.toNat).client.bufSize =
      s.client.bufSize := rfl
    simp only [connectAttempt, mqttSerializeConnect, started, if_pos short] at attempted
    split at attempted
    · cases attempted
    · cases attempted

theorem due_ping_sent (n : Nat) (s : Sys H σ ε) (room : 2 ≤ s.client.bufSize) (timed : s.client.keepAliveInterval ≠ 0)
    (due : s.world.pings.head? = some true) (answered : s.client.pingOutstanding = false) :
    ∃ ok, (keepalive n s).2.log = .sent n pingreq ok :: s.log := by
  have expired : s.world.pings.headD false = true := by
    rw [List.headD_eq_head?_getD, due]
    rfl
  have made : (mqttSerializePingreq s.client.bufSize).1 > 0 := by
    rw [mqttSerializePingreq, if_neg (Nat.not_lt.mpr room)]
    decide
  have packet := pingreq_made s.client.bufSize made
  simp only [keepalive, if_neg timed, expired, answered, Bool.not_false, Bool.and_self, if_true, if_pos made, packet]
  obtain ⟨t, ok, quiet, outcome⟩ := send_packet_sends n pingreq { s with world := { s.world with pings := s.world.pings.tail } }
  refine ⟨ok, ?_⟩
  simp only [outcome]
  have log : (t.record (.sent n pingreq ok)).log = .sent n pingreq ok :: s.log := congrArg _ quiet.log
  split
  · exact log
  · exact log

theorem held_ping_silent (n : Nat) (s : Sys H σ ε) (outstanding : s.client.pingOutstanding = true) : (keepalive n s).2.log = s.log := by
  simp only [keepalive, outstanding, Bool.not_true, Bool.and_false, Bool.false_eq_true, if_false]
  split <;> rfl

-- A client of which MQTTClient would reset nothing that matters.
structure Cleared (c : Client H) : Prop where
  settled : ExchangesSettled c
  offline : c.isconnected = false
  fallback : c.defaultMessageHandler = none
  entries : c.incomingQos2Messages.length = MAX_INCOMING_QOS2_MESSAGES

theorem cleared_twin (s : Sys H σ ε) (memory : Client H) (interval : Nat) (cleared : Cleared s.client) :
    Twin (s.withKeepAlive interval) ((s.setUpFresh memory).withKeepAlive interval) := by
  have table : s.client.incomingQos2Messages = List.replicate MAX_INCOMING_QOS2_MESSAGES 0 :=
    cleared.entries ▸ List.eq_replicate_of_mem cleared.settled.2
  refine ⟨memory.nextPacketid, s.log, ?_, alike_same s.log⟩
  simp only [Sys.setUpFresh, Sys.withKeepAlive, Sys.renumber, mqttClient, cleared.settled.1, cleared.offline, cleared.fallback,
    table]

theorem sent_client (n : Nat) (packet : Bytes) (s : Sys H σ ε) : (sendPacket n packet s).2.client = s.client := by
  cases outcomes : s.world.sends with
  | nil =>
      simp only [sendPacket, outcomes]
      rfl
  | cons ok sends =>
      simp only [sendPacket, outcomes]
      rfl

theorem disconnected_client (s : Sys H σ ε) : (mqttDisconnect s).2.client = { s.client with isconnected := false } := by
  simp only [mqttDisconnect]
  split
  · simp only [Sys.withConnected, sent_client]
    rfl
  · rfl

theorem disconnected_cleared (call : Call H σ ε) (calls : ∀ fp md t, Framed t (call fp md t)) (operations : List (Operation H))
    (c : Client H) (buf_size : Nat) (world : World) (host : σ) (s : Sys H σ ε)
    (history : s = runOperations call operations (startedClient c buf_size world host)) (settled : ExchangesSettled s.client) :
    Cleared (mqttDisconnect s).2.client := by
  have framed := run_operations_performed Framed framed_performed call calls operations (startedClient c buf_size world host)
  rw [← history] at framed
  rw [disconnected_client]
  exact ⟨settled, rfl, framed.fallback, framed.entries.trans List.length_replicate⟩

theorem cleared_connect_in_step (call : Call H σ ε) (calls : ∀ fp md s t, Twin s t → Twin (call fp md s) (call fp md t))
    (options : Option MQTTPacketConnectData) (s : Sys H σ ε) (memory : Client H) (cleared : Cleared s.client) :
    InStep (mqttConnect call options s) (mqttConnect call options (s.setUpFresh memory)) := by
  apply mqtt_connect_from_attempt
  apply connect_attempt_in_step call calls options s _ 0
  · exact cleared_twin s memory 0 cleared
  · exact cleared.offline

theorem cleared_new_delivered (call : Call H σ ε) (calls : ∀ fp md t, NewKept t (call fp md t)) (operations : List (Operation H))
    (s : Sys H σ ε) (cleared : Cleared s.client) (room : NoOverflow (logSince s (runOperations call operations s))) :
    FirstDelivered (logSince s (runOperations call operations s)) := by
  apply first_handled_delivered _ _ room
  apply new_since_log
  apply run_operations_performed NewKept new_kept_performed call calls
  refine ⟨[], rfl, fun id listed nonzero => absurd (cleared.settled.2 id listed) nonzero, ?_⟩
  intro newer older id table split
  cases newer <;> cases split

theorem cleared_pinged (call : Call H σ ε) (calls : ∀ fp md t, Framed t (call fp md t)) (operations : List (Operation H))
    (n : Nat) (s : Sys H σ ε) (cleared : Cleared s.client) (fits : 2 ≤ s.client.bufSize)
    (timed : (runOperations call operations s).client.keepAliveInterval ≠ 0)
    (due : (runOperations call operations s).world.pings.head? = some true) :
    (∃ ok, (keepalive n (runOperations call operations s)).2.log = .sent n pingreq ok :: (runOperations call operations s).log) ↔
      ¬ Unanswered s (runOperations call operations s) := by
  have framed := run_operations_performed Framed framed_performed call calls operations s
  constructor
  · rintro ⟨ok, sent⟩ unanswered
    rw [held_ping_silent n _ (unanswered_outstanding _ _ unanswered)] at sent
    exact List.ne_cons_self sent
  · intro answered
    apply due_ping_sent n _ (framed.bufSize ▸ fits) timed due
    apply Bool.eq_false_iff.mpr
    intro outstanding
    rcases framed.ping outstanding with unanswered | ⟨held, _⟩
    · exact answered unanswered
    · rw [cleared.settled.1] at held
      cases held

theorem reconnected_as_fresh (depth : Nat) (operations further : List (Operation H)) (c : Client H) (buf_size : Nat)
    (world : World) (host : List (List (Operation H))) (options : Option MQTTPacketConnectData)
    (s d : Sys H (List (List (Operation H))) ε)
    (history : s = runOperations (operatedCall depth) operations (startedClient c buf_size world host))
    (disconnected : d = (mqttDisconnect s).2)
    (reconnected : (mqttConnect (operatedCall depth) options d).1 = SUCCESS)
    (settled : ExchangesSettled s.client)
    (room : NoOverflow (logSince d (runOperations (operatedCall depth) (.connect options :: further) d))) :
    AsFresh (operatedCall depth) options further d := by
  have framed := operated_call_performed (H := H) (ε := ε) Framed framed_performed depth
  have newKept := operated_call_performed (H := H) (ε := ε) NewKept new_kept_performed depth
  have cleared := disconnected_cleared _ framed operations c buf_size world host s history settled
  rw [← disconnected] at cleared
  have twin := fun memory => cleared_connect_in_step _ (operated_call_twin depth) options d memory cleared
  have fits := connected_room _ options d reconnected
  constructor
  · exact fun memory => (twin memory).1.symm.trans reconnected
  · exact fun memory => run_operations_twin _ (operated_call_twin depth) further _ _ (twin memory).2
  · exact cleared_new_delivered _ newKept (.connect options :: further) d cleared room
  · exact fun n timed due => cleared_pinged _ framed (.connect options :: further) n d cleared fits timed due

def acceptedConnack : Inbound := .other 0x20 [0, 0]

def reconnectWorld (packets : List Inbound) (pings : List Bool) : World :=
  ⟨packets.map arrivalOf, List.replicate 20 true, [1, 0, 1], pings⟩

-- A connection after its MQTTConnect and so many calls of cycle.
def connectionHistory (packets : List Inbound) (pings : List Bool) (cycles : Nat) : Sys Unit (List (List (Operation Unit))) Unit :=
  runOperations (operatedCall 0) (.connect none :: List.replicate cycles .cycle)
    (startedClient staticClient 4096 (reconnectWorld packets pings) [])

def endedConnection (packets : List Inbound) (pings : List Bool) (cycles : Nat) : Sys Unit (List (List (Operation Unit))) Unit :=
  (mqttDisconnect (connectionHistory packets pings cycles)).2

def completedPackets : List Inbound :=
  [acceptedConnack, exactlyOncePublish 1, .ack PUBREL 2 1, acceptedConnack, exactlyOncePublish 1]

theorem completed_as_fresh : AsFresh (operatedCall 0) none [.cycle] (endedConnection completedPackets [] 2) := by
  have released : (connectionHistory completedPackets [] 2).client.incomingQos2Messages = List.replicate 20 0 := by
    decide +kernel
  have settled : ExchangesSettled (connectionHistory completedPackets [] 2).client :=
    ⟨by decide +kernel, fun id listed => List.eq_of_mem_replicate (released ▸ listed)⟩
  exact reconnected_as_fresh 0 (.connect none :: List.replicate 2 .cycle) [.cycle] staticClient 4096
    (reconnectWorld completedPackets []) [] none (connectionHistory completedPackets [] 2) (endedConnection completedPackets [] 2)
    rfl rfl (by decide +kernel) settled (by decide +kernel)

-- The first connection leaves an exchange open whose id comes again.
def openExchange : Sys Unit (List (List (Operation Unit))) Unit :=
  endedConnection [acceptedConnack, exactlyOncePublish 1, acceptedConnack, exactlyOncePublish 1] [] 1

theorem open_exchange_kept : ¬ AsFresh (operatedCall 0) none [.cycle] openExchange := by
  intro fresh
  have since : logSince openExchange (runOperations (operatedCall 0) [.connect none, .cycle] openExchange) =
      [.sent 4 (ackBytes PUBREC 0 1) true] ++ .received 1 (1 :: List.replicate 19 0) ::
        [.sent 0 (mqttSerializeConnect 4096 connectDataInitializer).2 true] := by decide +kernel
  obtain ⟨n, message, last, _⟩ := fresh.delivered _ _ 1 _ since (by decide)
    (fun _ listed => nomatch List.mem_singleton.mp listed)
  cases last

-- The first connection leaves a PINGREQ unanswered, and the ping timer is up again after the reconnect.
def openPing : Sys Unit (List (List (Operation Unit))) Unit :=
  endedConnection [acceptedConnack, .publish false false 0 [0x74] 0 [0x70], acceptedConnack] [false, true, false, true] 1

theorem no_ping_sent (s t : Sys H σ ε) (packet : Bytes) (log : t.log = .sent 0 packet true :: s.log) (other : packet ≠ pingreq) :
    ¬ Unanswered s t := by
  rintro ⟨n, u, read, before, after, _⟩
  have behind : s.log <:+ u.log := (before Framed framed_performed).log
  have sent : .sent n pingreq true :: u.log <:+ t.log := (after Framed framed_performed).log
  rw [log] at sent
  rcases List.suffix_cons_iff.mp sent with same | later
  · injection same with event
    injection event with _ pinged
    exact other pinged.symm
  · have longer := later.length_le
    have shorter := behind.length_le
    rw [List.length_cons] at longer
    omega

theorem open_ping_kept : ¬ AsFresh (operatedCall 0) none [] openPing := by
  intro fresh
  have log : (runOperations (operatedCall 0) [.connect none] openPing).log =
      .sent 0 (mqttSerializeConnect 4096 connectDataInitializer).2 true :: openPing.log := by decide +kernel
  have silent : (keepalive 3 (runOperations (operatedCall 0) [.connect none] openPing)).2.log =
      (runOperations (operatedCall 0) [.connect none] openPing).log := by decide +kernel
  obtain ⟨ok, pinged⟩ := (fresh.pinged 3 (by decide +kernel) (by decide +kernel)).mpr (no_ping_sent _ _ _ log (by decide +kernel))
  exact List.ne_cons_self (silent.symm.trans pinged)

theorem interrupted_not_as_fresh :
    ((mqttConnect (operatedCall 0) none openExchange).1 = SUCCESS ∧
      NoOverflow (logSince openExchange (runOperations (operatedCall 0) [.connect none, .cycle] openExchange)) ∧
      ¬ AsFresh (operatedCall 0) none [.cycle] openExchange) ∧
    (mqttConnect (operatedCall 0) none openPing).1 = SUCCESS ∧
      NoOverflow (logSince openPing (runOperations (operatedCall 0) [.connect none] openPing)) ∧
      ¬ AsFresh (operatedCall 0) none [] openPing :=
  ⟨⟨by decide +kernel, by decide +kernel, open_exchange_kept⟩, by decide +kernel, by decide +kernel, open_ping_kept⟩

end Aliot
