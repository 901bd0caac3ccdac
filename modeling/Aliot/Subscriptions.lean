import Mathlib.Data.List.Perm.Basic
import Aliot.Delivery

set_option autoImplicit false

namespace Aliot

variable {H σ ε : Type}

-- The successful calls of MQTTSubscribe and MQTTUnsubscribe.
inductive Subscribing (H : Type) where
  | subscribe (topicFilter : Bytes) (messageHandler : H)
  | unsubscribe (topicFilter : Bytes)
deriving DecidableEq

-- MQTTSubscribe reports a grant, MQTTUnsubscribe returns 0.
def completed : Operation H → Int → List (Subscribing H)
  | .subscribe topicFilter _ messageHandler, rc =>
      if rc = 0 ∨ rc = 1 ∨ rc = 2 then [.subscribe topicFilter messageHandler] else []
  | .unsubscribe topicFilter, rc => if rc = 0 then [.unsubscribe topicFilter] else []
  | _, _ => []

-- The filters subscribed to after a history, newest call first, each with the handler given last.
def active : List (Subscribing H) → List (Bytes × H)
  | [] => []
  | .subscribe topicFilter messageHandler :: older =>
      (topicFilter, messageHandler) :: (active older).filter (fun subscription => subscription.1 != topicFilter)
  | .unsubscribe topicFilter :: older => (active older).filter (fun subscription => subscription.1 != topicFilter)

structure Snapshot (H : Type) where
  table : List (MessageHandler H)
  history : List (Subscribing H)

-- The application keeps book of its calls and of the tables it has seen.
structure Subscriber (H : Type) where
  scripts : List (List (Operation H))
  history : List (Subscribing H)
  seen : List (Snapshot H)

abbrev SubscriberSys (H ε : Type) := Sys H (Subscriber H) ε

namespace Sys

def book (s : SubscriberSys H ε) (calls : List (Subscribing H)) : SubscriberSys H ε :=
  { s with host := { s.host with history := calls ++ s.host.history } }

def look (s : SubscriberSys H ε) : SubscriberSys H ε :=
  { s with host := { s.host with seen := ⟨s.client.messageHandlers, s.host.history⟩ :: s.host.seen } }

def nextScript (s : SubscriberSys H ε) : SubscriberSys H ε :=
  { s with host := { s.host with scripts := s.host.scripts.tail } }

end Sys

def bookedOperation (call : Call H (Subscriber H) ε) (operation : Operation H) (s : SubscriberSys H ε) : SubscriberSys H ε :=
  let outcome := runOperation call operation s
  (outcome.2.book (completed operation outcome.1)).look

def bookedOperations (call : Call H (Subscriber H) ε) : List (Operation H) → SubscriberSys H ε → SubscriberSys H ε
  | [], s => s
  | operation :: operations, s => bookedOperations call operations (bookedOperation call operation s)

def bookedCall : Nat → Call H (Subscriber H) ε
  | 0 => fun _ _ s => s.look
  | depth + 1 => fun _ _ s => bookedOperations (bookedCall depth) (s.host.scripts.headD []) s.look.nextScript

def usedSlots (table : List (MessageHandler H)) : List (Bytes × Option H) :=
  table.filterMap (fun entry => entry.topicFilter.map (fun topicFilter => (topicFilter, entry.fp)))

def takes (topicFilter topic : Bytes) : Bool := topic = topicFilter || isTopicMatched topicFilter topic

-- The filter of the entry that is called, and the handler that is called.
def served (table : List (MessageHandler H)) (call : Invocation H) : Option Bytes × H :=
  (table[call.entry]?.bind MessageHandler.topicFilter, call.fp)

-- One call for each subscription that takes the topic, and one slot for each subscription.
structure Served (table : List (MessageHandler H)) (subscriptions : List (Bytes × H)) : Prop where
  calls : ∀ (s : SubscriberSys H ε) call cycle md, s.client.messageHandlers = table → LeftIntact call cycle md s →
    ((invoked call cycle md s).map (served table)).Perm
      ((subscriptions.filter (fun subscription => takes subscription.1 (topicBytes s.client md.topicName))).map
        (fun subscription => (some subscription.1, subscription.2)))
  slots : (usedSlots table).length = subscriptions.length

-- A filter is subscribed to only while it is not and an entry is free, and unsubscribed from only while it is not.
def Fits : List (Subscribing H) → Prop
  | [] => True
  | .subscribe topicFilter _ :: older =>
      topicFilter ∉ (active older).map Prod.fst ∧ (active older).length < MAX_MESSAGE_HANDLERS ∧ Fits older
  | .unsubscribe topicFilter :: older => topicFilter ∉ (active older).map Prod.fst ∧ Fits older

structure Tabled (table : List (MessageHandler H)) (subscriptions : List (Bytes × H)) : Prop where
  length : table.length = MAX_MESSAGE_HANDLERS
  used : (usedSlots table).Perm (subscriptions.map (fun subscription => (subscription.1, some subscription.2)))

theorem unsubscribed_filter (subscriptions : List (Bytes × H)) (topicFilter : Bytes)
    (absent : topicFilter ∉ subscriptions.map Prod.fst) :
    subscriptions.filter (fun subscription => subscription.1 != topicFilter) = subscriptions := by
  apply List.filter_eq_self.mpr
  intro subscription listed
  have different : subscription.1 ≠ topicFilter := fun same => absent (same ▸ List.mem_map_of_mem listed)
  simpa using different

theorem used_slots_full (table : List (MessageHandler H)) (full : ∀ entry ∈ table, entry.topicFilter.isNone = false) :
    (usedSlots table).length = table.length := by
  induction table with
  | nil => rfl
  | cons entry table ih =>
      have rest := ih (fun other listed => full other (List.mem_cons_of_mem _ listed))
      have used := full entry List.mem_cons_self
      cases filter : entry.topicFilter with
      | none => simp [filter] at used
      | some topicFilter =>
          simp only [usedSlots, List.filterMap_cons, filter, Option.map_some, List.length_cons]
          exact congrArg Nat.succ rest

theorem used_slots_installed (front back : List (MessageHandler H)) (entry : MessageHandler H) (topicFilter : Bytes)
    (messageHandler : H) (free : entry.topicFilter = none) :
    (usedSlots (front ++ ⟨some topicFilter, some messageHandler⟩ :: back)).Perm
      ((topicFilter, some messageHandler) :: usedSlots (front ++ entry :: back)) := by
  simp only [usedSlots, List.filterMap_append, List.filterMap_cons, Option.map_some, free, Option.map_none]
  exact List.perm_middle

theorem install_used (table installed : List (MessageHandler H)) (topicFilter : Bytes) (messageHandler : H)
    (done : installHandler table topicFilter messageHandler = some installed) :
    installed.length = table.length ∧
      (usedSlots installed).Perm ((topicFilter, some messageHandler) :: usedSlots table) := by
  obtain ⟨i, found, rfl⟩ := Option.map_eq_some_iff.mp done
  obtain ⟨below, free, _⟩ := List.findIdx?_eq_some_iff_getElem.mp found
  have inside : i < table.length := Nat.lt_of_lt_of_le below (List.length_take_le' _ _)
  rw [List.getElem_take] at free
  refine ⟨List.length_set, ?_⟩
  have split : table = table.take i ++ table[i] :: table.drop (i + 1) := by
    rw [List.getElem_cons_drop, List.take_append_drop]
  rw [List.set_eq_take_append_cons_drop, if_pos inside]
  conv => rhs; rw [split]
  exact used_slots_installed _ _ _ topicFilter messageHandler (Option.isNone_iff_eq_none.mp free)

theorem not_installed_full (table : List (MessageHandler H)) (topicFilter : Bytes) (messageHandler : H)
    (length : table.length = MAX_MESSAGE_HANDLERS) (failed : installHandler table topicFilter messageHandler = none) :
    (usedSlots table).length = MAX_MESSAGE_HANDLERS := by
  rw [installHandler, Option.map_eq_none_iff, List.findIdx?_eq_none_iff, List.take_of_length_le (Nat.le_of_eq length)]
    at failed
  rw [used_slots_full table failed, length]

theorem range_filter_map {α β : Type} (l : List α) (f : α → Option β) :
    (List.range l.length).filterMap (fun i => l[i]?.bind f) = l.filterMap f := by
  induction l with
  | nil => rfl
  | cons x l ih =>
      rw [List.length_cons, List.range_succ_eq_map, List.filterMap_cons, List.filterMap_cons, List.filterMap_map]
      have later : (fun i => (x :: l)[i]?.bind f) ∘ Nat.succ = fun i => l[i]?.bind f := rfl
      rw [later, ih]
      rfl

def serving (topic : Bytes) (slot : Bytes × Option H) : Option (Option Bytes × H) :=
  if takes slot.1 topic then slot.2.map (fun fp => (some slot.1, fp)) else none

theorem chosen_serving (c : Client H) (md : MessageData) (i : Nat) :
    ((chosen c md.topicName i).map (invocation c md i)).map (served c.messageHandlers) =
      c.messageHandlers[i]?.bind (fun entry =>
        (entry.topicFilter.map (fun topicFilter => (topicFilter, entry.fp))).bind (serving (topicBytes c md.topicName))) := by
  rw [chosen]
  rcases found : c.messageHandlers[i]? with _ | ⟨_ | topicFilter, _ | fp⟩
  · rfl
  · rfl
  · rfl
  · simp [serving]
  · by_cases taken : takes topicFilter (topicBytes c md.topicName) = true
    · simp only [serving, Option.map_some, Option.bind_some, if_pos taken]
      rw [takes] at taken
      simp [taken, invocation, served, found]
    · simp only [serving, Option.map_some, Option.bind_some, if_neg taken]
      rw [takes] at taken
      simp [taken]

theorem addressed_served (c : Client H) (md : MessageData) (array : c.messageHandlers.length = MAX_MESSAGE_HANDLERS) :
    (addressed c md).map (served c.messageHandlers) =
      (usedSlots c.messageHandlers).filterMap (serving (topicBytes c md.topicName)) := by
  rw [addressed, addressedBy, List.map_filterMap, usedSlots, List.filterMap_filterMap, ← array]
  simp only [chosen_serving, range_filter_map]

theorem tabled_served (table : List (MessageHandler H)) (subscriptions : List (Bytes × H))
    (tabled : Tabled table subscriptions) : Served (ε := ε) table subscriptions where
  calls := by
    rintro s call cycle md rfl undisturbed
    rw [invoked_undisturbed call cycle md s undisturbed, addressed_served s.client md tabled.length]
    refine (tabled.used.filterMap (serving (topicBytes s.client md.topicName))).trans (List.Perm.of_eq ?_)
    rw [List.filterMap_map, ← List.filterMap_eq_map, List.filterMap_filter]
    apply List.filterMap_congr
    intro subscription _
    rfl
  slots := by
    rw [tabled.used.length_eq, List.length_map]

-- As long as the calls fit, the table holds just the active subscriptions.
structure Booked (s : SubscriberSys H ε) : Prop where
  tabled : Fits s.host.history → Tabled s.client.messageHandlers (active s.host.history)
  seen : ∀ snapshot ∈ s.host.seen, Fits snapshot.history → Tabled snapshot.table (active snapshot.history)

def BookedKept (s t : SubscriberSys H ε) : Prop := Booked s → Booked t

theorem booked_kept_same (s t : SubscriberSys H ε) (table : t.client.messageHandlers = s.client.messageHandlers)
    (host : t.host = s.host) : BookedKept s t :=
  fun booked => ⟨by rw [table, host]; exact booked.tabled, by rw [host]; exact booked.seen⟩

theorem booked_kept_trans (s t u : SubscriberSys H ε) (first : BookedKept s t) (second : BookedKept t u) : BookedKept s u :=
  fun booked => second (first booked)

theorem booked_kept_carried : Carried (BookedKept : SubscriberSys H ε → SubscriberSys H ε → Prop) :=
  carried_of_recorded BookedKept (fun s t idle => booked_kept_same s t idle.handlers idle.host) booked_kept_trans
    (fun s _ => booked_kept_same s _ rfl rfl) (fun s _ _ => booked_kept_same s _ rfl rfl)
    (fun _ _ _ s _ _ => booked_kept_same s _ rfl rfl)

theorem booked_look (s : SubscriberSys H ε) : BookedKept s s.look := by
  intro booked
  refine ⟨booked.tabled, fun snapshot listed => ?_⟩
  rcases List.mem_cons.mp listed with rfl | earlier
  · exact booked.tabled
  · exact booked.seen snapshot earlier

theorem booked_subscribed (s : SubscriberSys H ε) (table : List (MessageHandler H)) (topicFilter : Bytes)
    (messageHandler : H) (installed : installHandler s.client.messageHandlers topicFilter messageHandler = some table) :
    BookedKept s ((s.withHandlers table).book [.subscribe topicFilter messageHandler]) := by
  intro booked
  refine ⟨?_, booked.seen⟩
  rintro (⟨absent, _, fits⟩ : Fits (.subscribe topicFilter messageHandler :: s.host.history))
  obtain ⟨length, used⟩ := install_used _ table topicFilter messageHandler installed
  have before := booked.tabled fits
  refine ⟨length.trans before.length, ?_⟩
  change (usedSlots table).Perm ((active (.subscribe topicFilter messageHandler :: s.host.history)).map _)
  rw [active, unsubscribed_filter _ topicFilter absent]
  exact used.trans (before.used.cons _)

theorem booked_overflow (s : SubscriberSys H ε) (topicFilter : Bytes) (messageHandler : H)
    (full : installHandler s.client.messageHandlers topicFilter messageHandler = none) :
    BookedKept s (s.book [.subscribe topicFilter messageHandler]) := by
  intro booked
  refine ⟨?_, booked.seen⟩
  rintro (⟨_, room, fits⟩ : Fits (.subscribe topicFilter messageHandler :: s.host.history))
  have before := booked.tabled fits
  have slots := before.used.length_eq
  rw [not_installed_full _ topicFilter messageHandler before.length full, List.length_map] at slots
  omega

theorem booked_unsubscribed (s : SubscriberSys H ε) (topicFilter : Bytes) :
    BookedKept s (s.book [.unsubscribe topicFilter]) := by
  intro booked
  refine ⟨?_, booked.seen⟩
  rintro (⟨absent, fits⟩ : Fits (.unsubscribe topicFilter :: s.host.history))
  change Tabled s.client.messageHandlers (active (.unsubscribe topicFilter :: s.host.history))
  rw [active, unsubscribed_filter _ topicFilter absent]
  exact booked.tabled fits

theorem booked_none (s : SubscriberSys H ε) : BookedKept s (s.book []) := booked_kept_same s _ rfl rfl

theorem completed_unsubscribed (s : SubscriberSys H ε) (topicFilter : Bytes) (rc : Int) :
    BookedKept s (s.book (completed (.unsubscribe topicFilter) rc)) := by
  by_cases done : rc = 0
  · simp only [completed, if_pos done]
    exact booked_unsubscribed s topicFilter
  · simp only [completed, if_neg done]
    exact booked_none s

section Calls

variable (call : Call H (Subscriber H) ε) (calls : ∀ fp md t, BookedKept t (call fp md t))

include calls

theorem subscribe_booked (topicFilter : Bytes) (qos : Nat) (messageHandler : H) (s : SubscriberSys H ε) :
    BookedKept s ((mqttSubscribe call topicFilter qos messageHandler s).2.book
      (completed (.subscribe topicFilter qos messageHandler) (mqttSubscribe call topicFilter qos messageHandler s).1)) := by
  obtain ⟨t, kept, failed | answered⟩ := mqtt_subscribe_outcome BookedKept booked_kept_carried call calls
    (fun _ _ s _ _ => booked_kept_same s _ rfl rfl) topicFilter qos messageHandler s
  · rw [failed]
    exact booked_kept_trans _ _ _ kept (booked_none t)
  rw [answered]
  refine booked_kept_trans _ _ _ kept ?_
  rcases accept_suback_outcome topicFilter messageHandler t with ⟨table, installed, done⟩ | ⟨rc, full, done⟩
  · rw [done]
    exact booked_subscribed t table topicFilter messageHandler installed
  · rw [done]
    by_cases granted : rc = 0 ∨ rc = 1 ∨ rc = 2
    · simp only [completed, if_pos granted]
      exact booked_overflow t topicFilter messageHandler full
    · simp only [completed, if_neg granted]
      exact booked_none t

theorem operation_booked (operation : Operation H) (s : SubscriberSys H ε) :
    BookedKept s (bookedOperation call operation s) := by
  refine booked_kept_trans _ _ _ ?_ (booked_look _)
  have carried := booked_kept_carried (H := H) (ε := ε)
  have recorded : ∀ (packet : Bytes) (ok : Bool) (t : SubscriberSys H ε), BookedKept t (t.record (.sent 0 packet ok)) :=
    fun packet ok t => booked_kept_same t _ rfl rfl
  cases operation with
  | cycle => exact booked_kept_trans _ _ _ (carried.stepped call s calls) (booked_none _)
  | yield => exact booked_kept_trans _ _ _ (mqtt_yield_carried _ carried call calls s) (booked_none _)
  | connect options =>
      exact booked_kept_trans _ _ _ (mqtt_connect_carried _ carried call calls (fun packet ok t _ => recorded packet ok t)
        (fun t _ => booked_kept_same t _ rfl rfl) options s) (booked_none _)
  | subscribe topicFilter qos messageHandler => exact subscribe_booked call calls topicFilter qos messageHandler s
  | unsubscribe topicFilter =>
      exact booked_kept_trans _ _ _ (mqtt_unsubscribe_carried _ carried call calls
        (fun packet ok t _ _ => recorded packet ok t) topicFilter s) (completed_unsubscribed _ topicFilter _)
  | publish topicName message =>
      exact booked_kept_trans _ _ _ (mqtt_publish_carried _ carried call calls topicName message s) (booked_none _)
  | disconnect =>
      exact booked_kept_trans _ _ _ (mqtt_disconnect_carried _ carried (fun packet ok t _ => recorded packet ok t)
        (fun t => booked_kept_same t _ rfl rfl) s) (booked_none _)

theorem operations_booked (operations : List (Operation H)) (s : SubscriberSys H ε) :
    BookedKept s (bookedOperations call operations s) := by
  induction operations generalizing s with
  | nil => exact booked_kept_same s s rfl rfl
  | cons operation operations ih => exact booked_kept_trans _ _ _ (operation_booked call calls operation s) (ih _)

end Calls

theorem handlers_booked (depth : Nat) (fp : H) (md : MessageData) (s : SubscriberSys H ε) :
    BookedKept s (bookedCall depth fp md s) := by
  induction depth generalizing fp md s with
  | zero => exact booked_look s
  | succ depth ih =>
      have script : BookedKept s.look s.look.nextScript := fun booked => ⟨booked.tabled, booked.seen⟩
      exact booked_kept_trans _ _ _ (booked_look s) (booked_kept_trans _ _ _ script (operations_booked _ ih _ _))

-- A client as MQTTClient leaves it, with an application that has made no call yet.
def subscriberStart (c : Client H) (buf_size : Nat) (world : World) (scripts : List (List (Operation H))) :
    SubscriberSys H ε :=
  ⟨mqttClient c buf_size, world, ⟨scripts, [], []⟩, 0, []⟩

theorem started_booked (c : Client H) (buf_size : Nat) (world : World) (scripts : List (List (Operation H)))
    (array : c.messageHandlers.length = MAX_MESSAGE_HANDLERS) :
    Booked (subscriberStart c buf_size world scripts : SubscriberSys H ε) where
  tabled _ := by
    refine ⟨(List.length_map _).trans array, List.Perm.of_eq ?_⟩
    simp [subscriberStart, mqttClient, usedSlots, active]
  seen snapshot listed := nomatch listed

theorem subscriptions_served (depth : Nat) (operations : List (Operation H)) (c : Client H) (buf_size : Nat) (world : World)
    (scripts : List (List (Operation H))) (array : c.messageHandlers.length = MAX_MESSAGE_HANDLERS) :
    ∀ snapshot ∈ (bookedOperations (bookedCall depth) operations
        (subscriberStart c buf_size world scripts : SubscriberSys H ε)).host.seen,
      Fits snapshot.history → Served (ε := ε) snapshot.table (active snapshot.history) := by
  intro snapshot listed fits
  have booked := operations_booked (bookedCall depth) (handlers_booked depth) operations
    (subscriberStart c buf_size world scripts : SubscriberSys H ε) (started_booked c buf_size world scripts array)
  exact tabled_served _ _ (booked.seen snapshot listed fits)

-- As a static variable: all zero.
def zeroClient : Client Nat :=
  ⟨0, 0, fun _ => 0, 0, false, false, List.replicate MAX_MESSAGE_HANDLERS ⟨none, none⟩, none, []⟩

def commandWorld (answers : List Inbound) : World :=
  ⟨(.other 0x20 [0, 0] :: answers).map arrivalOf, List.replicate 10 true, List.replicate 10 1, []⟩

def subscriberRun (operations : List (Operation Nat)) (answers : List Inbound) : SubscriberSys Nat Unit :=
  bookedOperations (bookedCall 0) (.connect none :: operations) (subscriberStart zeroClient 4096 (commandWorld answers) [])

def twoSubscriptions : SubscriberSys Nat Unit :=
  subscriberRun [.subscribe [0x61] 1 1, .subscribe [0x62] 1 2] [.other 0x90 [0, 1, 1], .other 0x90 [0, 2, 1]]

theorem two_subscriptions_served :
    Served (ε := Unit) twoSubscriptions.client.messageHandlers [([0x62], 2), ([0x61], 1)] := by
  have last : twoSubscriptions.host.seen.head? =
      some ⟨twoSubscriptions.client.messageHandlers, twoSubscriptions.host.history⟩ := rfl
  have book : twoSubscriptions.host.history = [.subscribe [0x62] 2, .subscribe [0x61] 1] := by decide +kernel
  have served := subscriptions_served (ε := Unit) 0 [.connect none, .subscribe [0x61] 1 1, .subscribe [0x62] 1 2] zeroClient
    4096 (commandWorld [.other 0x90 [0, 1, 1], .other 0x90 [0, 2, 1]]) [] rfl _ (List.mem_of_mem_head? last)
    (by rw [book]; simp [Fits, active, MAX_MESSAGE_HANDLERS])
  rw [book] at served
  exact served

def unsubscribedFilter : SubscriberSys Nat Unit :=
  subscriberRun [.subscribe [0x61] 1 1, .unsubscribe [0x61]] [.other 0x90 [0, 1, 1], .other 0xb0 [0, 2]]

-- MQTTUnsubscribe leaves the entry of its filter in the table.
theorem unsubscribed_filter_kept : unsubscribedFilter.host.history = [.unsubscribe [0x61], .subscribe [0x61] 1] ∧
    ¬ Served (ε := Unit) unsubscribedFilter.client.messageHandlers (active unsubscribedFilter.host.history) := by
  have slots : (usedSlots unsubscribedFilter.client.messageHandlers).length = 1 ∧
      (active unsubscribedFilter.host.history).length = 0 := by decide +kernel
  refine ⟨by decide +kernel, fun served => ?_⟩
  rw [served.slots, slots.2] at slots
  cases slots.1

end Aliot
