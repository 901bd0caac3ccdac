import Aliot.Operations
import Aliot.QosTwo

set_option autoImplicit false

namespace Aliot

variable {H σ ε : Type}

def payloadBytes (c : Client H) (message : MQTTMessage) : Bytes :=
  Memory.load c.readbuf message.payload message.payloadlen.toNat

def chosen (c : Client H) (topicName : MQTTLenString) (i : Nat) : Option H :=
  match c.messageHandlers[i]? with
  | some ⟨some topicFilter, some fp⟩ =>
      let topic := topicBytes c topicName
      if topic = topicFilter || isTopicMatched topicFilter topic then some fp else none
  | _ => none

-- The call of an entry's handler, with the bytes it finds at the places of topic and payload.
structure Invocation (H : Type) where
  entry : Nat
  fp : H
  topic : Bytes
  payload : Bytes
deriving DecidableEq

def invocation (c : Client H) (md : MessageData) (i : Nat) (fp : H) : Invocation H :=
  ⟨i, fp, topicBytes c md.topicName, payloadBytes c md.message⟩

def deliverTrace (call : Call H σ ε) (md : MessageData) : List Nat → Int → Sys H σ ε → List (Invocation H) × Int × Sys H σ ε
  | [], rc, s => ([], rc, s)
  | i :: is, rc, s =>
      match chosen s.client md.topicName i with
      | some fp =>
          let rest := deliverTrace call md is SUCCESS (call fp md s)
          (invocation s.client md i fp :: rest.1, rest.2)
      | none => deliverTrace call md is rc s

theorem deliver_loop_cons (call : Call H σ ε) (md : MessageData) (i : Nat) (entries : List Nat) (rc : Int)
    (s : Sys H σ ε) : deliverLoop call md (i :: entries) rc s =
      match chosen s.client md.topicName i with
      | some fp => deliverLoop call md entries SUCCESS (call fp md s)
      | none => deliverLoop call md entries rc s := by
  rw [deliverLoop, chosen]
  rcases s.client.messageHandlers[i]? with _ | ⟨_ | topicFilter, _ | fp⟩
  all_goals try rfl
  simp only
  split
  · rfl
  · rfl

theorem deliver_trace_loop (call : Call H σ ε) (md : MessageData) (entries : List Nat) (rc : Int) (s : Sys H σ ε) :
    (deliverTrace call md entries rc s).2 = deliverLoop call md entries rc s := by
  induction entries generalizing rc s with
  | nil => rfl
  | cons i entries ih =>
      rw [deliver_loop_cons, deliverTrace]
      cases chosen s.client md.topicName i with
      | some fp => exact ih SUCCESS (call fp md s)
      | none => exact ih rc s

def invoked (call : Call H σ ε) (cycle : Nat) (md : MessageData) (s : Sys H σ ε) : List (Invocation H) :=
  (deliverTrace call md (List.range MAX_MESSAGE_HANDLERS) FAILURE (s.record (.delivered cycle md.message))).1

-- The calls that the packet asks for: the entries as they are when it has been read, with its own topic and payload.
def addressedBy (c : Client H) (md : MessageData) (entries : List Nat) : List (Invocation H) :=
  entries.filterMap (fun i => (chosen c md.topicName i).map (invocation c md i))

def addressed (c : Client H) (md : MessageData) : List (Invocation H) :=
  addressedBy c md (List.range MAX_MESSAGE_HANDLERS)

def afterHandlers (call : Call H σ ε) (md : MessageData) (c : Client H) : List Nat → Sys H σ ε → Sys H σ ε
  | [], s => s
  | i :: is, s => afterHandlers call md c is (((chosen c md.topicName i).map (fun fp => call fp md s)).getD s)

-- Entry i still has the same handler for the message, and finds the packet's own bytes if it has one.
structure Intact (c t : Client H) (md : MessageData) (i : Nat) : Prop where
  handler : chosen t md.topicName i = chosen c md.topicName i
  bytes : (chosen c md.topicName i).isSome = true →
    topicBytes t md.topicName = topicBytes c md.topicName ∧ payloadBytes t md.message = payloadBytes c md.message

def IntactBefore (call : Call H σ ε) (md : MessageData) (c : Client H) : List Nat → Sys H σ ε → Prop
  | [], _ => True
  | i :: is, s => Intact c s.client md i ∧ IntactBefore call md c is (afterHandlers call md c [i] s)

-- Whenever an entry's turn comes, the handlers called so far have left it intact.
def LeftIntact (call : Call H σ ε) (cycle : Nat) (md : MessageData) (s : Sys H σ ε) : Prop :=
  ∀ i, i < MAX_MESSAGE_HANDLERS →
    Intact s.client (afterHandlers call md s.client (List.range i) (s.record (.delivered cycle md.message))).client md i

theorem intact_before_append (call : Call H σ ε) (md : MessageData) (c : Client H) (first second : List Nat)
    (s : Sys H σ ε) : IntactBefore call md c (first ++ second) s ↔
      IntactBefore call md c first s ∧ IntactBefore call md c second (afterHandlers call md c first s) := by
  induction first generalizing s with
  | nil => exact (and_iff_right trivial).symm
  | cons i first ih => simp only [List.cons_append, IntactBefore, ih, and_assoc, afterHandlers]

theorem intact_before_range (call : Call H σ ε) (md : MessageData) (c : Client H) (n : Nat) (s : Sys H σ ε) :
    IntactBefore call md c (List.range n) s ↔
      ∀ i, i < n → Intact c (afterHandlers call md c (List.range i) s).client md i := by
  induction n with
  | zero => exact iff_of_true trivial (fun i below => absurd below (Nat.not_lt_zero i))
  | succ n ih =>
      rw [List.range_succ, intact_before_append, ih]
      simp only [IntactBefore, and_true, Nat.lt_succ_iff_lt_or_eq]
      constructor
      · rintro ⟨earlier, last⟩ i (below | rfl)
        · exact earlier i below
        · exact last
      · exact fun all => ⟨fun i below => all i (.inl below), all n (.inr rfl)⟩

theorem trace_entries (call : Call H σ ε) (md : MessageData) (entries : List Nat) (rc : Int) (s : Sys H σ ε)
    (made : Invocation H) (member : made ∈ (deliverTrace call md entries rc s).1) : made.entry ∈ entries := by
  induction entries generalizing rc s with
  | nil => cases member
  | cons i entries ih =>
      rw [deliverTrace] at member
      cases here : chosen s.client md.topicName i with
      | none =>
          rw [here] at member
          exact List.mem_cons_of_mem _ (ih rc s member)
      | some fp =>
          rw [here] at member
          rcases List.mem_cons.mp member with rfl | later
          · exact List.mem_cons_self
          · exact List.mem_cons_of_mem _ (ih SUCCESS _ later)

theorem addressed_entries (c : Client H) (md : MessageData) (entries : List Nat) (made : Invocation H)
    (member : made ∈ addressedBy c md entries) : made.entry ∈ entries := by
  obtain ⟨i, listed, some⟩ := List.mem_filterMap.mp member
  obtain ⟨fp, _, rfl⟩ := Option.map_eq_some_iff.mp some
  exact listed

theorem invocation_intact_iff (c t : Client H) (md : MessageData) (i : Nat) (fp other : H)
    (expected : chosen c md.topicName i = some fp) (actual : chosen t md.topicName i = some other) :
    invocation t md i other = invocation c md i fp ↔ Intact c t md i := by
  rw [invocation, invocation, Invocation.mk.injEq]
  constructor
  · rintro ⟨_, rfl, bytes⟩
    exact ⟨actual.trans expected.symm, fun _ => bytes⟩
  · intro intact
    refine ⟨rfl, ?_, intact.bytes (by rw [expected]; rfl)⟩
    exact Option.some.inj (actual.symm.trans (intact.handler.trans expected))

theorem trace_addressed_iff (call : Call H σ ε) (md : MessageData) (c : Client H) (entries : List Nat) (rc : Int)
    (s : Sys H σ ε) (distinct : entries.Nodup) :
    (deliverTrace call md entries rc s).1 = addressedBy c md entries ↔ IntactBefore call md c entries s := by
  induction entries generalizing rc s with
  | nil => exact iff_of_true rfl trivial
  | cons i entries ih =>
      obtain ⟨absent, distinct⟩ := List.nodup_cons.mp distinct
      rw [addressedBy, List.filterMap_cons]
      cases expected : chosen c md.topicName i with
      | none =>
          simp only [Option.map_none, IntactBefore, afterHandlers, expected, Option.getD_none]
          cases actual : chosen s.client md.topicName i with
          | none =>
              have quiet : Intact c s.client md i :=
                ⟨actual.trans expected.symm, fun some => absurd some (by rw [expected]; exact Bool.false_ne_true)⟩
              simp only [deliverTrace, actual, and_iff_right quiet]
              exact ih rc s distinct
          | some fp =>
              simp only [deliverTrace, actual]
              refine iff_of_false (fun same => ?_) (fun intact => ?_)
              · have listed : invocation s.client md i fp ∈ addressedBy c md entries := by
                  rw [addressedBy, ← same]
                  exact List.mem_cons_self
                exact absent (addressed_entries c md entries _ listed)
              · cases actual.symm.trans (intact.1.handler.trans expected)
      | some fp =>
          simp only [Option.map_some, IntactBefore, afterHandlers, expected, Option.getD_some]
          cases actual : chosen s.client md.topicName i with
          | none =>
              simp only [deliverTrace, actual]
              refine iff_of_false (fun same => ?_) (fun intact => ?_)
              · have listed : invocation c md i fp ∈ (deliverTrace call md entries rc s).1 := same ▸ List.mem_cons_self
                exact absent (trace_entries call md entries rc s _ listed)
              · cases actual.symm.trans (intact.1.handler.trans expected)
          | some other =>
              have intact : invocation s.client md i other = invocation c md i fp ↔ Intact c s.client md i :=
                invocation_intact_iff c s.client md i fp other expected actual
              simp only [deliverTrace, actual, List.cons.injEq, intact]
              refine and_congr_right (fun kept => ?_)
              have same : other = fp := Option.some.inj (actual.symm.trans (kept.handler.trans expected))
              subst same
              exact ih SUCCESS (call other md s) distinct

theorem undisturbed_of_invoked (call : Call H σ ε) (cycle : Nat) (md : MessageData) (s : Sys H σ ε)
    (whole : invoked call cycle md s = addressed s.client md) : LeftIntact call cycle md s := by
  rw [invoked, addressed, trace_addressed_iff call md s.client _ _ _ List.nodup_range, intact_before_range] at whole
  exact whole

theorem invoked_undisturbed (call : Call H σ ε) (cycle : Nat) (md : MessageData) (s : Sys H σ ε)
    (undisturbed : LeftIntact call cycle md s) : invoked call cycle md s = addressed s.client md := by
  rw [invoked, addressed, trace_addressed_iff call md s.client _ _ _ List.nodup_range, intact_before_range]
  exact undisturbed

def plainPublish (topic payload : Bytes) : Inbound := .publish false false 0 topic 0 payload

-- The first handler yields, and another message comes in; the second filter is one for any topic.
def yieldingSystem : Sys Nat (List (List (Operation Nat))) Unit where
  client := { mqttClient ⟨0, 0, fun _ => 0, 0, false, false, [], none, []⟩ 4096 with
    readbuf := fun i => (plainPublish [0x74] [0x70]).wire.getD i 0
    isconnected := true
    messageHandlers := [⟨some [0x74], some 1⟩, ⟨some [0x2b], some 2⟩] }
  world := ⟨[arrivalOf (plainPublish [0x78] [0x71])], [], [1], []⟩
  host := [[.yield]]
  cycles := 1
  log := []

def yieldingMessage : MessageData :=
  let publish := mqttDeserializePublish yieldingSystem.client.readbuf ⟨0, 0, 0, 0, 0, 0⟩ ⟨0, 0⟩
  ⟨publish.topicName, publish.message⟩

end Aliot
