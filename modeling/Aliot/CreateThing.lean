import Mathlib.Data.List.Count
import Aliot.RegisterOutcome

set_option autoImplicit false

namespace Aliot

-- Calls of create_thing, and of register_thing by whether Datonis acknowledges it.
inductive RegistryCall where
  | create (p : Nat) (key name description : Option Bytes) (h : Option Nat)
  | register (p : Nat) (acknowledged : Bool)
deriving DecidableEq

namespace Registry

def step (accessKey : Bytes) (s : Registry) : RegistryCall → Registry
  | .create p key name description h => s.create p key name description h
  | .register p acknowledged => if acknowledged then s.store accessKey p else s

def run (accessKey : Bytes) (s : Registry) (history : List RegistryCall) : Registry := history.foldl (step accessKey) s

def callsThrough (g : Gateway) (s : Registry) (p : Nat) (prior stray : Bytes × Outputs) (topic payload : Bytes) :
    List HandlerCall :=
  (handleInstruction g.getHmac g.secretKey s.stored prior stray topic payload).filter (fun call => call.thing.place = p)

theorem run_append (accessKey : Bytes) (s : Registry) (first second : List RegistryCall) :
    s.run accessKey (first ++ second) = (s.run accessKey first).run accessKey second := List.foldl_append

theorem run_count (accessKey : Bytes) (s : Registry) (p : Nat) (history : List RegistryCall) :
    (s.run accessKey history).registered.count p = s.registered.count p + history.count (.register p true) := by
  induction history generalizing s with
  | nil => rfl
  | cons call history ih =>
      rw [run, List.foldl_cons, ← run, ih, List.count_cons]
      cases call with
      | create q key name description h => rfl
      | register q acknowledged =>
          cases acknowledged with
          | false => simp [step]
          | true =>
              have stored : (s.step accessKey (.register q true)).registered = s.registered ++ [q] := rfl
              rw [stored, List.count_append, List.count_singleton]
              by_cases here : q = p
              · simp [here]
                omega
              · simp [here]

theorem run_topics_nul_free (accessKey : Bytes) (s : Registry) (history : List RegistryCall)
    (nulFree : ∀ q, (0 : UInt8) ∉ (s.things q).instructionTopic) (q : Nat) :
    (0 : UInt8) ∉ ((s.run accessKey history).things q).instructionTopic := by
  induction history generalizing s with
  | nil => exact nulFree q
  | cons call history ih =>
      refine ih (s.step accessKey call) (fun r => ?_)
      cases call with
      | create p key name description h =>
          rw [step, create_topic]
          exact nulFree r
      | register p acknowledged =>
          cases acknowledged with
          | false => exact nulFree r
          | true =>
              rw [step, if_pos rfl]
              by_cases here : r = p
              · rw [here, store_here, ThingStruct.subscribed]
                split
                · exact topic_nul_free _ _
                · exact nulFree p
              · rw [store_other _ _ _ _ here]
                exact nulFree r

end Registry

namespace Session

variable (depth : Nat)

instance (x : Session) (timestamp : Bytes) (p : Nat) : Decidable (x.Acknowledged depth timestamp p) :=
  inferInstanceAs (Decidable (_ = _))

def registryCalls (x : Session) : SessionCall → List RegistryCall
  | .create p key name description h => [.create p key name description h]
  | .register timestamp p => [.register p (decide (x.Acknowledged depth timestamp p))]
  | _ => []

def registryHistory (x : Session) : List SessionCall → List RegistryCall
  | [] => []
  | call :: history => x.registryCalls depth call ++ registryHistory (x.step depth call) history

theorem step_registry (x : Session) (call : SessionCall) :
    (x.step depth call).registry = x.registry.run x.gateway.accessKey (x.registryCalls depth call) := by
  cases call with
  | connect time => exact connect_stores_nothing depth x time
  | create p key name description h => rfl
  | register timestamp p =>
      have stepped : (x.step depth (.register timestamp p)).registry =
          (registerThing x.gateway (x.call depth) timestamp p x.sys).2.host.registry := rfl
      rw [stepped]
      rcases register_stores depth x timestamp p with ⟨refused, _, kept⟩ | ⟨acknowledged, _, stored⟩
      · rw [kept, registryCalls, decide_eq_false refused]
        rfl
      · rw [stored, registryCalls, decide_eq_true acknowledged]
        rfl
  | command command =>
      have calls := gateway_call_carried Stays stays_gateway x.gateway depth
      exact (app_command_carried Stays stays_gateway x.gateway _ calls command x.sys).registry

theorem run_registry (x : Session) (history : List SessionCall) :
    (x.run depth history).registry = x.registry.run x.gateway.accessKey (x.registryHistory depth history) := by
  induction history generalizing x with
  | nil => rfl
  | cons call history ih =>
      have key : (x.step depth call).gateway.accessKey = x.gateway.accessKey := by cases call <;> rfl
      rw [registryHistory, Registry.run_append, ← step_registry, ← key, ← ih]
      rfl

end Session

def StructUnseen (p : Nat) (history : List RegistryCall) : Prop :=
  ∀ key name description h, .create p key name description h ∉ history

def blankStruct : ThingStruct := ⟨[], [], [], [], none⟩

section Arguments

variable (p : Nat) (key name : Bytes) (description : Option Bytes) (h : Option Nat) (before later : List RegistryCall)

def created : RegistryCall := .create p (some key) (some name) description h

-- The packet and the dispatch as from a struct of zeros that is created and registered once.
structure DependsOnArguments : Prop where
  packet : ∀ accessKey memory timestamp,
    getThingRegisterJson
        ((((Registry.mk memory []).run accessKey (before ++ [created p key name description h])).things p).bean) timestamp =
      getThingRegisterJson (createThing blankStruct (some key) (some name) description h).bean timestamp
  noDescription : description = none → ∀ accessKey memory timestamp,
    getThingRegisterJson
        ((((Registry.mk memory []).run accessKey (before ++ [created p key name description h])).things p).bean) timestamp =
      getThingRegisterJson ⟨key, name, none, h.isSome⟩ timestamp
  dispatch : ∀ (g : Gateway) memory prior stray topic payload,
    ((Registry.mk memory []).run g.accessKey (before ++ created p key name description h :: .register p true :: later)).callsThrough
        g p prior stray topic payload =
      ((Registry.mk (fun _ => blankStruct) []).run g.accessKey [created p key name description h, .register p true]).callsThrough
        g p prior stray topic payload
  noHandler : h = none → ∀ (g : Gateway) memory prior stray topic payload,
    ((Registry.mk memory []).run g.accessKey (before ++ created p key name description h :: .register p true :: later)).callsThrough
        g p prior stray topic payload = []

end Arguments

theorem handle_instruction_entries (getHmac : GetHmac) (secretKey : Bytes) (things : List Thing) (prior stray : Bytes × Outputs)
    (topic payload : Bytes) : handleInstruction getHmac secretKey things prior stray topic payload =
      things.flatMap (fun thing => handleInstruction getHmac secretKey [thing] prior stray topic payload) := by
  simp only [handleInstruction]
  split
  · split
    · induction things with
      | nil => rfl
      | cons thing things ih =>
          rw [List.flatMap_cons, ← ih, ← List.map_append, ← List.filter_append]
          rfl
    · simp
  · simp

theorem handle_instruction_place (getHmac : GetHmac) (secretKey : Bytes) (thing : Thing) (prior stray : Bytes × Outputs)
    (topic payload : Bytes) (call : HandlerCall)
    (called : call ∈ handleInstruction getHmac secretKey [thing] prior stray topic payload) : call.thing = thing := by
  simp only [handleInstruction] at called
  split at called
  · split at called
    · obtain ⟨other, listed, rfl⟩ := List.mem_map.mp called
      exact List.mem_singleton.mp (List.mem_of_mem_filter listed)
    · cases called
  · cases called

-- The calls through a struct are those of its entry, once for every time it is in the array.
theorem calls_through_count (g : Gateway) (s : Registry) (p : Nat) (prior stray : Bytes × Outputs) (topic payload : Bytes) :
    s.callsThrough g p prior stray topic payload = (List.replicate (s.registered.count p) p).flatMap
      (fun q => handleInstruction g.getHmac g.secretKey [s.entry q] prior stray topic payload) := by
  rw [Registry.callsThrough, handle_instruction_entries, Registry.stored, List.flatMap_map, List.filter_flatMap,
    ← List.filter_eq]
  induction s.registered with
  | nil => rfl
  | cons q registered ih =>
      have places : ∀ call ∈ handleInstruction g.getHmac g.secretKey [s.entry q] prior stray topic payload,
          call.thing.place = q := fun call called =>
        congrArg Thing.place (handle_instruction_place _ _ (s.entry q) prior stray topic payload call called)
      rw [List.flatMap_cons, ih]
      by_cases here : p = q
      · subst here
        rw [List.filter_cons_of_pos (by simp), List.flatMap_cons,
          List.filter_eq_self.mpr (fun call called => decide_eq_true (places call called))]
      · rw [List.filter_cons_of_neg (by simpa using Ne.symm here), List.filter_eq_nil_iff.mpr (fun call called => ?_), List.nil_append]
        rw [places call called]
        exact fun same => here (of_decide_eq_true same).symm

section Registry

open Registry

variable (accessKey : Bytes)

structure Registered (s : Registry) (p : Nat) (key : Bytes) (f : Nat) : Prop where
  named : (s.things p).key = key
  handler : (s.things p).handler = some f
  topic : (s.things p).instructionTopic = executeInstructionTopic accessKey key

theorem registered_entry (s : Registry) (p : Nat) (key : Bytes) (f : Nat) (inv : Registered accessKey s p key f) :
    s.entry p = ⟨p, executeInstructionTopic accessKey key, some f⟩ := by
  rw [Registry.entry, inv.topic, inv.handler]

theorem store_registered (s : Registry) (p : Nat) (key : Bytes) (f : Nat) (named : (s.things p).key = key)
    (handler : (s.things p).handler = some f) : Registered accessKey (s.store accessKey p) p key f := by
  have subscribed : (s.store accessKey p).things p =
      { s.things p with instructionTopic := executeInstructionTopic accessKey (s.things p).key } := by
    rw [store_here, ThingStruct.subscribed, if_pos (by rw [handler]; rfl)]
  refine ⟨?_, ?_, ?_⟩
  · rw [subscribed, named]
  · rw [subscribed, handler]
  · rw [subscribed, named]

theorem created_registered (s : Registry) (p : Nat) (key name : Bytes) (description : Option Bytes) (f : Nat) :
    Registered accessKey ((s.create p (some key) (some name) description (some f)).store accessKey p) p key f := by
  apply store_registered
  · rw [create, write_here, createThing]
  · rw [create, write_here, createThing]

theorem registered_step (s : Registry) (p : Nat) (key : Bytes) (f : Nat) (call : RegistryCall)
    (other : ∀ key name description h, call ≠ .create p key name description h) (inv : Registered accessKey s p key f) :
    Registered accessKey (s.step accessKey call) p key f := by
  have kept : ∀ t : Registry, t.things p = s.things p → Registered accessKey t p key f :=
    fun t same => ⟨by rw [same, inv.named], by rw [same, inv.handler], by rw [same, inv.topic]⟩
  cases call with
  | create q key' name description h =>
      have apart : p ≠ q := fun same => other key' name description h (same ▸ rfl)
      exact kept _ (write_other _ _ _ _ apart)
  | register q acknowledged =>
      cases acknowledged with
      | false => exact inv
      | true =>
          by_cases same : p = q
          · subst same
            exact store_registered accessKey s p key f inv.named inv.handler
          · exact kept _ (store_other _ _ _ _ same)

theorem registered_run (s : Registry) (p : Nat) (key : Bytes) (f : Nat) (history : List RegistryCall)
    (untouched : StructUnseen p history) (inv : Registered accessKey s p key f) :
    Registered accessKey (s.run accessKey history) p key f := by
  induction history generalizing s with
  | nil => exact inv
  | cons call history ih =>
      refine ih _ (fun key name description h listed => untouched key name description h (List.mem_cons_of_mem _ listed)) ?_
      refine registered_step accessKey s p key f call (fun key name description h same => ?_) inv
      exact untouched key name description h (same ▸ List.mem_cons_self)

end Registry

section Arguments

variable (p : Nat) (key name : Bytes) (description : Option Bytes) (h : Option Nat) (before later : List RegistryCall)

theorem created_thing (accessKey : Bytes) (memory : Nat → ThingStruct) :
    ∃ thing : ThingStruct, ((Registry.mk memory []).run accessKey (before ++ [created p key name description h])).things p =
      createThing thing (some key) (some name) description h := by
  rw [Registry.run_append]
  exact ⟨_, Registry.write_here _ _ _⟩

theorem run_registered (accessKey : Bytes) (memory : Nat → ThingStruct) (f : Nat) (untouched : StructUnseen p later) :
    Registered accessKey ((Registry.mk memory []).run accessKey
      (before ++ created p key name description (some f) :: .register p true :: later)) p key f := by
  rw [Registry.run_append]
  exact registered_run accessKey _ p key f later untouched (created_registered accessKey _ p key name description f)

theorem run_registered_count (accessKey : Bytes) (memory : Nat → ThingStruct) :
    ((Registry.mk memory []).run accessKey (before ++ created p key name description h :: .register p true :: later)).registered.count p =
      before.count (.register p true) + later.count (.register p true) + 1 := by
  have other : created p key name description h ≠ .register p true := nofun
  rw [Registry.run_count, List.count_append, List.count_cons_of_ne other, List.count_cons_self]
  have none : ([] : List Nat).count p = 0 := rfl
  rw [none]
  omega

-- The run that the arguments are compared with.
theorem run_fresh (accessKey : Bytes) (f : Nat) (fresh : Registry)
    (once : fresh = (Registry.mk (fun _ => blankStruct) []).run accessKey
      [created p key name description (some f), .register p true]) :
    Registered accessKey fresh p key f ∧ fresh.registered.count p = 1 := by
  subst once
  exact ⟨run_registered p key name description [] [] accessKey (fun _ => blankStruct) f (fun _ _ _ _ listed => nomatch listed),
    run_registered_count p key name description (some f) [] [] accessKey (fun _ => blankStruct)⟩

theorem depends_on_both (d : Bytes) (f : Nat) (untouched : StructUnseen p later)
    (first : .register p true ∉ before) (last : .register p true ∉ later) :
    DependsOnArguments p key name (some d) (some f) before later where
  packet accessKey memory timestamp := by
    obtain ⟨thing, same⟩ := created_thing p key name (some d) (some f) before accessKey memory
    rw [same]
    rfl
  noDescription none := nomatch none
  dispatch g memory prior stray topic payload := by
    have long := run_registered p key name (some d) before later g.accessKey memory f untouched
    have once := run_registered_count p key name (some d) (some f) before later g.accessKey memory
    obtain ⟨short, fresh⟩ := run_fresh p key name (some d) g.accessKey f _ rfl
    rw [List.count_eq_zero_of_not_mem first, List.count_eq_zero_of_not_mem last] at once
    rw [calls_through_count, calls_through_count, once, fresh, Nat.zero_add]
    simp only [List.replicate_one, List.flatMap_singleton, registered_entry g.accessKey _ p key f long,
      registered_entry g.accessKey _ p key f short]
  noHandler none := nomatch none

-- The member is in the text whatever the array holds, even nothing.
theorem description_sent (thing : ThingStruct) (timestamp : Bytes) :
    getThingRegisterJson (createThing thing (some key) (some name) none h).bean timestamp ≠
      getThingRegisterJson ⟨key, name, none, h.isSome⟩ timestamp := by
  intro same
  have comma : 0 < (ascii ",").length := by decide
  have lengths := congrArg List.length same
  cases h <;>
    simp [createThing, ThingStruct.bean, getThingRegisterJson, putJSONStringAndComma, putJSONString, endJSON] at lengths <;>
    omega

-- An instruction signed for lampGateway goes to the struct as often as the struct is in the array.
theorem lamp_calls_length (s : Registry) (nulFree : (0 : UInt8) ∉ (s.things p).instructionTopic) :
    (s.callsThrough lampGateway p ([], ⟨[], [], [], []⟩) ([], ⟨[], [], [], []⟩) (s.things p).instructionTopic
      lampMessage.text).length = s.registered.count p := by
  have called := handle_instruction_things lampGateway [s.entry p] ([], ⟨[], [], [], []⟩) ([], ⟨[], [], [], []⟩)
    (s.things p).instructionTopic lampMessage.text (lamp_message_signed [])
  have own : decide ((s.entry p).instructionTopic = printed (s.things p).instructionTopic) = true := by
    rw [printed_of_nul_free _ nulFree]
    exact decide_eq_true rfl
  have one := congrArg List.length called
  rw [List.length_map, List.filter_singleton, own, cond_true, List.length_singleton] at one
  rw [calls_through_count, List.length_flatMap]
  simp [one]

def lampMemory : Nat → ThingStruct := fun _ => ⟨[], [], [], lampTopic, none⟩

theorem lamp_memory_nul_free (q : Nat) : (0 : UInt8) ∉ ((Registry.mk lampMemory []).things q).instructionTopic := by
  change (0 : UInt8) ∉ lampTopic
  decide +kernel

-- A struct in which a topic is left over is registered without a handler: its instruction is called through NULL.
theorem leftover_topic_called : ¬ DependsOnArguments p key name description none before later := by
  intro depends
  have nulFree := Registry.run_topics_nul_free lampGateway.accessKey _
    (before ++ created p key name description none :: .register p true :: later) lamp_memory_nul_free p
  have calls := lamp_calls_length p _ nulFree
  rw [depends.noHandler rfl lampGateway lampMemory, run_registered_count] at calls
  exact Nat.succ_ne_zero _ calls.symm

theorem registered_again_differs (f : Nat) (untouched : StructUnseen p later)
    (depends : DependsOnArguments p key name description (some f) before later) :
    before.count (.register p true) + later.count (.register p true) = 0 := by
  have long := run_registered p key name description before later lampGateway.accessKey lampMemory f untouched
  obtain ⟨short, fresh⟩ := run_fresh p key name description lampGateway.accessKey f _ rfl
  have often := lamp_calls_length p _ (by rw [long.topic]; exact topic_nul_free _ _)
  have once := lamp_calls_length p _ (by rw [short.topic]; exact topic_nul_free _ _)
  rw [long.topic, depends.dispatch lampGateway lampMemory, run_registered_count] at often
  rw [short.topic, fresh] at once
  have same := often.symm.trans once
  omega

end Arguments

-- create_thing(&t, "k", "n", NULL, NULL) on a struct that has been another thing.
theorem reused_struct_sent : ¬ DependsOnArguments 0 (ascii "k") (ascii "n") none none
    [.create 0 (some (ascii "l")) (some (ascii "m")) (some (ascii "lamp")) (some 7), .register 0 true] [] := by
  intro depends
  have packet := depends.packet [] (fun _ => blankStruct) (ascii "1")
  revert packet
  decide +kernel

theorem create_thing_depends_iff (p : Nat) (key name : Bytes) (description : Option Bytes) (h : Option Nat)
    (before later : List RegistryCall) (untouched : StructUnseen p later) :
    DependsOnArguments p key name description h before later ↔
      description ≠ none ∧ h ≠ none ∧ .register p true ∉ before ∧ .register p true ∉ later := by
  constructor
  · intro depends
    have handled : h ≠ none := by
      rintro rfl
      exact leftover_topic_called p key name description before later depends
    obtain ⟨f, rfl⟩ := Option.ne_none_iff_exists'.mp handled
    have once := registered_again_differs p key name description before later f untouched depends
    refine ⟨?_, handled, List.count_eq_zero.mp (by omega), List.count_eq_zero.mp (by omega)⟩
    rintro rfl
    obtain ⟨thing, same⟩ := created_thing p key name none (some f) before [] (fun _ => blankStruct)
    have sent := depends.noDescription rfl [] (fun _ => blankStruct) []
    rw [same] at sent
    exact description_sent key name (some f) thing [] sent
  · rintro ⟨described, handled, first, last⟩
    obtain ⟨d, rfl⟩ := Option.ne_none_iff_exists'.mp described
    obtain ⟨f, rfl⟩ := Option.ne_none_iff_exists'.mp handled
    exact depends_on_both p key name before later d f untouched first last

theorem described_thing_depends : DependsOnArguments 0 (ascii "k") (ascii "n") (some (ascii "lamp")) (some 7)
    [.create 0 (some (ascii "l")) (some (ascii "m")) none none, .register 1 true] [.register 2 true] :=
  (create_thing_depends_iff 0 (ascii "k") (ascii "n") (some (ascii "lamp")) (some 7) _ _ (by simp [StructUnseen])).mpr
    ⟨nofun, nofun, by decide, by decide⟩

end Aliot
