import Mathlib.Logic.Function.Basic
import Aliot.Instruction

set_option autoImplicit false

namespace Aliot

-- The arrays hold the C strings that the memory makes of them, written or not; a handler of none is NULL.
structure ThingStruct where
  key : Bytes
  name : Bytes
  description : Bytes
  instructionTopic : Bytes
  handler : Option Nat

-- The structs of the application by their addresses, and the pointers in registered_things.
structure Registry where
  things : Nat → ThingStruct
  registered : List Nat

def createThing (thing : ThingStruct) (key name description : Option Bytes) (h : Option Nat) : ThingStruct :=
  match key, name with
  | some key, some name => ⟨key, name, description.getD thing.description, thing.instructionTopic, h⟩
  | _, _ => thing

def executeInstructionTopic (accessKey key : Bytes) : Bytes :=
  ascii "Altizon/Datonis/" ++ printed accessKey ++ ascii "/thing/" ++ printed key ++ ascii "/executeInstruction"

def ThingStruct.subscribed (thing : ThingStruct) (accessKey : Bytes) : ThingStruct :=
  if thing.handler.isSome then { thing with instructionTopic := executeInstructionTopic accessKey thing.key } else thing

namespace Registry

def write (s : Registry) (p : Nat) (thing : ThingStruct) : Registry := { s with things := Function.update s.things p thing }

def create (s : Registry) (p : Nat) (key name description : Option Bytes) (h : Option Nat) : Registry :=
  s.write p (createThing (s.things p) key name description h)

-- What register_thing does for an acknowledged thing: it is stored as the pointer that it is.
def store (accessKey : Bytes) (s : Registry) (p : Nat) : Registry :=
  { s.write p ((s.things p).subscribed accessKey) with registered := s.registered ++ [p] }

def entry (s : Registry) (p : Nat) : Thing := ⟨p, (s.things p).instructionTopic, (s.things p).handler⟩

def stored (s : Registry) : List Thing := s.registered.map s.entry

@[simp] theorem write_here (s : Registry) (p : Nat) (thing : ThingStruct) : (s.write p thing).things p = thing :=
  Function.update_self _ _ _

theorem write_other (s : Registry) (p q : Nat) (thing : ThingStruct) (other : q ≠ p) :
    (s.write p thing).things q = s.things q := Function.update_of_ne other _ _

@[simp] theorem store_here (accessKey : Bytes) (s : Registry) (p : Nat) :
    (s.store accessKey p).things p = (s.things p).subscribed accessKey := write_here _ _ _

theorem store_other (accessKey : Bytes) (s : Registry) (p q : Nat) (other : q ≠ p) :
    (s.store accessKey p).things q = s.things q := write_other _ _ _ _ other

theorem store_absent (accessKey : Bytes) (s : Registry) (p : Nat) (absent : p ∉ s.registered) :
    ∀ q ∈ s.registered, (s.store accessKey p).things q = s.things q :=
  fun q listed => store_other accessKey s p q (fun same => absent (same ▸ listed))

theorem subscribed_handler (thing : ThingStruct) (accessKey : Bytes) : (thing.subscribed accessKey).handler = thing.handler := by
  unfold ThingStruct.subscribed
  split <;> rfl

theorem subscribed_none (thing : ThingStruct) (accessKey : Bytes) (none : thing.handler = none) :
    thing.subscribed accessKey = thing := by
  rw [ThingStruct.subscribed, if_neg (by rw [none]; exact Bool.false_ne_true)]

theorem create_topic (s : Registry) (p q : Nat) (key name description : Option Bytes) (h : Option Nat) :
    ((s.create p key name description h).things q).instructionTopic = (s.things q).instructionTopic := by
  by_cases here : q = p
  · subst here
    rw [create, write_here]
    unfold createThing
    split <;> rfl
  · rw [create, write_other _ _ _ _ here]

def Owns (s : Registry) (thing : Thing) : Prop :=
  s.registered.filter (fun p => (s.things p).instructionTopic = thing.instructionTopic) = [thing.place] ∧
    s.entry thing.place = thing

theorem owns_registered (s : Registry) (thing : Thing) (owns : s.Owns thing) : thing.place ∈ s.registered :=
  List.mem_of_mem_filter (owns.1 ▸ List.mem_singleton_self _)

theorem owns_stored (s : Registry) (thing : Thing) (owns : s.Owns thing) :
    s.stored.filter (fun stored => stored.instructionTopic = thing.instructionTopic) = [thing] := by
  have topics : (fun stored : Thing => decide (stored.instructionTopic = thing.instructionTopic)) ∘ s.entry =
    fun p => decide ((s.things p).instructionTopic = thing.instructionTopic) := rfl
  rw [stored, List.filter_map, topics, owns.1, List.map_singleton, owns.2]

theorem owns_create (s : Registry) (p : Nat) (key name description : Option Bytes) (h : Option Nat) (thing : Thing)
    (kept : thing.place = p → (createThing (s.things p) key name description h).handler = thing.handler) (owns : s.Owns thing) :
    (s.create p key name description h).Owns thing := by
  refine ⟨?_, ?_⟩
  · simp only [create_topic]
    exact owns.1
  · have handler : ((s.create p key name description h).things thing.place).handler = thing.handler := by
      by_cases here : thing.place = p
      · rw [here, create, write_here, kept here]
      · rw [create, write_other _ _ _ _ here]
        exact congrArg Thing.handler owns.2
    have topic := congrArg Thing.instructionTopic owns.2
    rw [entry, create_topic, handler]
    rw [entry] at topic
    rw [show (s.things thing.place).instructionTopic = thing.instructionTopic from topic]

-- A struct stored behind the others does not touch a thing of another topic.
theorem owns_store (accessKey : Bytes) (s : Registry) (p : Nat) (thing : Thing)
    (others : ∀ q ∈ s.registered, (s.store accessKey p).things q = s.things q)
    (apart : ((s.store accessKey p).things p).instructionTopic ≠ thing.instructionTopic) (owns : s.Owns thing) :
    (s.store accessKey p).Owns thing := by
  refine ⟨?_, ?_⟩
  · have registered : (s.store accessKey p).registered = s.registered ++ [p] := rfl
    have same : s.registered.filter (fun q => ((s.store accessKey p).things q).instructionTopic = thing.instructionTopic) =
        s.registered.filter (fun q => (s.things q).instructionTopic = thing.instructionTopic) :=
      List.filter_congr (fun q listed => by rw [others q listed])
    rw [registered, List.filter_append, same, owns.1, List.filter_cons_of_neg (by simpa using apart)]
    rfl
  · rw [entry, others _ (owns_registered s thing owns)]
    exact owns.2

theorem owns_new (accessKey : Bytes) (s : Registry) (p : Nat) (absent : p ∉ s.registered)
    (fresh : ∀ q ∈ s.registered, (s.things q).instructionTopic ≠ ((s.store accessKey p).things p).instructionTopic) :
    (s.store accessKey p).Owns ((s.store accessKey p).entry p) := by
  refine ⟨?_, rfl⟩
  have registered : (s.store accessKey p).registered = s.registered ++ [p] := rfl
  have topic : ((s.store accessKey p).entry p).instructionTopic = ((s.store accessKey p).things p).instructionTopic := rfl
  have none : s.registered.filter (fun q => ((s.store accessKey p).things q).instructionTopic =
      ((s.store accessKey p).things p).instructionTopic) = [] := by
    refine List.filter_eq_nil_iff.mpr (fun q listed => ?_)
    rw [store_absent accessKey s p absent q listed]
    simpa using fresh q listed
  rw [registered, topic, List.filter_append, none, List.filter_cons_of_pos (by simp)]
  rfl

end Registry

end Aliot
