import Aliot.TokenTree

set_option autoImplicit false

namespace Aliot

open Json (Value Members Items)

structure Outputs where
  hash : Bytes
  thingKey : Bytes
  alertKey : Bytes
  instruction : Bytes
deriving DecidableEq

structure Walk where
  current : Bytes
  out : Outputs
  state : Nat
deriving DecidableEq

def stateAfter (buf : Bytes) : Nat :=
  if buf = ascii "instruction" then 5
  else if buf = ascii "hash" then 1
  else if buf = ascii "access_key" then 2
  else if buf = ascii "alert_key" then 3
  else if buf = ascii "thing_key" then 4
  else 0

def stringRead (buf : Bytes) (w : Walk) : Walk :=
  if w.state = 1 then { w with out := { w.out with hash := buf }, state := 0 }
  else if w.state = 2 then { w with state := 0 }
  else
    let out :=
      if w.state = 3 then { w.out with alertKey := buf }
      else if w.state = 4 then { w.out with thingKey := buf }
      else w.out
    let state := stateAfter buf
    if state = 1 ∨ state = 2 then ⟨w.current, out, state⟩
    else ⟨w.current ++ Json.quoted buf, out, state⟩

def keySkipped (w : Walk) : Prop := w.state = 1 ∨ w.state = 2

instance (w : Walk) : Decidable (keySkipped w) := inferInstanceAs (Decidable (_ ∨ _))

def Walk.strcat (w : Walk) (byte : UInt8) : Walk := { w with current := w.current ++ [byte] }

-- A separator that a skipped key leaves out.
def separate (w : Walk) (skipped : Prop) [Decidable skipped] (separator : UInt8) : Walk :=
  if skipped then w else w.strcat separator

-- `w` holds new_object as the loop left it, `outer` is the walk as it was on entry.
def closeContainer (outer w : Walk) (closing : UInt8) : Walk :=
  let new_object := w.current.dropLast ++ [closing]
  ⟨outer.current ++ new_object, if outer.state = 5 then { w.out with instruction := new_object } else w.out, w.state⟩

def objectLoop (child : Nat → Walk → Option (Nat × Walk)) : Nat → Nat → Walk → Option (Nat × Walk)
  | 0, j, w => some (j, w)
  | left + 1, j, w => do
      let (used, w) ← child j w
      let skipped := keySkipped w
      let (used', w) ← child (j + used) (separate w skipped 0x3a)
      objectLoop child left (j + used + used') (separate w skipped 0x2c)

def arrayLoop (child : Nat → Walk → Option (Nat × Walk)) : Nat → Nat → Walk → Option (Nat × Walk)
  | 0, j, w => some (j, w)
  | left + 1, j, w => do
      let (used, w) ← child j w
      arrayLoop child left (j + used) (w.strcat 0x2c)

-- None stands for a walk that reads a token jsmn_parse has not written.
def jsonHandler (js : Bytes) (tokens : List JsmnTok) : Nat → Nat → Nat → Walk → Option (Nat × Walk)
  | 0, _, _, _ => none
  | fuel + 1, t, count, w =>
      if count = 0 then some (0, w)
      else
        match tokens[t]? with
        | none => none
        | some tok =>
            let child := fun j w => jsonHandler js tokens fuel (t + 1 + j) (count - j) w
            match tok.type with
            | .primitive => some (1, { w with current := w.current ++ tokenText js tok })
            | .string => some (1, stringRead (tokenText js tok) w)
            | .object => do
                let (j, inner) ← objectLoop child tok.size 0 { w with current := [0x7b] }
                return (j + 1, closeContainer w inner 0x7d)
            | .array => do
                let (j, inner) ← arrayLoop child tok.size 0 { w with current := [0x5b] }
                return (j + 1, closeContainer w inner 0x5d)

structure Parsed where
  rc : Int
  originalJson : Bytes
  out : Outputs
deriving DecidableEq

-- `stray` is what a walk that leaves the written tokens puts into the outputs.
def parseInstructionJson (json : Bytes) (prior stray : Bytes × Outputs) : Parsed :=
  let parsed := jsmnParse json 100
  if parsed.rc < 0 then ⟨parsed.rc, prior.1, prior.2⟩
  else
    match jsonHandler json parsed.tokens (parsed.tokens.length + 1) 0 parsed.tokens.length ⟨[], prior.2, 0⟩ with
    | some (_, w) => ⟨0, w.current, w.out⟩
    | none => ⟨0, stray.1, stray.2⟩

theorem state_after_hash : stateAfter (ascii "hash") = 1 := by decide

theorem state_after_access_key : stateAfter (ascii "access_key") = 2 := by decide

theorem state_after_other (word : Bytes) (notHash : word ≠ ascii "hash") (notAccess : word ≠ ascii "access_key") :
    stateAfter word ≠ 1 ∧ stateAfter word ≠ 2 := by
  unfold stateAfter
  rw [if_neg notHash, if_neg notAccess]
  repeat' split
  all_goals decide

mutual
def walkValue : Value → Walk → Walk
  | .primitive text, w => { w with current := w.current ++ text }
  | .string body, w => stringRead body w
  | .object members, w => closeContainer w (walkMembers members { w with current := [0x7b] }) 0x7d
  | .array items, w => closeContainer w (walkItems items { w with current := [0x5b] }) 0x5d

def walkMembers : Members → Walk → Walk
  | .nil, w => w
  | .cons key value rest, w =>
      let w := walkValue key w
      walkMembers rest (separate (walkValue value (separate w (keySkipped w) 0x3a)) (keySkipped w) 0x2c)

def walkItems : Items → Walk → Walk
  | .nil, w => w
  | .cons value rest, w => walkItems rest ((walkValue value w).strcat 0x2c)
end

theorem object_loop_followed (child : Nat → Walk → Option (Nat × Walk)) (tree : Nat → Option (Nat × Value))
    (total base size j : Nat) (w : Walk) (follows : Follows total base child tree walkValue) (here : base + j ≤ total) :
    objectLoop child size j w = (readMembers tree size j).map (fun (j, members) => (j, walkMembers members w)) :=
  members_followed follows (objectLoop child) walkMembers (fun w => separate w (keySkipped w) 0x3a)
    (fun key value => separate value (keySkipped key) 0x2c) (fun _ _ => rfl) (fun _ _ _ => rfl) (fun _ => rfl)
    (fun _ _ _ _ => rfl) size j w here

theorem array_loop_followed (child : Nat → Walk → Option (Nat × Walk)) (tree : Nat → Option (Nat × Value))
    (total base size j : Nat) (w : Walk) (follows : Follows total base child tree walkValue) (here : base + j ≤ total) :
    arrayLoop child size j w = (readItems tree size j).map (fun (j, items) => (j, walkItems items w)) :=
  items_followed follows (arrayLoop child) walkItems (fun w => w.strcat 0x2c) (fun _ _ => rfl) (fun _ _ _ => rfl)
    (fun _ => rfl) (fun _ _ _ => rfl) size j w here

section Read

variable (js : Bytes) (tokens : List JsmnTok)

-- The count that json_handler carries along cannot run out before the tokens do.
theorem json_handler_walk (fuel t count : Nat) (w : Walk) (within : tokens.length ≤ t + count) (here : t ≤ tokens.length)
    (counted : 0 < count) :
    jsonHandler js tokens fuel t count w =
      (readTree js tokens fuel t).map (fun (used, value) => (used, walkValue value w)) := by
  induction fuel generalizing t count w with
  | zero => rfl
  | succ fuel ih =>
      simp only [jsonHandler, readTree, Nat.pos_iff_ne_zero.mp counted, if_false]
      cases found : tokens[t]? with
      | none => rfl
      | some tok =>
          have inside : t < tokens.length := (List.getElem?_eq_some_iff.mp found).1
          have follows := tree_follows js tokens fuel (t + 1)
            (fun j w => jsonHandler js tokens fuel (t + 1 + j) (count - j) w) walkValue
            (fun j w here => ih (t + 1 + j) (count - j) w (by omega) here (by omega))
          cases type : tok.type with
          | primitive => simp only [type]; rfl
          | string => simp only [type]; rfl
          | object =>
              simp only [type]
              rw [object_loop_followed _ _ _ _ tok.size 0 _ follows inside]
              cases readMembers (fun j => readTree js tokens fuel (t + 1 + j)) tok.size 0 <;> rfl
          | array =>
              simp only [type]
              rw [array_loop_followed _ _ _ _ tok.size 0 _ follows inside]
              cases readItems (fun j => readTree js tokens fuel (t + 1 + j)) tok.size 0 <;> rfl

end Read

-- None for a payload that is rejected, has no token, or whose walk leaves the tokens.
def document (json : Bytes) : Option Value :=
  let parsed := jsmnParse json 100
  if parsed.rc < 0 then none else readDocument json parsed.tokens

theorem parse_rejected (json : Bytes) (prior stray : Bytes × Outputs) (rejected : (jsmnParse json 100).rc < 0) :
    parseInstructionJson json prior stray = ⟨(jsmnParse json 100).rc, prior.1, prior.2⟩ := by
  simp only [parseInstructionJson, rejected, if_true]

theorem document_read (json : Bytes) (value : Value) (read : document json = some value) :
    ¬ (jsmnParse json 100).rc < 0 ∧ ∃ used,
      readTree json (jsmnParse json 100).tokens ((jsmnParse json 100).tokens.length + 1) 0 = some (used, value) := by
  unfold document at read
  by_cases rejected : (jsmnParse json 100).rc < 0
  · simp only [rejected, if_true] at read
    cases read
  · simp only [rejected, if_false, readDocument] at read
    obtain ⟨⟨used, value⟩, tree, rfl⟩ := Option.map_eq_some_iff.mp read
    exact ⟨rejected, used, tree⟩

theorem parse_document (json : Bytes) (prior stray : Bytes × Outputs) (value : Value)
    (read : document json = some value) :
    parseInstructionJson json prior stray =
      ⟨0, (walkValue value ⟨[], prior.2, 0⟩).current, (walkValue value ⟨[], prior.2, 0⟩).out⟩ := by
  obtain ⟨accepted, used, tree⟩ := document_read json value read
  have counted := read_tree_nonempty json (jsmnParse json 100).tokens _ _ tree
  have walk := json_handler_walk json (jsmnParse json 100).tokens ((jsmnParse json 100).tokens.length + 1) 0
    (jsmnParse json 100).tokens.length ⟨[], prior.2, 0⟩ (by simp) (by simp) counted
  simp only [parseInstructionJson, accepted, if_false, walk, tree, Option.map_some]

theorem parse_no_document (json : Bytes) (prior stray : Bytes × Outputs) (accepted : ¬ (jsmnParse json 100).rc < 0)
    (missing : document json = none) :
    parseInstructionJson json prior stray =
      if (jsmnParse json 100).tokens = [] then ⟨0, [], prior.2⟩ else ⟨0, stray.1, stray.2⟩ := by
  simp only [document, accepted, if_false, readDocument, Option.map_eq_none_iff] at missing
  by_cases empty : (jsmnParse json 100).tokens = []
  · simp only [parseInstructionJson, accepted, if_false, empty, if_true]
    rfl
  · have counted : 0 < (jsmnParse json 100).tokens.length := List.length_pos_of_ne_nil empty
    have walk := json_handler_walk json (jsmnParse json 100).tokens ((jsmnParse json 100).tokens.length + 1) 0
      (jsmnParse json 100).tokens.length ⟨[], prior.2, 0⟩ (by simp) (by simp) counted
    simp only [parseInstructionJson, accepted, if_false, walk, missing, Option.map_none, empty]

end Aliot
