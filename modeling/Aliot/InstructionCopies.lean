import Aliot.Instruction

set_option autoImplicit false

namespace Aliot

open Json (Value Members Items)

-- A string written to an array: the size of the array, and the length of the string without its NUL.
structure Copy where
  capacity : Nat
  length : Nat
deriving DecidableEq

def Copy.Fits (copy : Copy) : Prop := copy.length + 1 ≤ copy.capacity

instance (copy : Copy) : Decidable copy.Fits := inferInstanceAs (Decidable (_ ≤ _))

def AllFit (copies : List Copy) : Prop := ∀ copy ∈ copies, copy.Fits

-- A walk and the copies it has made, oldest first.
abbrev Copied (ω : Type) := ω × List Copy

def stringSkipped (state : Nat) (buf : Bytes) : Prop :=
  state = 1 ∨ state = 2 ∨ stateAfter buf = 1 ∨ stateAfter buf = 2

instance (state : Nat) (buf : Bytes) : Decidable (stringSkipped state buf) :=
  inferInstanceAs (Decidable (_ ∨ _ ∨ _ ∨ _))

-- `capacity` is that of the array behind `current`.
def primitiveCopies (capacity : Nat) (text : Bytes) (w : Walk) : List Copy :=
  [⟨200, text.length⟩, ⟨capacity, w.current.length + text.length⟩]

def outputCopies (state : Nat) (buf : Bytes) : List Copy :=
  if state = 1 then [⟨65, buf.length⟩]
  else if state = 3 then [⟨25, buf.length⟩]
  else if state = 4 then [⟨50, buf.length⟩]
  else []

def quoteCopies (capacity : Nat) (buf : Bytes) (w : Walk) : List Copy :=
  if stringSkipped w.state buf then []
  else
    [⟨capacity, w.current.length + 1⟩, ⟨capacity, w.current.length + 1 + buf.length⟩,
      ⟨capacity, w.current.length + 1 + buf.length + 1⟩]

def stringCopies (capacity : Nat) (buf : Bytes) (w : Walk) : List Copy :=
  ⟨200, buf.length⟩ :: (outputCopies w.state buf ++ quoteCopies capacity buf w)

def separatorCopies (capacity : Nat) (w : Walk) (skipped : Prop) [Decidable skipped] : List Copy :=
  if skipped then [] else [⟨capacity, w.current.length + 1⟩]

-- The closing bracket, new_object appended to current and, for an instruction, copied to it.
def closeCopies (capacity container : Nat) (outer w : Walk) : List Copy :=
  let length := w.current.dropLast.length + 1
  [⟨container, length⟩, ⟨capacity, outer.current.length + length⟩] ++ if outer.state = 5 then [⟨2048, length⟩] else []

def separateCopied (capacity : Nat) (x : Copied Walk) (skipped : Prop) [Decidable skipped] (separator : UInt8) : Copied Walk :=
  (separate x.1 skipped separator, x.2 ++ separatorCopies capacity x.1 skipped)

def openCopied (container : Nat) (x : Copied Walk) (bracket : UInt8) : Copied Walk :=
  ({ x.1 with current := [bracket] }, x.2 ++ [⟨container, 1⟩])

def closeCopied (capacity container : Nat) (outer x : Copied Walk) (closing : UInt8) : Copied Walk :=
  (closeContainer outer.1 x.1 closing, x.2 ++ closeCopies capacity container outer.1 x.1)

def objectLoopCopied (child : Nat → Copied Walk → Option (Nat × Copied Walk)) :
    Nat → Nat → Copied Walk → Option (Nat × Copied Walk)
  | 0, j, x => some (j, x)
  | left + 1, j, x => do
      let (used, x) ← child j x
      let skipped := keySkipped x.1
      let (used', x) ← child (j + used) (separateCopied 2048 x skipped 0x3a)
      objectLoopCopied child left (j + used + used') (separateCopied 2048 x skipped 0x2c)

def arrayLoopCopied (child : Nat → Copied Walk → Option (Nat × Copied Walk)) :
    Nat → Nat → Copied Walk → Option (Nat × Copied Walk)
  | 0, j, x => some (j, x)
  | left + 1, j, x => do
      let (used, x) ← child j x
      arrayLoopCopied child left (j + used) (separateCopied 1024 x False 0x2c)

-- json_handler with a record of what it copies.
def jsonHandlerCopied (js : Bytes) (tokens : List JsmnTok) : Nat → Nat → Nat → Nat → Copied Walk → Option (Nat × Copied Walk)
  | 0, _, _, _, _ => none
  | fuel + 1, t, count, capacity, x =>
      if count = 0 then some (0, x)
      else
        match tokens[t]? with
        | none => none
        | some tok =>
            let child := fun capacity j x => jsonHandlerCopied js tokens fuel (t + 1 + j) (count - j) capacity x
            let text := tokenText js tok
            match tok.type with
            | .primitive => some (1, { x.1 with current := x.1.current ++ text }, x.2 ++ primitiveCopies capacity text x.1)
            | .string => some (1, stringRead text x.1, x.2 ++ stringCopies capacity text x.1)
            | .object => do
                let (j, inner) ← objectLoopCopied (child 2048) tok.size 0 (openCopied 2048 x 0x7b)
                return (j + 1, closeCopied capacity 2048 x inner 0x7d)
            | .array => do
                let (j, inner) ← arrayLoopCopied (child 1024) tok.size 0 (openCopied 1024 x 0x5b)
                return (j + 1, closeCopied capacity 1024 x inner 0x5d)

def erased {ω : Type} (found : Nat × Copied ω) : Nat × ω := (found.1, found.2.1)

theorem object_loop_erased (child : Nat → Copied Walk → Option (Nat × Copied Walk)) (plain : Nat → Walk → Option (Nat × Walk))
    (same : ∀ j x, (child j x).map erased = plain j x.1) (size j : Nat) (x : Copied Walk) :
    (objectLoopCopied child size j x).map erased = objectLoop plain size j x.1 := by
  induction size generalizing j x with
  | zero => rfl
  | succ size ih =>
      have key := same j x
      cases found : child j x with
      | none => simp [objectLoopCopied, objectLoop, found, ← key]
      | some past =>
          have value := same (j + past.1) (separateCopied 2048 past.2 (keySkipped past.2.1) 0x3a)
          simp only [found, Option.map_some] at key
          cases next : child (j + past.1) (separateCopied 2048 past.2 (keySkipped past.2.1) 0x3a) with
          | none =>
              rw [next] at value
              simp only [objectLoopCopied, objectLoop, found, next, ← key, Option.bind_eq_bind, Option.bind_some, erased]
              rw [show plain (j + past.1) (separate past.2.1 (keySkipped past.2.1) 0x3a) = none from value.symm]
              rfl
          | some read =>
              rw [next] at value
              simp only [objectLoopCopied, objectLoop, found, next, ← key, Option.bind_eq_bind, Option.bind_some, erased]
              rw [show plain (j + past.1) (separate past.2.1 (keySkipped past.2.1) 0x3a) = some (erased read) from value.symm]
              exact ih (j + past.1 + read.1) (separateCopied 2048 read.2 (keySkipped past.2.1) 0x2c)

-- A loop over items with a record, whose steps do to the walk what those of the loop without it do.
theorem item_loop_erased {ω : Type} (child : Nat → Copied ω → Option (Nat × Copied ω)) (plain : Nat → ω → Option (Nat × ω))
    (same : ∀ j x, (child j x).map erased = plain j x.1) (loop : Nat → Nat → Copied ω → Option (Nat × Copied ω))
    (plainLoop : Nat → Nat → ω → Option (Nat × ω)) (past : Copied ω → Copied ω) (plainPast : ω → ω)
    (agree : ∀ x, (past x).1 = plainPast x.1) (ended : ∀ j x, loop 0 j x = some (j, x))
    (plainEnded : ∀ j w, plainLoop 0 j w = some (j, w))
    (step : ∀ left j x, loop (left + 1) j x = (child j x).bind (fun (used, x) => loop left (j + used) (past x)))
    (plainStep : ∀ left j w, plainLoop (left + 1) j w =
      (plain j w).bind (fun (used, w) => plainLoop left (j + used) (plainPast w)))
    (size j : Nat) (x : Copied ω) : (loop size j x).map erased = plainLoop size j x.1 := by
  induction size generalizing j x with
  | zero =>
      rw [ended, plainEnded]
      rfl
  | succ size ih =>
      rw [step, plainStep, ← same]
      cases child j x with
      | none => rfl
      | some read =>
          simp only [Option.map_some, Option.bind_some, erased, ← agree]
          exact ih (j + read.1) (past read.2)

theorem array_loop_erased (child : Nat → Copied Walk → Option (Nat × Copied Walk)) (plain : Nat → Walk → Option (Nat × Walk))
    (same : ∀ j x, (child j x).map erased = plain j x.1) (size j : Nat) (x : Copied Walk) :
    (arrayLoopCopied child size j x).map erased = arrayLoop plain size j x.1 :=
  item_loop_erased child plain same (arrayLoopCopied child) (arrayLoop plain) (fun x => separateCopied 1024 x False 0x2c)
    (fun w => w.strcat 0x2c) (fun _ => rfl) (fun _ _ => rfl) (fun _ _ => rfl) (fun _ _ _ => rfl) (fun _ _ _ => rfl) size j x

-- Without its record the walk is json_handler's.
theorem json_handler_erased (js : Bytes) (tokens : List JsmnTok) (fuel t count capacity : Nat) (x : Copied Walk) :
    (jsonHandlerCopied js tokens fuel t count capacity x).map erased = jsonHandler js tokens fuel t count x.1 := by
  induction fuel generalizing t count capacity x with
  | zero => rfl
  | succ fuel ih =>
      unfold jsonHandlerCopied jsonHandler
      split
      · rfl
      · cases tokens[t]? with
        | none => rfl
        | some tok =>
            have same := fun capacity j x => ih (t + 1 + j) (count - j) capacity x
            cases type : tok.type with
            | primitive => simp only [type]; rfl
            | string => simp only [type]; rfl
            | object =>
                simp only [type]
                have loop : objectLoop (fun j w => jsonHandler js tokens fuel (t + 1 + j) (count - j) w) tok.size 0
                    { x.1 with current := [0x7b] } = _ :=
                  (object_loop_erased _ _ (same 2048) tok.size 0 (openCopied 2048 x 0x7b)).symm
                rw [loop]
                cases objectLoopCopied _ tok.size 0 (openCopied 2048 x 0x7b) <;> rfl
            | array =>
                simp only [type]
                have loop : arrayLoop (fun j w => jsonHandler js tokens fuel (t + 1 + j) (count - j) w) tok.size 0
                    { x.1 with current := [0x5b] } = _ :=
                  (array_loop_erased _ _ (same 1024) tok.size 0 (openCopied 1024 x 0x5b)).symm
                rw [loop]
                cases arrayLoopCopied _ tok.size 0 (openCopied 1024 x 0x5b) <;> rfl

-- `stray` is what a walk that leaves the written tokens copies.
def parseCopies (json : Bytes) (prior : Outputs) (stray : List Copy) : List Copy :=
  let parsed := jsmnParse json 100
  if parsed.rc < 0 then []
  else
    match jsonHandlerCopied json parsed.tokens (parsed.tokens.length + 1) 0 parsed.tokens.length 2048
        (⟨[], prior, 0⟩, [⟨2048, 0⟩]) with
    | some (_, x) => x.2
    | none => stray

def instructionCopies (topic payload : Bytes) (prior : Outputs) (stray : List Copy) : List Copy :=
  ⟨1024, (printed topic).length⟩ :: ⟨2048, (printed payload).length⟩ :: parseCopies (printed payload) prior stray

mutual
def valueCopies (capacity : Nat) : Value → Walk → List Copy
  | .primitive text, w => primitiveCopies capacity text w
  | .string body, w => stringCopies capacity body w
  | .object members, w =>
      let opened := { w with current := [0x7b] }
      [⟨2048, 1⟩] ++ memberCopies members opened ++ closeCopies capacity 2048 w (walkMembers members opened)
  | .array items, w =>
      let opened := { w with current := [0x5b] }
      [⟨1024, 1⟩] ++ itemCopies items opened ++ closeCopies capacity 1024 w (walkItems items opened)

def memberCopies : Members → Walk → List Copy
  | .nil, _ => []
  | .cons key value rest, w =>
      let past := walkValue key w
      let between := separate past (keySkipped past) 0x3a
      let read := walkValue value between
      valueCopies 2048 key w ++ separatorCopies 2048 past (keySkipped past) ++ valueCopies 2048 value between ++
        separatorCopies 2048 read (keySkipped past) ++ memberCopies rest (separate read (keySkipped past) 0x2c)

def itemCopies : Items → Walk → List Copy
  | .nil, _ => []
  | .cons value rest, w =>
      valueCopies 1024 value w ++ separatorCopies 1024 (walkValue value w) False ++
        itemCopies rest ((walkValue value w).strcat 0x2c)
end

def valueCopied (capacity : Nat) (value : Value) (x : Copied Walk) : Copied Walk :=
  (walkValue value x.1, x.2 ++ valueCopies capacity value x.1)

def membersCopied (members : Members) (x : Copied Walk) : Copied Walk :=
  (walkMembers members x.1, x.2 ++ memberCopies members x.1)

def itemsCopied (items : Items) (x : Copied Walk) : Copied Walk :=
  (walkItems items x.1, x.2 ++ itemCopies items x.1)

theorem members_copied_cons (key value : Value) (rest : Members) (x : Copied Walk) :
    membersCopied (.cons key value rest) x =
      let past := valueCopied 2048 key x
      membersCopied rest (separateCopied 2048
        (valueCopied 2048 value (separateCopied 2048 past (keySkipped past.1) 0x3a)) (keySkipped past.1) 0x2c) := by
  refine Prod.ext rfl ?_
  change x.2 ++ (_ ++ _ ++ _ ++ _ ++ _) = x.2 ++ _ ++ _ ++ _ ++ _ ++ _
  simp only [List.append_assoc]
  rfl

theorem items_copied_cons (value : Value) (rest : Items) (x : Copied Walk) :
    itemsCopied (.cons value rest) x = itemsCopied rest (separateCopied 1024 (valueCopied 1024 value x) False 0x2c) := by
  refine Prod.ext rfl ?_
  change x.2 ++ (_ ++ _ ++ _) = x.2 ++ _ ++ _ ++ _
  simp only [List.append_assoc]
  rfl

theorem object_loop_copied (child : Nat → Copied Walk → Option (Nat × Copied Walk)) (tree : Nat → Option (Nat × Value))
    (total base size j : Nat) (x : Copied Walk) (follows : Follows total base child tree (valueCopied 2048))
    (here : base + j ≤ total) :
    objectLoopCopied child size j x = (readMembers tree size j).map (fun (j, members) => (j, membersCopied members x)) :=
  members_followed follows (objectLoopCopied child) membersCopied (fun x => separateCopied 2048 x (keySkipped x.1) 0x3a)
    (fun key value => separateCopied 2048 value (keySkipped key.1) 0x2c) (fun _ _ => rfl) (fun _ _ _ => rfl)
    (fun x => Prod.ext rfl (List.append_nil x.2)) members_copied_cons size j x here

theorem array_loop_copied (child : Nat → Copied Walk → Option (Nat × Copied Walk)) (tree : Nat → Option (Nat × Value))
    (total base size j : Nat) (x : Copied Walk) (follows : Follows total base child tree (valueCopied 1024))
    (here : base + j ≤ total) :
    arrayLoopCopied child size j x = (readItems tree size j).map (fun (j, items) => (j, itemsCopied items x)) :=
  items_followed follows (arrayLoopCopied child) itemsCopied (fun x => separateCopied 1024 x False 0x2c) (fun _ _ => rfl)
    (fun _ _ _ => rfl) (fun x => Prod.ext rfl (List.append_nil x.2)) items_copied_cons size j x here

section Read

variable (js : Bytes) (tokens : List JsmnTok)

theorem json_handler_copied (fuel t count capacity : Nat) (x : Copied Walk) (within : tokens.length ≤ t + count)
    (here : t ≤ tokens.length) (counted : 0 < count) :
    jsonHandlerCopied js tokens fuel t count capacity x =
      (readTree js tokens fuel t).map (fun (used, value) => (used, valueCopied capacity value x)) := by
  induction fuel generalizing t count capacity x with
  | zero => rfl
  | succ fuel ih =>
      simp only [jsonHandlerCopied, readTree, Nat.pos_iff_ne_zero.mp counted, if_false]
      cases found : tokens[t]? with
      | none => rfl
      | some tok =>
          have inside : t < tokens.length := (List.getElem?_eq_some_iff.mp found).1
          have follows := fun capacity => tree_follows js tokens fuel (t + 1)
            (fun j x => jsonHandlerCopied js tokens fuel (t + 1 + j) (count - j) capacity x) (valueCopied capacity)
            (fun j x here => ih (t + 1 + j) (count - j) capacity x (by omega) here (by omega))
          cases type : tok.type with
          | primitive => simp only [type]; rfl
          | string => simp only [type]; rfl
          | object =>
              simp only [type]
              rw [object_loop_copied _ _ _ _ tok.size 0 _ (follows 2048) inside]
              cases readMembers (fun j => readTree js tokens fuel (t + 1 + j)) tok.size 0 with
              | none => rfl
              | some found => simp [valueCopied, membersCopied, closeCopied, openCopied, walkValue, valueCopies]
          | array =>
              simp only [type]
              rw [array_loop_copied _ _ _ _ tok.size 0 _ (follows 1024) inside]
              cases readItems (fun j => readTree js tokens fuel (t + 1 + j)) tok.size 0 with
              | none => rfl
              | some found => simp [valueCopied, itemsCopied, closeCopied, openCopied, walkValue, valueCopies]

end Read

-- What the string that comes next is read as.
def stateRead (state : Nat) (body : Bytes) : Nat := if state = 1 ∨ state = 2 then 0 else stateAfter body

def statePast (strings : List Bytes) (state : Nat) : Nat := strings.foldl stateRead state

-- The bytes of a value that count: its texts, quotes and separators without blanks and without the signing strings.
mutual
def kept : Value → Nat → Nat
  | .primitive text, _ => text.length
  | .string body, state => if stringSkipped state body then 0 else body.length + 2
  | .object members, state => keptMembers members state + 1
  | .array items, state => keptItems items state + 1

def keptMembers : Members → Nat → Nat
  | .nil, _ => 0
  | .cons key value rest, state =>
      let past := statePast key.strings state
      kept key state + kept value past + (if past = 1 ∨ past = 2 then 0 else 2) +
        keptMembers rest (statePast value.strings past)

def keptItems : Items → Nat → Nat
  | .nil, _ => 0
  | .cons value rest, state => kept value state + 1 + keptItems rest (statePast value.strings state)
end

-- Every text is one the arrays have room for, and so is what counts of every object and array.
mutual
def Roomy : Value → Nat → Prop
  | .primitive text, _ => text.length < 200
  | .string body, state =>
      body.length < 200 ∧ (state = 1 → body.length < 65) ∧ (state = 3 → body.length < 25) ∧ (state = 4 → body.length < 50)
  | .object members, state => RoomyMembers members state ∧ keptMembers members state + 1 < 2048
  | .array items, state => RoomyItems items state ∧ keptItems items state + 1 < 1024

def RoomyMembers : Members → Nat → Prop
  | .nil, _ => True
  | .cons key value rest, state =>
      let past := statePast key.strings state
      Roomy key state ∧ Roomy value past ∧ RoomyMembers rest (statePast value.strings past)

def RoomyItems : Items → Nat → Prop
  | .nil, _ => True
  | .cons value rest, state => Roomy value state ∧ RoomyItems rest (statePast value.strings state)
end

theorem scan_state (strings : List Bytes) (s : Scan) : (strings.foldl Scan.read s).state = statePast strings s.state := by
  induction strings generalizing s with
  | nil => rfl
  | cons body strings ih =>
      have read : (s.read body).state = stateRead s.state body := by
        unfold Scan.read stateRead
        by_cases one : s.state = 1
        · simp [one]
        · by_cases two : s.state = 2
          · simp [two]
          · simp [one, two]
      rw [List.foldl_cons, ih, read]
      rfl

theorem walk_state (value : Value) (w : Walk) : (walkValue value w).state = statePast value.strings w.state := by
  have read := scan_state value.strings w.scan
  rw [← scan_value value w] at read
  exact read

theorem string_read_length (buf : Bytes) (w : Walk) :
    (stringRead buf w).current.length = w.current.length + if stringSkipped w.state buf then 0 else buf.length + 2 := by
  unfold stringRead stringSkipped
  by_cases one : w.state = 1
  · simp [one]
  · by_cases two : w.state = 2
    · simp [two]
    · by_cases signing : stateAfter buf = 1 ∨ stateAfter buf = 2
      · simp [one, two, signing]
      · simp [one, two, signing, Json.quoted]

theorem separate_length (w : Walk) (skipped : Prop) [Decidable skipped] (separator : UInt8) :
    (separate w skipped separator).current.length = w.current.length + if skipped then 0 else 1 := by
  unfold separate
  split
  · rfl
  · simp [Walk.strcat]

theorem separate_state (w : Walk) (skipped : Prop) [Decidable skipped] (separator : UInt8) :
    (separate w skipped separator).state = w.state := by
  unfold separate
  split <;> rfl

theorem close_length (outer w : Walk) (closing : UInt8) (opened : 0 < w.current.length) :
    (closeContainer outer w closing).current.length = outer.current.length + w.current.length := by
  simp only [closeContainer, List.length_append, List.length_dropLast, List.length_singleton]
  omega

mutual
theorem walk_length : ∀ (value : Value) (w : Walk),
    (walkValue value w).current.length = w.current.length + kept value w.state
  | .primitive text, w => by simp [walkValue, kept]
  | .string body, w => string_read_length body w
  | .object members, w => by
      have inner := members_length members { w with current := [0x7b] }
      rw [walkValue, close_length _ _ _ (by rw [inner]; exact Nat.lt_add_right _ Nat.zero_lt_one), inner, kept]
      simp only [List.length_singleton]
      omega
  | .array items, w => by
      have inner := items_length items { w with current := [0x5b] }
      rw [walkValue, close_length _ _ _ (by rw [inner]; exact Nat.lt_add_right _ Nat.zero_lt_one), inner, kept]
      simp only [List.length_singleton]
      omega

theorem members_length : ∀ (members : Members) (w : Walk),
    (walkMembers members w).current.length = w.current.length + keptMembers members w.state
  | .nil, _ => rfl
  | .cons key value rest, w => by
      rw [walkMembers, members_length rest, separate_length, separate_state, walk_length value, walk_state value,
        separate_length, separate_state, walk_length key, walk_state key, keptMembers]
      simp only [keySkipped, walk_state key]
      split <;> omega

theorem items_length : ∀ (items : Items) (w : Walk),
    (walkItems items w).current.length = w.current.length + keptItems items w.state
  | .nil, _ => rfl
  | .cons value rest, w => by
      have comma : ((walkValue value w).strcat 0x2c).current.length = (walkValue value w).current.length + 1 := by
        simp [Walk.strcat]
      have state : ((walkValue value w).strcat 0x2c).state = statePast value.strings w.state := walk_state value w
      rw [walkItems, items_length rest, comma, state, walk_length value, keptItems]
      omega
end

theorem all_fit_append (first second : List Copy) : AllFit (first ++ second) ↔ AllFit first ∧ AllFit second :=
  List.forall_mem_append

theorem all_fit_cons (copy : Copy) (copies : List Copy) : AllFit (copy :: copies) ↔ copy.Fits ∧ AllFit copies :=
  List.forall_mem_cons

theorem all_fit_single (capacity length : Nat) : AllFit [⟨capacity, length⟩] ↔ length < capacity :=
  List.forall_mem_singleton

theorem all_fit_nil : AllFit [] := fun _ listed => nomatch listed

-- Two parts of a walk: what the second one leaves in the array shows what the first one had left.
theorem fit_then (first second : List Copy) (room more : Prop) (between after capacity : Nat)
    (start : AllFit first ↔ room ∧ between < capacity)
    (next : between < capacity → (AllFit second ↔ more ∧ after < capacity)) (grows : between ≤ after) :
    AllFit (first ++ second) ↔ (room ∧ more) ∧ after < capacity := by
  rw [all_fit_append, start]
  constructor
  · rintro ⟨⟨room, inside⟩, fits⟩
    obtain ⟨more, inside⟩ := (next inside).mp fits
    exact ⟨⟨room, more⟩, inside⟩
  · rintro ⟨⟨room, more⟩, inside⟩
    have before := Nat.lt_of_le_of_lt grows inside
    exact ⟨⟨room, before⟩, (next before).mpr ⟨more, inside⟩⟩

theorem string_copies_fit (capacity : Nat) (buf : Bytes) (w : Walk) (inside : w.current.length < capacity) :
    AllFit (stringCopies capacity buf w) ↔
      Roomy (.string buf) w.state ∧ (stringRead buf w).current.length < capacity := by
  have output : AllFit (outputCopies w.state buf) ↔ (w.state = 1 → buf.length < 65) ∧ (w.state = 3 → buf.length < 25) ∧
      (w.state = 4 → buf.length < 50) := by
    unfold outputCopies
    by_cases one : w.state = 1
    · simp [one, all_fit_single]
    · by_cases three : w.state = 3
      · simp [three, all_fit_single]
      · by_cases four : w.state = 4
        · simp [four, all_fit_single]
        · simp [one, three, four, AllFit]
  have quote : AllFit (quoteCopies capacity buf w) ↔ (stringRead buf w).current.length < capacity := by
    rw [string_read_length]
    unfold quoteCopies
    by_cases skipped : stringSkipped w.state buf
    · simp [skipped, AllFit, inside]
    · simp only [skipped, if_false, all_fit_cons, all_fit_nil, and_true, Copy.Fits]
      omega
  rw [stringCopies, all_fit_cons, all_fit_append, output, quote, Roomy]
  simp only [Copy.Fits, Nat.succ_le_iff, and_assoc]

theorem separator_copies_fit (capacity : Nat) (w : Walk) (skipped : Prop) [Decidable skipped] (separator : UInt8)
    (inside : w.current.length < capacity) :
    AllFit (separatorCopies capacity w skipped) ↔ True ∧ (separate w skipped separator).current.length < capacity := by
  rw [separate_length]
  unfold separatorCopies
  by_cases left : skipped
  · simp [left, AllFit, inside]
  · simp only [left, if_false, all_fit_cons, all_fit_nil, and_true, true_and, Copy.Fits]
    omega

-- A container that its own array has room for is one instruction has room for.
theorem container_copies_fit (capacity container : Nat) (outer w : Walk) (inner : List Copy) (room : Prop) (closing : UInt8)
    (opened : 0 < w.current.length) (some : 1 < container) (smaller : container ≤ 2048)
    (walked : AllFit inner ↔ room ∧ w.current.length < container) :
    AllFit ([⟨container, 1⟩] ++ inner ++ closeCopies capacity container outer w) ↔
      (room ∧ w.current.length < container) ∧ (closeContainer outer w closing).current.length < capacity := by
  have start : AllFit [⟨container, 1⟩] := (all_fit_single container 1).mpr some
  have length : w.current.dropLast.length + 1 = w.current.length := by
    rw [List.length_dropLast]
    omega
  have last : AllFit (closeCopies capacity container outer w) ↔
      (w.current.length < container ∧ outer.current.length + w.current.length < capacity) ∧
        (outer.state = 5 → w.current.length < 2048) := by
    simp only [closeCopies, length, all_fit_append, all_fit_cons, all_fit_nil, and_true, Copy.Fits, Nat.succ_le_iff]
    by_cases five : outer.state = 5
    · simp [five, all_fit_single]
    · simp [five, all_fit_nil]
  rw [all_fit_append, all_fit_append, walked, last, close_length _ _ _ opened]
  constructor
  · rintro ⟨⟨_, inside⟩, ⟨_, after⟩, _⟩
    exact ⟨inside, after⟩
  · rintro ⟨inside, after⟩
    exact ⟨⟨start, inside⟩, ⟨inside.2, after⟩, fun _ => Nat.lt_of_lt_of_le inside.2 smaller⟩

theorem walk_grows (value : Value) (w : Walk) : w.current.length ≤ (walkValue value w).current.length := by
  rw [walk_length]
  exact Nat.le_add_right _ _

theorem separate_grows (w : Walk) (skipped : Prop) [Decidable skipped] (separator : UInt8) :
    w.current.length ≤ (separate w skipped separator).current.length := by
  rw [separate_length]
  exact Nat.le_add_right _ _

theorem members_grow (members : Members) (w : Walk) : w.current.length ≤ (walkMembers members w).current.length := by
  rw [members_length]
  exact Nat.le_add_right _ _

theorem items_grow (items : Items) (w : Walk) : w.current.length ≤ (walkItems items w).current.length := by
  rw [items_length]
  exact Nat.le_add_right _ _

mutual
theorem value_copies_fit : ∀ (value : Value) (capacity : Nat) (w : Walk), w.current.length < capacity →
    (AllFit (valueCopies capacity value w) ↔ Roomy value w.state ∧ (walkValue value w).current.length < capacity)
  | .primitive text, capacity, w, _ => by
      simp only [valueCopies, primitiveCopies, all_fit_cons, all_fit_nil, and_true, Copy.Fits, Roomy, walkValue,
        List.length_append, Nat.succ_le_iff]
  | .string body, capacity, w, inside => string_copies_fit capacity body w inside
  | .object members, capacity, w, _ => by
      have length := members_length members { w with current := [0x7b] }
      have walked := member_copies_fit members { w with current := [0x7b] } (by simp)
      have fits := container_copies_fit capacity 2048 w (walkMembers members { w with current := [0x7b] }) _ _ 0x7d
        (by rw [length]; exact Nat.lt_add_right _ Nat.zero_lt_one) (by decide) (Nat.le_refl _) walked
      rw [length, Nat.add_comm] at fits
      exact fits
  | .array items, capacity, w, _ => by
      have length := items_length items { w with current := [0x5b] }
      have walked := item_copies_fit items { w with current := [0x5b] } (by simp)
      have fits := container_copies_fit capacity 1024 w (walkItems items { w with current := [0x5b] }) _ _ 0x5d
        (by rw [length]; exact Nat.lt_add_right _ Nat.zero_lt_one) (by decide) (by decide) walked
      rw [length, Nat.add_comm] at fits
      exact fits

theorem member_copies_fit : ∀ (members : Members) (w : Walk), w.current.length < 2048 →
    (AllFit (memberCopies members w) ↔ RoomyMembers members w.state ∧ (walkMembers members w).current.length < 2048)
  | .nil, w, inside => by simp [memberCopies, all_fit_nil, RoomyMembers, walkMembers, inside]
  | .cons key value rest, w, inside => by
      let past := walkValue key w
      let between := separate past (keySkipped past) 0x3a
      let read := walkValue value between
      have betweenState : between.state = statePast key.strings w.state :=
        (separate_state past (keySkipped past) 0x3a).trans (walk_state key w)
      have readState : (separate read (keySkipped past) 0x2c).state = statePast value.strings between.state :=
        (separate_state read (keySkipped past) 0x2c).trans (walk_state value between)
      have keyed := fit_then _ _ _ _ _ _ _ (value_copies_fit key 2048 w inside)
        (separator_copies_fit 2048 past (keySkipped past) 0x3a) (separate_grows past (keySkipped past) 0x3a)
      have valued := fit_then _ _ _ _ _ _ _ keyed (value_copies_fit value 2048 between) (walk_grows value between)
      have separated := fit_then _ _ _ _ _ _ _ valued (separator_copies_fit 2048 read (keySkipped past) 0x2c)
        (separate_grows read (keySkipped past) 0x2c)
      have listed := fit_then _ _ _ _ _ _ _ separated (member_copies_fit rest (separate read (keySkipped past) 0x2c))
        (members_grow rest _)
      rw [readState, betweenState] at listed
      simp only [and_true, and_assoc] at listed
      simp only [RoomyMembers, and_assoc]
      exact listed

theorem item_copies_fit : ∀ (items : Items) (w : Walk), w.current.length < 1024 →
    (AllFit (itemCopies items w) ↔ RoomyItems items w.state ∧ (walkItems items w).current.length < 1024)
  | .nil, w, inside => by simp [itemCopies, all_fit_nil, RoomyItems, walkItems, inside]
  | .cons value rest, w, inside => by
      let read := walkValue value w
      have state : (separate read False 0x2c).state = statePast value.strings w.state :=
        (separate_state read False 0x2c).trans (walk_state value w)
      have separated := fit_then _ _ _ _ _ _ _ (value_copies_fit value 1024 w inside)
        (separator_copies_fit 1024 read False 0x2c) (separate_grows read False 0x2c)
      have listed := fit_then _ _ _ _ _ _ _ separated (item_copies_fit rest (separate read False 0x2c)) (items_grow rest _)
      rw [state] at listed
      simp only [and_true, and_assoc] at listed
      simp only [RoomyItems, and_assoc]
      exact listed
end

-- The copies of a parse whose walk stays within the tokens, whatever one that leaves them copies.
def DocumentRoomy (json : Bytes) : Prop :=
  (jsmnParse json 100).rc < 0 ∨ (jsmnParse json 100).tokens = [] ∨ ∃ value, document json = some value ∧ Roomy value 0

theorem roomy_kept (value : Value) (state : Nat) (roomy : Roomy value state) : kept value state < 2048 := by
  cases value with
  | primitive text =>
      have short : text.length < 200 := roomy
      exact Nat.lt_trans short (by decide)
  | string body =>
      have short : body.length < 200 := roomy.1
      rw [kept]
      split <;> omega
  | object members => exact roomy.2
  | array items => exact Nat.lt_trans roomy.2 (by decide)

theorem parse_copies_fit (json : Bytes) (prior : Outputs) :
    (∀ stray, AllFit (parseCopies json prior stray)) ↔ DocumentRoomy json := by
  by_cases rejected : (jsmnParse json 100).rc < 0
  · simp only [parseCopies, rejected, if_true]
    exact iff_of_true (fun _ => all_fit_nil) (.inl rejected)
  by_cases empty : (jsmnParse json 100).tokens = []
  · refine iff_of_true (fun _ => ?_) (.inr (.inl empty))
    simp only [parseCopies, rejected, if_false, empty]
    simp [jsonHandlerCopied, AllFit, Copy.Fits]
  have walk := json_handler_copied json (jsmnParse json 100).tokens ((jsmnParse json 100).tokens.length + 1) 0
    (jsmnParse json 100).tokens.length 2048 (⟨[], prior, 0⟩, [⟨2048, 0⟩]) (by simp) (by simp) (List.length_pos_of_ne_nil empty)
  have read : document json = (readTree json (jsmnParse json 100).tokens ((jsmnParse json 100).tokens.length + 1) 0).map
      Prod.snd := by
    simp only [document, rejected, if_false, readDocument]
  simp only [parseCopies, DocumentRoomy, rejected, if_false, walk, read, empty, false_or]
  cases readTree json (jsmnParse json 100).tokens ((jsmnParse json 100).tokens.length + 1) 0 with
  | none =>
      refine iff_of_false (fun fits => ?_) (by simp)
      exact absurd (fits [⟨0, 0⟩] ⟨0, 0⟩ List.mem_cons_self) (by decide)
  | some found =>
      have copies := value_copies_fit found.2 2048 ⟨[], prior, 0⟩ (by simp)
      rw [walk_length] at copies
      simp only [List.length_nil, Nat.zero_add] at copies
      simp only [Option.map_some, valueCopied, all_fit_append, copies, all_fit_cons, all_fit_nil, Option.some.injEq,
        exists_eq_left', forall_const]
      constructor
      · rintro ⟨_, roomy, _⟩
        exact roomy
      · intro roomy
        exact ⟨⟨by decide, trivial⟩, roomy, roomy_kept found.2 0 roomy⟩

theorem instruction_copies_fit (topic payload : Bytes) (prior : Outputs) :
    (∀ stray, AllFit (instructionCopies topic payload prior stray)) ↔
      (printed topic).length < 1024 ∧ (printed payload).length < 2048 ∧ DocumentRoomy (printed payload) := by
  rw [← parse_copies_fit (printed payload) prior]
  simp only [instructionCopies, all_fit_cons, Copy.Fits, Nat.succ_le_iff]
  constructor
  · intro fits
    exact ⟨(fits []).1, (fits []).2.1, fun stray => (fits stray).2.2⟩
  · rintro ⟨topicFits, payloadFits, walked⟩ stray
    exact ⟨topicFits, payloadFits, walked stray⟩

end Aliot
