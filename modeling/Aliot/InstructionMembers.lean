import Aliot.AckMembers

set_option autoImplicit false

namespace Aliot

open Json (Value Members Items)

-- Each string with the untaken string before it, [] for none: hash and access_key take the string behind them.
def followers : Bytes → List Bytes → List (Bytes × Bytes)
  | _, [] => []
  | word, next :: rest => (word, next) :: followers (if isSigning word then [] else next) rest

def lastWord : Bytes → List Bytes → Bytes
  | word, [] => word
  | word, next :: rest => lastWord (if isSigning word then [] else next) rest

def behind (name : Bytes) (follower : Bytes × Bytes) : Option Bytes := if follower.1 = name then some follower.2 else none

def stringsBehind (name : Bytes) (members : Members) : List Bytes := (followers [] members.strings).filterMap (behind name)

-- The objects and arrays whose opening bracket has the word instruction as the last untaken string before it, in the
-- order of their closing brackets.
mutual
def instructionsIn : Bytes → Value → List Value
  | _, .primitive _ => []
  | _, .string _ => []
  | word, .object members =>
      instructionsInMembers word members ++ if word = ascii "instruction" then [.object members] else []
  | word, .array items => instructionsInItems word items ++ if word = ascii "instruction" then [.array items] else []

def instructionsInMembers : Bytes → Members → List Value
  | _, .nil => []
  | word, .cons key value rest =>
      instructionsIn word key ++ (instructionsIn (lastWord word key.strings) value ++
        instructionsInMembers (lastWord (lastWord word key.strings) value.strings) rest)

def instructionsInItems : Bytes → Items → List Value
  | _, .nil => []
  | word, .cons value rest => instructionsIn word value ++ instructionsInItems (lastWord word value.strings) rest
end

-- The text of a value without the strings that are hash or access_key or stand behind one, and without the separators of
-- such a member. A bracket closes over the last byte: a comma, or its own opening bracket where nothing is listed.
mutual
def copiedText : Bytes → Value → Bytes
  | _, .primitive text => text
  | word, .string body => if isSigning word || isSigning body then [] else Json.quoted body
  | word, .object members => (0x7b :: copiedMembers word members).dropLast ++ [0x7d]
  | word, .array items => (0x5b :: copiedItems word items).dropLast ++ [0x5d]

def copiedMembers : Bytes → Members → Bytes
  | _, .nil => []
  | word, .cons key value rest =>
      let past := lastWord word key.strings
      copiedText word key ++ (if isSigning past then [] else [0x3a]) ++ copiedText past value ++
        (if isSigning past then [] else [0x2c]) ++ copiedMembers (lastWord past value.strings) rest

def copiedItems : Bytes → Items → Bytes
  | _, .nil => []
  | word, .cons value rest => copiedText word value ++ [0x2c] ++ copiedItems (lastWord word value.strings) rest
end

-- The text that json_handler copies for an object or array behind the word instruction.
def instructionText (value : Value) : Bytes := copiedText (ascii "instruction") value

def StringSet (members : Members) (name result : Bytes) : Prop :=
  ∀ body, members.Named name (.string body) → result = Json.unescape body

-- The string values and the compact instruction of the top-level members.
structure ReadsOutputs (members : Members) (out : Outputs) : Prop where
  hash : StringSet members (ascii "hash") out.hash
  thingKey : StringSet members (ascii "thing_key") out.thingKey
  alertKey : StringSet members (ascii "alert_key") out.alertKey
  instruction : ∀ value, members.Named (ascii "instruction") value → out.instruction = value.text

def ReadsInstruction (members : Members) (payload : Bytes) : Prop :=
  ∀ prior stray, ReadsOutputs members (parseInstructionJson payload prior stray).out

def StringTaken (members : Members) (name : Bytes) : Prop :=
  ∀ body, members.Named name (.string body) → (stringsBehind name members).getLast? = some (Json.unescape body)

-- What stands last behind each word is the top-level member's, and the instruction is copied whole.
structure TakesInstruction (members : Members) : Prop where
  hash : StringTaken members (ascii "hash")
  thingKey : StringTaken members (ascii "thing_key")
  alertKey : StringTaken members (ascii "alert_key")
  instruction : ∀ value, members.Named (ascii "instruction") value →
    ∃ copied ∈ (instructionsInMembers [] members).getLast?, instructionText copied = value.text

theorem state_after_iff (word : Bytes) : (stateAfter word = 1 ↔ word = ascii "hash") ∧
    (stateAfter word = 3 ↔ word = ascii "alert_key") ∧ (stateAfter word = 4 ↔ word = ascii "thing_key") ∧
    (stateAfter word = 5 ↔ word = ascii "instruction") := by
  by_cases known : word ∈ [ascii "instruction", ascii "hash", ascii "access_key", ascii "alert_key", ascii "thing_key"]
  · revert word
    decide +kernel
  · simp only [List.mem_cons, List.not_mem_nil, or_false, not_or] at known
    simp [stateAfter, known]

theorem string_state_after (word next : Bytes) : stateRead (stateAfter word) next = stateAfter (if isSigning word then [] else next) := by
  have none : stateAfter [] = 0 := by decide
  unfold stateRead
  by_cases signing : isSigning word = true
  · rw [if_pos ((state_after_signing word).mpr signing), if_pos signing, none]
  · rw [if_neg (fun state => signing ((state_after_signing word).mp state)), if_neg signing]

theorem strings_state_after (word : Bytes) (strings : List Bytes) :
    statePast strings (stateAfter word) = stateAfter (lastWord word strings) := by
  induction strings generalizing word with
  | nil => rfl
  | cons next rest ih =>
      rw [lastWord, ← ih, ← string_state_after]
      rfl

theorem scan_follower (word next : Bytes) (s : Scan) (state : s.state = stateAfter word) :
    s.read next = ⟨stateAfter (if isSigning word then [] else next), (behind (ascii "hash") (word, next)).getD s.hash,
      (behind (ascii "thing_key") (word, next)).getD s.thingKey,
      (behind (ascii "alert_key") (word, next)).getD s.alertKey⟩ := by
  obtain ⟨hash, alertKey, thingKey, _⟩ := state_after_iff word
  have read : (s.read next).state = stateRead s.state next := scan_state [next] s
  rw [state, string_state_after] at read
  have fields : (s.read next).hash = (behind (ascii "hash") (word, next)).getD s.hash ∧
      (s.read next).thingKey = (behind (ascii "thing_key") (word, next)).getD s.thingKey ∧
      (s.read next).alertKey = (behind (ascii "alert_key") (word, next)).getD s.alertKey := by
    simp only [behind, ← hash, ← thingKey, ← alertKey, ← state]
    unfold Scan.read
    by_cases one : s.state = 1
    · simp [one]
    · by_cases two : s.state = 2
      · simp [two]
      · by_cases three : s.state = 3
        · simp [three]
        · by_cases four : s.state = 4 <;> simp [one, two, three, four]
  obtain ⟨hashSet, thingSet, alertSet⟩ := fields
  rw [← read, ← hashSet, ← thingSet, ← alertSet]

theorem scan_followers (word : Bytes) (strings : List Bytes) (s : Scan) (state : s.state = stateAfter word) :
    strings.foldl Scan.read s = ⟨stateAfter (lastWord word strings),
      (((followers word strings).filterMap (behind (ascii "hash"))).getLast?).getD s.hash,
      (((followers word strings).filterMap (behind (ascii "thing_key"))).getLast?).getD s.thingKey,
      (((followers word strings).filterMap (behind (ascii "alert_key"))).getLast?).getD s.alertKey⟩ := by
  induction strings generalizing word s with
  | nil =>
      rw [List.foldl_nil, lastWord, ← state]
      rfl
  | cons next rest ih =>
      have step := scan_follower word next s state
      rw [List.foldl_cons, ih (if isSigning word then [] else next) (s.read next) (congrArg Scan.state step), step]
      simp only [followers, lastWord, last_taken_cons, last_or_else]

theorem walk_state_after (word : Bytes) (value : Value) (w : Walk) (state : w.state = stateAfter word) :
    (walkValue value w).state = stateAfter (lastWord word value.strings) := by
  rw [walk_state, state, strings_state_after]

theorem string_copied (word body : Bytes) (w : Walk) (state : w.state = stateAfter word) :
    (stringRead body w).current = w.current ++ copiedText word (.string body) := by
  rw [copiedText]
  by_cases behindSigning : isSigning word = true
  · have skipped : keySkipped w := by
      rw [keySkipped, state]
      exact (state_after_signing word).mpr behindSigning
    rw [(string_read_skipped body w skipped).1, behindSigning, Bool.true_or, if_pos rfl, List.append_nil]
  · have neutral : Neutral w := by
      rw [Neutral, keySkipped, state]
      exact (state_after_signing word).not.mpr behindSigning
    have read := string_read_neutral body w neutral
    rw [Bool.eq_false_iff.mpr behindSigning, Bool.false_or]
    by_cases signing : isSigning body = true
    · rw [if_pos signing] at read
      rw [read.1, if_pos signing, List.append_nil]
    · rw [if_neg signing] at read
      rw [read.1, if_neg signing]

theorem separate_copied (w : Walk) (skipped : Prop) [Decidable skipped] (word : Bytes) (separator : UInt8)
    (alike : skipped ↔ isSigning word = true) :
    (separate w skipped separator).current = w.current ++ if isSigning word then [] else [separator] := by
  unfold separate
  by_cases signing : isSigning word = true
  · rw [if_pos (alike.mpr signing), if_pos signing, List.append_nil]
  · rw [if_neg (fun holds => signing (alike.mp holds)), if_neg signing]
    rfl

mutual
theorem value_copied : ∀ (value : Value) (word : Bytes) (w : Walk), w.state = stateAfter word →
    (walkValue value w).current = w.current ++ copiedText word value
  | .primitive _, _, _, _ => rfl
  | .string body, word, w, state => string_copied word body w state
  | .object members, word, w, state => by
      rw [walkValue, close_current, members_copied members word { w with current := [0x7b] } state]
      rfl
  | .array items, word, w, state => by
      rw [walkValue, close_current, items_copied items word { w with current := [0x5b] } state]
      rfl

theorem members_copied : ∀ (members : Members) (word : Bytes) (w : Walk), w.state = stateAfter word →
    (walkMembers members w).current = w.current ++ copiedMembers word members
  | .nil, _, _, _ => (List.append_nil _).symm
  | .cons key value rest, word, w, state => by
      have keyState := walk_state_after word key w state
      have skipped : keySkipped (walkValue key w) ↔ isSigning (lastWord word key.strings) = true := by
        rw [keySkipped, keyState]
        exact state_after_signing _
      have between := (separate_state (walkValue key w) (keySkipped (walkValue key w)) 0x3a).trans keyState
      have valueState := walk_state_after _ value _ between
      have after := (separate_state (walkValue value (separate (walkValue key w) (keySkipped (walkValue key w)) 0x3a))
        (keySkipped (walkValue key w)) 0x2c).trans valueState
      rw [walkMembers, members_copied rest _ _ after, separate_copied _ _ _ _ skipped, value_copied value _ _ between,
        separate_copied _ _ _ _ skipped, value_copied key word w state, copiedMembers]
      simp only [List.append_assoc]

theorem items_copied : ∀ (items : Items) (word : Bytes) (w : Walk), w.state = stateAfter word →
    (walkItems items w).current = w.current ++ copiedItems word items
  | .nil, _, _, _ => (List.append_nil _).symm
  | .cons value rest, word, w, state => by
      have valueState := walk_state_after word value w state
      rw [walkItems, items_copied rest (lastWord word value.strings) ((walkValue value w).strcat 0x2c) valueState, Walk.strcat,
        value_copied value word w state, copiedItems]
      simp only [List.append_assoc]
end

theorem string_read_instruction (body : Bytes) (w : Walk) : (stringRead body w).out.instruction = w.out.instruction := by
  unfold stringRead
  dsimp only
  split_ifs <;> rfl

theorem separate_out (w : Walk) (skipped : Prop) [Decidable skipped] (byte : UInt8) : (separate w skipped byte).out = w.out := by
  unfold separate
  split <;> rfl

theorem close_instruction (word : Bytes) (outer inner : Walk) (closing : UInt8) (container : Value) (copied : List Value)
    (state : outer.state = stateAfter word) (text : copiedText word container = inner.current.dropLast ++ [closing])
    (inside : inner.out.instruction = ((copied.getLast?).map instructionText).getD outer.out.instruction) :
    (closeContainer outer inner closing).out.instruction =
      (((copied ++ if word = ascii "instruction" then [container] else []).getLast?).map instructionText).getD
        outer.out.instruction := by
  have five := (state_after_iff word).2.2.2
  unfold closeContainer
  dsimp only
  by_cases isInstruction : word = ascii "instruction"
  · rw [if_pos (state.trans (five.mpr isInstruction)), if_pos isInstruction, List.getLast?_concat, Option.map_some,
      Option.getD_some, instructionText, ← isInstruction, text]
  · rw [if_neg (fun same => isInstruction (five.mp (state.symm.trans same))), if_neg isInstruction, List.append_nil]
    exact inside

mutual
theorem instruction_read : ∀ (value : Value) (word : Bytes) (w : Walk), w.state = stateAfter word →
    (walkValue value w).out.instruction = (((instructionsIn word value).getLast?).map instructionText).getD w.out.instruction
  | .primitive _, _, _, _ => rfl
  | .string body, _, w, _ => string_read_instruction body w
  | .object members, word, w, state => by
      apply close_instruction word w _ 0x7d (.object members) (instructionsInMembers word members) state
      · rw [copiedText, members_copied members word { w with current := [0x7b] } state]
        rfl
      · exact instruction_read_members members word { w with current := [0x7b] } state
  | .array items, word, w, state => by
      apply close_instruction word w _ 0x5d (.array items) (instructionsInItems word items) state
      · rw [copiedText, items_copied items word { w with current := [0x5b] } state]
        rfl
      · exact instruction_read_items items word { w with current := [0x5b] } state

theorem instruction_read_members : ∀ (members : Members) (word : Bytes) (w : Walk), w.state = stateAfter word →
    (walkMembers members w).out.instruction =
      (((instructionsInMembers word members).getLast?).map instructionText).getD w.out.instruction
  | .nil, _, _, _ => rfl
  | .cons key value rest, word, w, state => by
      have keyState := walk_state_after word key w state
      have keyed := instruction_read key word w state
      have between := (separate_state (walkValue key w) (keySkipped (walkValue key w)) 0x3a).trans keyState
      have valueState := walk_state_after _ value _ between
      have valued := instruction_read value _ _ between
      have after := (separate_state (walkValue value (separate (walkValue key w) (keySkipped (walkValue key w)) 0x3a))
        (keySkipped (walkValue key w)) 0x2c).trans valueState
      rw [walkMembers, instruction_read_members rest _ _ after, separate_out, valued, separate_out, keyed]
      simp only [instructionsInMembers, List.getLast?_append, Option.map_or, last_or_else]

theorem instruction_read_items : ∀ (items : Items) (word : Bytes) (w : Walk), w.state = stateAfter word →
    (walkItems items w).out.instruction =
      (((instructionsInItems word items).getLast?).map instructionText).getD w.out.instruction
  | .nil, _, _, _ => rfl
  | .cons value rest, word, w, state => by
      have valueState := walk_state_after word value w state
      have valued := instruction_read value word w state
      rw [walkItems, instruction_read_items rest (lastWord word value.strings) ((walkValue value w).strcat 0x2c) valueState]
      simp only [Walk.strcat, valued, instructionsInItems, List.getLast?_append, Option.map_or, last_or_else]
end

-- Nothing empty, and none of the strings that json_handler leaves out.
mutual
def intact : Value → Bool
  | .primitive _ => true
  | .string body => !isSigning body
  | .object members => intactMembers members && !members.isNil
  | .array items => intactItems items && !items.isNil

def intactMembers : Members → Bool
  | .nil => true
  | .cons key value rest => intact key && intact value && intactMembers rest

def intactItems : Items → Bool
  | .nil => true
  | .cons value rest => intact value && intactItems rest
end

mutual
theorem intact_strings : ∀ value : Value, intact value = true → ∀ body ∈ value.strings, isSigning body = false
  | .primitive _, _ => fun _ listed => nomatch listed
  | .string _, whole => fun _ listed => List.mem_singleton.mp listed ▸ (Bool.not_eq_true' _).mp whole
  | .object members, whole => intact_strings_members members (Bool.and_eq_true_iff.mp whole).1
  | .array items, whole => intact_strings_items items (Bool.and_eq_true_iff.mp whole).1

theorem intact_strings_members : ∀ members : Members, intactMembers members = true →
    ∀ body ∈ members.strings, isSigning body = false
  | .nil, _ => fun _ listed => nomatch listed
  | .cons key value rest, whole => by
      simp only [intactMembers, Bool.and_eq_true] at whole
      exact List.forall_mem_append.mpr ⟨intact_strings key whole.1.1, List.forall_mem_append.mpr
        ⟨intact_strings value whole.1.2, intact_strings_members rest whole.2⟩⟩

theorem intact_strings_items : ∀ items : Items, intactItems items = true → ∀ body ∈ items.strings, isSigning body = false
  | .nil, _ => fun _ listed => nomatch listed
  | .cons value rest, whole => by
      simp only [intactItems, Bool.and_eq_true] at whole
      exact List.forall_mem_append.mpr ⟨intact_strings value whole.1, intact_strings_items rest whole.2⟩
end

mutual
theorem intact_clean : ∀ value : Value, value.wellFormed = true → intact value = true →
    clean value = true ∧ unsignedValue value = value
  | .primitive _, _, _ => ⟨rfl, rfl⟩
  | .string _, _, whole => ⟨whole, rfl⟩
  | .object members, valid, whole => by
      obtain ⟨inside, some⟩ := Bool.and_eq_true_iff.mp whole
      obtain ⟨isClean, same⟩ := intact_clean_members members valid inside
      simp only [clean, unsignedValue, same, isClean, some, Bool.and_self, and_self]
  | .array items, valid, whole => by
      obtain ⟨inside, some⟩ := Bool.and_eq_true_iff.mp whole
      obtain ⟨isClean, same⟩ := intact_clean_items items valid inside
      simp only [clean, unsignedValue, same, isClean, some, Bool.and_self, and_self]

theorem intact_clean_members : ∀ members : Members, members.wellFormed = true → intactMembers members = true →
    cleanMembers members = true ∧ unsignedMembers members = members
  | .nil, _, _ => ⟨rfl, rfl⟩
  | .cons key value rest, valid, whole => by
      simp only [Members.wellFormed, Bool.and_eq_true] at valid
      simp only [intactMembers, Bool.and_eq_true] at whole
      obtain ⟨body, rfl, _⟩ := is_key_string key valid.1.1
      obtain ⟨valueClean, valueSame⟩ := intact_clean value valid.1.2 whole.1.2
      obtain ⟨restClean, restSame⟩ := intact_clean_members rest valid.2 whole.2
      have unsigned : signingKey (.string body) = false := (Bool.not_eq_true' _).mp whole.1.1
      simp only [cleanMembers, unsignedMembers, unsigned, Bool.false_and, Bool.false_eq_true, if_false, valueClean, restClean,
        unsignedValue, valueSame, restSame, Bool.and_self, and_self]

theorem intact_clean_items : ∀ items : Items, items.wellFormed = true → intactItems items = true →
    cleanItems items = true ∧ unsignedItems items = items
  | .nil, _, _ => ⟨rfl, rfl⟩
  | .cons value rest, valid, whole => by
      simp only [Items.wellFormed, Bool.and_eq_true] at valid
      simp only [intactItems, Bool.and_eq_true] at whole
      obtain ⟨valueClean, valueSame⟩ := intact_clean value valid.1 whole.1
      obtain ⟨restClean, restSame⟩ := intact_clean_items rest valid.2 whole.2
      simp only [cleanItems, unsignedItems, valueClean, restClean, valueSame, restSame, Bool.and_self, and_self]
end

theorem object_length (members : Members) : (Value.object members).text.length = (members.listed.length - 1) + 2 := by
  simp [Value.text]

theorem array_length (items : Items) : (Value.array items).text.length = (items.listed.length - 1) + 2 := by
  simp [Value.text]

mutual
theorem kept_short : ∀ (value : Value) (state : Nat), kept value state ≤ value.text.length
  | .primitive _, _ => Nat.le_refl _
  | .string body, state => by
      unfold kept
      split
      · exact Nat.zero_le _
      · simp [Value.text, Json.quoted]
  | .object members, state => by
      have inside := kept_short_members members state
      rw [object_length, kept]
      omega
  | .array items, state => by
      have inside := kept_short_items items state
      rw [array_length, kept]
      omega

theorem kept_short_members : ∀ (members : Members) (state : Nat), keptMembers members state ≤ members.listed.length
  | .nil, _ => Nat.le_refl _
  | .cons key value rest, state => by
      have keyShort := kept_short key state
      have valueShort := kept_short value (statePast key.strings state)
      have restShort := kept_short_members rest (statePast value.strings (statePast key.strings state))
      simp only [keptMembers, Members.listed, List.length_cons, List.length_append]
      split <;> omega

theorem kept_short_items : ∀ (items : Items) (state : Nat), keptItems items state ≤ items.listed.length
  | .nil, _ => Nat.le_refl _
  | .cons value rest, state => by
      have valueShort := kept_short value state
      have restShort := kept_short_items rest (statePast value.strings state)
      simp only [keptItems, Items.listed, List.length_cons, List.length_append]
      omega
end

theorem strings_neutral (strings : List Bytes) (state : Nat) (neutral : state ≠ 1 ∧ state ≠ 2)
    (others : ∀ body ∈ strings, isSigning body = false) :
    statePast strings state ≠ 1 ∧ statePast strings state ≠ 2 := by
  induction strings generalizing state with
  | nil => exact neutral
  | cons body strings ih =>
      obtain ⟨other, others⟩ := List.forall_mem_cons.mp others
      apply ih _ _ others
      have after := (state_after_signing body).not.mpr (Bool.eq_false_iff.mp other)
      rw [stateRead, if_neg (not_or.mpr neutral)]
      exact not_or.mp after

mutual
theorem kept_shorter : ∀ (value : Value) (state : Nat), (state ≠ 1 ∧ state ≠ 2) → intact value = false →
    kept value state < value.text.length
  | .primitive _, _, _, broken => nomatch broken
  | .string body, state, _, broken => by
      have signing := (state_after_signing body).mpr ((Bool.not_eq_false' _).mp broken)
      have skipped : stringSkipped state body := .inr (.inr signing)
      rw [kept, if_pos skipped]
      simp [Value.text, Json.quoted]
  | .object members, state, neutral, broken => by
      rw [object_length, kept]
      by_cases whole : intactMembers members = true
      · have empty : members = .nil := by
          cases members with
          | nil => rfl
          | cons key value rest => simp only [intact, whole, Members.isNil, Bool.not_false, Bool.and_self] at broken; cases broken
        subst empty
        exact Nat.lt_succ_self 1
      · have shorter := kept_shorter_members members state neutral (Bool.eq_false_iff.mpr whole)
        omega
  | .array items, state, neutral, broken => by
      rw [array_length, kept]
      by_cases whole : intactItems items = true
      · have empty : items = .nil := by
          cases items with
          | nil => rfl
          | cons value rest => simp only [intact, whole, Items.isNil, Bool.not_false, Bool.and_self] at broken; cases broken
        subst empty
        exact Nat.lt_succ_self 1
      · have shorter := kept_shorter_items items state neutral (Bool.eq_false_iff.mpr whole)
        omega

theorem kept_shorter_members : ∀ (members : Members) (state : Nat), (state ≠ 1 ∧ state ≠ 2) → intactMembers members = false →
    keptMembers members state < members.listed.length
  | .nil, _, _, broken => nomatch broken
  | .cons key value rest, state, neutral, broken => by
      have keyShort := kept_short key state
      have valueShort := kept_short value (statePast key.strings state)
      have restShort := kept_short_members rest (statePast value.strings (statePast key.strings state))
      have shorter : kept key state < key.text.length ∨ kept value (statePast key.strings state) < value.text.length ∨
          keptMembers rest (statePast value.strings (statePast key.strings state)) < rest.listed.length := by
        by_cases keyWhole : intact key = true
        · have past := strings_neutral key.strings state neutral (intact_strings key keyWhole)
          by_cases valueWhole : intact value = true
          · have after := strings_neutral value.strings _ past (intact_strings value valueWhole)
            simp only [intactMembers, keyWhole, valueWhole, Bool.true_and] at broken
            exact .inr (.inr (kept_shorter_members rest _ after broken))
          · exact .inr (.inl (kept_shorter value _ past (Bool.eq_false_iff.mpr valueWhole)))
        · exact .inl (kept_shorter key state neutral (Bool.eq_false_iff.mpr keyWhole))
      simp only [keptMembers, Members.listed, List.length_cons, List.length_append]
      split <;> omega

theorem kept_shorter_items : ∀ (items : Items) (state : Nat), (state ≠ 1 ∧ state ≠ 2) → intactItems items = false →
    keptItems items state < items.listed.length
  | .nil, _, _, broken => nomatch broken
  | .cons value rest, state, neutral, broken => by
      have valueShort := kept_short value state
      have restShort := kept_short_items rest (statePast value.strings state)
      have shorter : kept value state < value.text.length ∨
          keptItems rest (statePast value.strings state) < rest.listed.length := by
        by_cases valueWhole : intact value = true
        · have past := strings_neutral value.strings state neutral (intact_strings value valueWhole)
          simp only [intactItems, valueWhole, Bool.true_and] at broken
          exact .inr (kept_shorter_items rest _ past broken)
        · exact .inl (kept_shorter value state neutral (Bool.eq_false_iff.mpr valueWhole))
      simp only [keptItems, Items.listed, List.length_cons, List.length_append]
      omega
end

-- Which objects and arrays are copied as their compact text.
theorem instruction_text_iff (value : Value) (valid : value.wellFormed = true) :
    instructionText value = value.text ↔ intact value = true := by
  have walked := value_copied value (ascii "instruction") ⟨[], ⟨[], [], [], []⟩, 5⟩ rfl
  rw [List.nil_append] at walked
  rw [instructionText, ← walked]
  constructor
  · intro same
    by_contra broken
    have shorter := kept_shorter value 5 (by decide) (Bool.eq_false_iff.mpr broken)
    have length := walk_length value ⟨[], ⟨[], [], [], []⟩, 5⟩
    rw [same] at length
    simp only [List.length_nil] at length
    omega
  · intro whole
    obtain ⟨isClean, unsigned⟩ := intact_clean value valid whole
    rcases value_faithful value ⟨[], ⟨[], [], [], []⟩, 5⟩ valid (by simp [neutral_iff]) with ⟨_, text, _⟩ | ⟨notClean, _⟩
    · rw [text, unsigned]
      rfl
    · rw [isClean] at notClean
      cases notClean

theorem outputs_read (members : Members) (payload : Bytes) (prior stray : Bytes × Outputs)
    (object : Json.Padded (.object members) payload) (valid : (Value.object members).wellFormed = true)
    (fits : (Value.object members).nodes ≤ 100) :
    (parseInstructionJson payload prior stray).out =
      ⟨((stringsBehind (ascii "hash") members).getLast?).getD prior.2.hash,
        ((stringsBehind (ascii "thing_key") members).getLast?).getD prior.2.thingKey,
        ((stringsBehind (ascii "alert_key") members).getLast?).getD prior.2.alertKey,
        (((instructionsInMembers [] members).getLast?).map instructionText).getD prior.2.instruction⟩ := by
  obtain ⟨space, text, after, same, blank, blankAfter, spells⟩ := object
  obtain ⟨read, rc⟩ := jsmn_document payload 100 (.object members) space text after valid spells same blank blankAfter fits
  have accepted : ¬ (jsmnParse payload 100).rc < 0 := by rw [rc]; omega
  have document_read : document payload = some (.object members) := by simp only [document, accepted, if_false, read]
  have start : stateAfter [] = 0 := by decide
  have none : ¬ ([] : Bytes) = ascii "instruction" := by decide
  have scan := scan_value (.object members) ⟨[], prior.2, 0⟩
  rw [scan_followers [] _ _ start.symm] at scan
  have instruction := instruction_read (.object members) [] ⟨[], prior.2, 0⟩ start.symm
  rw [instructionsIn, if_neg none, List.append_nil] at instruction
  rw [parse_document payload prior stray (.object members) document_read]
  have hash := congrArg Scan.hash scan
  have thingKey := congrArg Scan.thingKey scan
  have alertKey := congrArg Scan.alertKey scan
  generalize walkValue (.object members) ⟨[], prior.2, 0⟩ = w at hash thingKey alertKey instruction ⊢
  obtain ⟨current, ⟨wHash, wThing, wAlert, wInstruction⟩, state⟩ := w
  simp only [Walk.scan] at hash thingKey alertKey instruction
  rw [hash, thingKey, alertKey, instruction]
  rfl

theorem takes_instruction_read (members : Members) (payload : Bytes) (object : Json.Padded (.object members) payload)
    (valid : (Value.object members).wellFormed = true) (fits : (Value.object members).nodes ≤ 100)
    (takes : TakesInstruction members) : ReadsInstruction members payload := by
  intro prior stray
  rw [outputs_read members payload prior stray object valid fits]
  refine ⟨fun body named => ?_, fun body named => ?_, fun body named => ?_, fun value named => ?_⟩
  · rw [takes.hash body named]
    rfl
  · rw [takes.thingKey body named]
    rfl
  · rw [takes.alertKey body named]
    rfl
  · obtain ⟨copied, last, text⟩ := takes.instruction value named
    rw [Option.mem_def.mp last]
    exact text

theorem instruction_json_read_iff (members : Members) (payload : Bytes) (object : Json.Padded (.object members) payload)
    (valid : (Value.object members).wellFormed = true) (fits : (Value.object members).nodes ≤ 100) :
    ReadsInstruction members payload ↔ TakesInstruction members := by
  refine ⟨fun reads => ?_, takes_instruction_read members payload object valid fits⟩
  have read := fun out => reads ([], out) ([], out)
  simp only [outputs_read members payload _ _ object valid fits] at read
  refine ⟨fun body named => ?_, fun body named => ?_, fun body named => ?_, fun value named => ?_⟩
  · exact (last_fixed _ _).mp (fun prior => (read ⟨prior, [], [], []⟩).hash body named)
  · exact (last_fixed _ _).mp (fun prior => (read ⟨[], prior, [], []⟩).thingKey body named)
  · exact (last_fixed _ _).mp (fun prior => (read ⟨[], [], prior, []⟩).alertKey body named)
  · have last := (last_fixed _ _).mp (fun prior => (read ⟨[], [], [], prior⟩).instruction value named)
    exact Option.map_eq_some_iff.mp last

-- {"instruction":{"on":[1,"hash_rate"]},"thing_key":"k"}
def lampCommand : Value :=
  .object (.cons (.string (ascii "on"))
    (.array (.cons (.primitive (ascii "1")) (.cons (.string (ascii "hash_rate")) .nil))) .nil)

def lampCommanded : Members :=
  .cons (.string (ascii "instruction")) lampCommand (.cons (.string (ascii "thing_key")) (.string (ascii "k")) .nil)

theorem lamp_commanded_named (name : Bytes) (value : Value) (named : lampCommanded.Named name value) :
    name = ascii "instruction" ∧ value = lampCommand ∨ name = ascii "thing_key" ∧ value = .string (ascii "k") := by
  have plainNames : Json.unescape (ascii "instruction") = ascii "instruction" ∧
      Json.unescape (ascii "thing_key") = ascii "thing_key" := by decide +kernel
  obtain ⟨key, listed, rfl⟩ := named
  simp only [lampCommanded, Members.pairs, List.mem_cons, List.not_mem_nil, or_false, Prod.mk.injEq, Value.string.injEq] at listed
  rcases listed with ⟨rfl, rfl⟩ | ⟨rfl, rfl⟩
  · exact .inl ⟨plainNames.1, rfl⟩
  · exact .inr ⟨plainNames.2, rfl⟩

theorem lamp_commanded_read : ReadsInstruction lampCommanded (Value.object lampCommanded).text := by
  have names : ascii "hash" ≠ ascii "thing_key" ∧ ascii "alert_key" ≠ ascii "thing_key" := by decide
  have whole : intact lampCommand = true := by decide +kernel
  apply (instruction_json_read_iff _ _ (Json.text_padded _) (by decide +kernel) (by decide +kernel)).mpr
  refine ⟨fun body named => ?_, fun body named => ?_, fun body named => ?_, fun value named => ?_⟩
  · rcases lamp_commanded_named _ _ named with ⟨_, other⟩ | ⟨other, _⟩
    · cases other
    · exact absurd other names.1
  · rcases lamp_commanded_named _ _ named with ⟨_, other⟩ | ⟨_, same⟩
    · cases other
    · obtain rfl := Value.string.inj same
      decide +kernel
  · rcases lamp_commanded_named _ _ named with ⟨_, other⟩ | ⟨other, _⟩
    · cases other
    · exact absurd other names.2
  · rcases lamp_commanded_named _ _ named with ⟨_, rfl⟩ | ⟨other, _⟩
    · exact ⟨lampCommand, rfl, (instruction_text_iff lampCommand (by decide +kernel)).mpr whole⟩
    · exact absurd other (by decide)

-- {"instruction":"on"}
def spokenInstruction : Members := .cons (.string (ascii "instruction")) (.string (ascii "on")) .nil

theorem spoken_instruction_lost : (Value.object spokenInstruction).wellFormed = true ∧
    (Value.object spokenInstruction).distinct = true ∧ (Value.object spokenInstruction).nodes ≤ 100 ∧
    ¬ ReadsInstruction spokenInstruction (Value.object spokenInstruction).text := by
  refine ⟨by decide +kernel, by decide +kernel, by decide +kernel, fun reads => ?_⟩
  have named : spokenInstruction.Named (ascii "instruction") (.string (ascii "on")) := ⟨_, .head _, by decide +kernel⟩
  have read := (reads ([], ⟨[], [], [], []⟩) ([], ⟨[], [], [], []⟩)).instruction _ named
  revert read
  decide +kernel

end Aliot
