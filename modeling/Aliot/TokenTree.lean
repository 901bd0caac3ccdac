import Aliot.Jsmn

set_option autoImplicit false

namespace Aliot

open Json (Value Members Items)

def readItems (child : Nat → Option (Nat × Value)) : Nat → Nat → Option (Nat × Items)
  | 0, j => some (j, .nil)
  | size + 1, j => do
      let (used, value) ← child j
      let (j, rest) ← readItems child size (j + used)
      return (j, .cons value rest)

def readMembers (child : Nat → Option (Nat × Value)) : Nat → Nat → Option (Nat × Members)
  | 0, j => some (j, .nil)
  | size + 1, j => do
      let (used, key) ← child j
      let (used', value) ← child (j + used)
      let (j, rest) ← readMembers child size (j + used + used')
      return (j, .cons key value rest)

-- The value found by descending along the size fields, with its number of tokens; none outside the tokens.
def readTree (js : Bytes) (tokens : List JsmnTok) : Nat → Nat → Option (Nat × Value)
  | 0, _ => none
  | fuel + 1, t =>
      match tokens[t]? with
      | none => none
      | some tok =>
          let child := fun j => readTree js tokens fuel (t + 1 + j)
          match tok.type with
          | .primitive => some (1, .primitive (tokenText js tok))
          | .string => some (1, .string (tokenText js tok))
          | .object => (readMembers child tok.size 0).map (fun (j, members) => (j + 1, .object members))
          | .array => (readItems child tok.size 0).map (fun (j, items) => (j + 1, .array items))

-- A walk down from token 0 goes at most one token further with every level.
def readDocument (js : Bytes) (tokens : List JsmnTok) : Option Value :=
  (readTree js tokens (tokens.length + 1) 0).map Prod.snd

-- The tokens of a value in the order of its text; a key has its value counted in its size.
mutual
def Laid (js : Bytes) : Value → List JsmnTok → Prop
  | .primitive text, toks =>
      ∃ tok, toks = [tok] ∧ tok.type = .primitive ∧ isOpen tok = false ∧ tokenText js tok = text
  | .string body, toks =>
      ∃ tok, toks = [tok] ∧ tok.type = .string ∧ isOpen tok = false ∧ tokenText js tok = body
  | .object members, toks =>
      ∃ tok inner, toks = tok :: inner ∧ tok.type = .object ∧ isOpen tok = false ∧
        tok.size = members.length ∧ LaidMembers js members inner
  | .array items, toks =>
      ∃ tok inner, toks = tok :: inner ∧ tok.type = .array ∧ isOpen tok = false ∧
        tok.size = items.length ∧ LaidItems js items inner

def LaidMembers (js : Bytes) : Members → List JsmnTok → Prop
  | .nil, toks => toks = []
  | .cons key value rest, toks =>
      ∃ keyToks valueToks more, toks = keyToks ++ valueToks ++ more ∧
        Laid js key keyToks ∧ Laid js value valueToks ∧ LaidMembers js rest more

def LaidItems (js : Bytes) : Items → List JsmnTok → Prop
  | .nil, toks => toks = []
  | .cons value rest, toks =>
      ∃ valueToks more, toks = valueToks ++ more ∧ Laid js value valueToks ∧ LaidItems js rest more
end

theorem at_drop {α : Type} (xs : List α) (t : Nat) (x : α) (rest : List α) (shape : xs.drop t = x :: rest) :
    xs[t]? = some x := by
  have first := congrArg (fun ys => ys[0]?) shape
  simpa using first

theorem drop_past {α : Type} (xs : List α) (t : Nat) (first rest : List α) (shape : xs.drop t = first ++ rest) :
    xs.drop (t + first.length) = rest := by
  rw [← List.drop_drop, shape, List.drop_left]

-- The same with the place told from `base`, as the loops over the children do.
theorem drop_past_from {α : Type} (xs : List α) (base j n : Nat) (first rest : List α)
    (shape : xs.drop (base + j) = first ++ rest) (length : first.length = n) : xs.drop (base + (j + n)) = rest := by
  rw [← length, ← Nat.add_assoc]
  exact drop_past xs (base + j) first rest shape

mutual
theorem laid_length (js : Bytes) : ∀ (value : Value) (toks : List JsmnTok), Laid js value toks →
    toks.length = value.nodes
  | .primitive _, _, laid => by
      obtain ⟨tok, rfl, _⟩ := laid
      rfl
  | .string _, _, laid => by
      obtain ⟨tok, rfl, _⟩ := laid
      rfl
  | .object members, _, laid => by
      obtain ⟨tok, inner, rfl, _, _, _, inside⟩ := laid
      simp only [List.length_cons, Value.nodes, laid_members_length js members inner inside]
  | .array items, _, laid => by
      obtain ⟨tok, inner, rfl, _, _, _, inside⟩ := laid
      simp only [List.length_cons, Value.nodes, laid_items_length js items inner inside]

theorem laid_members_length (js : Bytes) : ∀ (members : Members) (toks : List JsmnTok),
    LaidMembers js members toks → toks.length = members.nodes
  | .nil, _, laid => by
      subst laid
      rfl
  | .cons key value rest, _, laid => by
      obtain ⟨keyToks, valueToks, more, rfl, keyLaid, valueLaid, restLaid⟩ := laid
      simp only [List.length_append, Members.nodes, laid_length js key keyToks keyLaid,
        laid_length js value valueToks valueLaid, laid_members_length js rest more restLaid]

theorem laid_items_length (js : Bytes) : ∀ (items : Items) (toks : List JsmnTok),
    LaidItems js items toks → toks.length = items.nodes
  | .nil, _, laid => by
      subst laid
      rfl
  | .cons value rest, _, laid => by
      obtain ⟨valueToks, more, rfl, valueLaid, restLaid⟩ := laid
      simp only [List.length_append, Items.nodes, laid_length js value valueToks valueLaid,
        laid_items_length js rest more restLaid]
end

mutual
theorem laid_closed (js : Bytes) : ∀ (value : Value) (toks : List JsmnTok), Laid js value toks →
    ∀ tok ∈ toks, isOpen tok = false
  | .primitive _, _, laid => by
      obtain ⟨tok, rfl, _, closed, _⟩ := laid
      simpa using closed
  | .string _, _, laid => by
      obtain ⟨tok, rfl, _, closed, _⟩ := laid
      simpa using closed
  | .object members, _, laid => by
      obtain ⟨tok, inner, rfl, _, closed, _, inside⟩ := laid
      exact List.forall_mem_cons.mpr ⟨closed, laid_members_closed js members inner inside⟩
  | .array items, _, laid => by
      obtain ⟨tok, inner, rfl, _, closed, _, inside⟩ := laid
      exact List.forall_mem_cons.mpr ⟨closed, laid_items_closed js items inner inside⟩

theorem laid_members_closed (js : Bytes) : ∀ (members : Members) (toks : List JsmnTok),
    LaidMembers js members toks → ∀ tok ∈ toks, isOpen tok = false
  | .nil, _, laid => by
      subst laid
      simp
  | .cons key value rest, _, laid => by
      obtain ⟨keyToks, valueToks, more, rfl, keyLaid, valueLaid, restLaid⟩ := laid
      exact List.forall_mem_append.mpr ⟨List.forall_mem_append.mpr ⟨laid_closed js key keyToks keyLaid,
        laid_closed js value valueToks valueLaid⟩, laid_members_closed js rest more restLaid⟩

theorem laid_items_closed (js : Bytes) : ∀ (items : Items) (toks : List JsmnTok),
    LaidItems js items toks → ∀ tok ∈ toks, isOpen tok = false
  | .nil, _, laid => by
      subst laid
      simp
  | .cons value rest, _, laid => by
      obtain ⟨valueToks, more, rfl, valueLaid, restLaid⟩ := laid
      exact List.forall_mem_append.mpr ⟨laid_closed js value valueToks valueLaid,
        laid_items_closed js rest more restLaid⟩
end

section Read

variable (js : Bytes) (tokens : List JsmnTok)

mutual
theorem read_laid : ∀ (value : Value) (fuel t : Nat) (toks after : List JsmnTok), Laid js value toks →
    tokens.drop t = toks ++ after → value.nodes ≤ fuel → readTree js tokens fuel t = some (value.nodes, value)
  | .primitive text, fuel, t, _, after, laid, here, enough => by
      obtain ⟨tok, rfl, type, _, rfl⟩ := laid
      obtain ⟨fuel, rfl⟩ := Nat.exists_eq_add_of_le' enough
      simp only [readTree, at_drop tokens t tok after here, type, Value.nodes]
  | .string body, fuel, t, _, after, laid, here, enough => by
      obtain ⟨tok, rfl, type, _, rfl⟩ := laid
      obtain ⟨fuel, rfl⟩ := Nat.exists_eq_add_of_le' enough
      simp only [readTree, at_drop tokens t tok after here, type, Value.nodes]
  | .object members, fuel, t, _, after, laid, here, enough => by
      obtain ⟨tok, inner, rfl, type, _, size, inside⟩ := laid
      cases fuel with
      | zero => simp only [Value.nodes] at enough; omega
      | succ fuel =>
          have next := drop_past tokens t [tok] (inner ++ after) here
          have read := read_laid_members members fuel (t + 1) 0 inner after inside next
            (Nat.le_of_succ_le_succ enough)
          simp only [readTree, at_drop tokens t tok (inner ++ after) here, type, size, read, Option.map_some,
            Nat.zero_add, Value.nodes]
  | .array items, fuel, t, _, after, laid, here, enough => by
      obtain ⟨tok, inner, rfl, type, _, size, inside⟩ := laid
      cases fuel with
      | zero => simp only [Value.nodes] at enough; omega
      | succ fuel =>
          have next := drop_past tokens t [tok] (inner ++ after) here
          have read := read_laid_items items fuel (t + 1) 0 inner after inside next
            (Nat.le_of_succ_le_succ enough)
          simp only [readTree, at_drop tokens t tok (inner ++ after) here, type, size, read, Option.map_some,
            Nat.zero_add, Value.nodes]

theorem read_laid_members : ∀ (members : Members) (fuel base j : Nat) (toks after : List JsmnTok),
    LaidMembers js members toks → tokens.drop (base + j) = toks ++ after → members.nodes ≤ fuel →
    readMembers (fun j => readTree js tokens fuel (base + j)) members.length j = some (j + members.nodes, members)
  | .nil, _, _, _, _, _, _, _, _ => rfl
  | .cons key value rest, fuel, base, j, _, after, laid, here, enough => by
      obtain ⟨keyToks, valueToks, more, rfl, keyLaid, valueLaid, restLaid⟩ := laid
      simp only [Members.nodes] at enough
      simp only [List.append_assoc] at here
      have valueHere := drop_past_from tokens base j _ keyToks _ here (laid_length js key keyToks keyLaid)
      have restHere := drop_past_from tokens base _ _ valueToks _ valueHere (laid_length js value valueToks valueLaid)
      have keyRead := read_laid key fuel (base + j) keyToks _ keyLaid here (by omega)
      have valueRead := read_laid value fuel (base + (j + key.nodes)) valueToks _ valueLaid valueHere (by omega)
      have restRead := read_laid_members rest fuel base (j + key.nodes + value.nodes) more after restLaid restHere (by omega)
      simp only [Members.length, readMembers, keyRead, valueRead, restRead, Option.bind_eq_bind, Option.bind_some,
        Members.nodes]
      simp only [Nat.add_assoc]
      rfl

theorem read_laid_items : ∀ (items : Items) (fuel base j : Nat) (toks after : List JsmnTok),
    LaidItems js items toks → tokens.drop (base + j) = toks ++ after → items.nodes ≤ fuel →
    readItems (fun j => readTree js tokens fuel (base + j)) items.length j = some (j + items.nodes, items)
  | .nil, _, _, _, _, _, _, _, _ => rfl
  | .cons value rest, fuel, base, j, _, after, laid, here, enough => by
      obtain ⟨valueToks, more, rfl, valueLaid, restLaid⟩ := laid
      simp only [Items.nodes] at enough
      rw [List.append_assoc] at here
      have restHere := drop_past_from tokens base j _ valueToks _ here (laid_length js value valueToks valueLaid)
      have valueRead := read_laid value fuel (base + j) valueToks _ valueLaid here (by omega)
      have restRead := read_laid_items rest fuel base (j + value.nodes) more after restLaid restHere (by omega)
      simp only [Items.length, readItems, valueRead, restRead, Option.bind_eq_bind, Option.bind_some,
        Items.nodes, Nat.add_assoc]
      rfl
end

theorem read_document_laid (value : Value) (laid : Laid js value tokens) : readDocument js tokens = some value := by
  have enough : value.nodes ≤ tokens.length + 1 := by
    rw [laid_length js value tokens laid]
    exact Nat.le_succ _
  have read := read_laid js tokens value (tokens.length + 1) 0 tokens [] laid (by simp) enough
  simp only [readDocument, read, Option.map_some]

theorem read_members_bound (child : Nat → Option (Nat × Value)) (base size j used : Nat) (members : Members)
    (bound : ∀ j used value, child j = some (used, value) → base + j + used ≤ tokens.length)
    (read : readMembers child size j = some (used, members)) (here : base + j ≤ tokens.length) :
    base + used ≤ tokens.length := by
  induction size generalizing j members with
  | zero =>
      obtain ⟨rfl, rfl⟩ := Prod.mk.inj (Option.some.inj read)
      exact here
  | succ size ih =>
      simp only [readMembers, Option.bind_eq_bind, Option.bind_eq_some_iff] at read
      obtain ⟨⟨keyUsed, key⟩, _, ⟨valueUsed, value⟩, valueRead, ⟨last, rest⟩, restRead, result⟩ := read
      obtain ⟨rfl, rfl⟩ := Prod.mk.inj (Option.some.inj result)
      have next := bound _ _ _ valueRead
      exact ih _ _ restRead (by omega)

theorem read_items_bound (child : Nat → Option (Nat × Value)) (base size j used : Nat) (items : Items)
    (bound : ∀ j used value, child j = some (used, value) → base + j + used ≤ tokens.length)
    (read : readItems child size j = some (used, items)) (here : base + j ≤ tokens.length) :
    base + used ≤ tokens.length := by
  induction size generalizing j items with
  | zero =>
      obtain ⟨rfl, rfl⟩ := Prod.mk.inj (Option.some.inj read)
      exact here
  | succ size ih =>
      simp only [readItems, Option.bind_eq_bind, Option.bind_eq_some_iff] at read
      obtain ⟨⟨valueUsed, value⟩, valueRead, ⟨last, rest⟩, restRead, result⟩ := read
      obtain ⟨rfl, rfl⟩ := Prod.mk.inj (Option.some.inj result)
      have next := bound _ _ _ valueRead
      exact ih _ _ restRead (by omega)

theorem read_tree_bound (fuel t used : Nat) (value : Value) (read : readTree js tokens fuel t = some (used, value)) :
    t + used ≤ tokens.length := by
  induction fuel generalizing t used value with
  | zero => cases read
  | succ fuel ih =>
      simp only [readTree] at read
      split at read
      · cases read
      · rename_i tok found
        have within : t < tokens.length := (List.getElem?_eq_some_iff.mp found).1
        have bound : ∀ j used value, readTree js tokens fuel (t + 1 + j) = some (used, value) →
            t + 1 + j + used ≤ tokens.length := fun j used value => ih (t + 1 + j) used value
        split at read
        · obtain ⟨rfl, rfl⟩ := Prod.mk.inj (Option.some.inj read)
          exact within
        · obtain ⟨rfl, rfl⟩ := Prod.mk.inj (Option.some.inj read)
          exact within
        · obtain ⟨⟨j, members⟩, inner, result⟩ := Option.map_eq_some_iff.mp read
          obtain ⟨rfl, rfl⟩ := Prod.mk.inj result
          have inside := read_members_bound tokens _ (t + 1) _ 0 j members bound inner within
          omega
        · obtain ⟨⟨j, items⟩, inner, result⟩ := Option.map_eq_some_iff.mp read
          obtain ⟨rfl, rfl⟩ := Prod.mk.inj result
          have inside := read_items_bound tokens _ (t + 1) _ 0 j items bound inner within
          omega

theorem read_members_nodes (child : Nat → Option (Nat × Value)) (size j used : Nat) (members : Members)
    (counted : ∀ j used value, child j = some (used, value) → used = value.nodes)
    (read : readMembers child size j = some (used, members)) : used = j + members.nodes := by
  induction size generalizing j members with
  | zero =>
      obtain ⟨rfl, rfl⟩ := Prod.mk.inj (Option.some.inj read)
      rfl
  | succ size ih =>
      simp only [readMembers, Option.bind_eq_bind, Option.bind_eq_some_iff] at read
      obtain ⟨⟨keyUsed, key⟩, keyRead, ⟨valueUsed, value⟩, valueRead, ⟨last, rest⟩, restRead, result⟩ := read
      obtain ⟨rfl, rfl⟩ := Prod.mk.inj (Option.some.inj result)
      have name := counted _ _ _ keyRead
      have content := counted _ _ _ valueRead
      have later := ih _ _ restRead
      simp only [Members.nodes]
      omega

theorem read_items_nodes (child : Nat → Option (Nat × Value)) (size j used : Nat) (items : Items)
    (counted : ∀ j used value, child j = some (used, value) → used = value.nodes)
    (read : readItems child size j = some (used, items)) : used = j + items.nodes := by
  induction size generalizing j items with
  | zero =>
      obtain ⟨rfl, rfl⟩ := Prod.mk.inj (Option.some.inj read)
      rfl
  | succ size ih =>
      simp only [readItems, Option.bind_eq_bind, Option.bind_eq_some_iff] at read
      obtain ⟨⟨valueUsed, value⟩, valueRead, ⟨last, rest⟩, restRead, result⟩ := read
      obtain ⟨rfl, rfl⟩ := Prod.mk.inj (Option.some.inj result)
      have content := counted _ _ _ valueRead
      have later := ih _ _ restRead
      simp only [Items.nodes]
      omega

-- A value takes a token for each of its nodes.
theorem read_tree_nodes (fuel t used : Nat) (value : Value) (read : readTree js tokens fuel t = some (used, value)) :
    used = value.nodes := by
  induction fuel generalizing t used value with
  | zero => cases read
  | succ fuel ih =>
      simp only [readTree] at read
      split at read
      · cases read
      · have counted : ∀ j used value, readTree js tokens fuel (t + 1 + j) = some (used, value) → used = value.nodes :=
          fun j used value => ih (t + 1 + j) used value
        split at read
        · obtain ⟨rfl, rfl⟩ := Prod.mk.inj (Option.some.inj read)
          rfl
        · obtain ⟨rfl, rfl⟩ := Prod.mk.inj (Option.some.inj read)
          rfl
        · obtain ⟨⟨j, members⟩, inner, result⟩ := Option.map_eq_some_iff.mp read
          obtain ⟨rfl, rfl⟩ := Prod.mk.inj result
          have inside := read_members_nodes _ _ 0 j members counted inner
          simp only [Value.nodes]
          omega
        · obtain ⟨⟨j, items⟩, inner, result⟩ := Option.map_eq_some_iff.mp read
          obtain ⟨rfl, rfl⟩ := Prod.mk.inj result
          have inside := read_items_nodes _ _ 0 j items counted inner
          simp only [Value.nodes]
          omega

theorem read_tree_nonempty (fuel : Nat) (found : Nat × Value) (read : readTree js tokens fuel 0 = some found) :
    0 < tokens.length := by
  cases tokens with
  | nil => cases fuel <;> cases read
  | cons => exact Nat.succ_pos _

end Read

-- A property that a value has if all its parts have it.
structure Inherited (holds : Value → Prop) (holdsMembers : Members → Prop) (holdsItems : Items → Prop) : Prop where
  object : ∀ members, holdsMembers members → holds (.object members)
  array : ∀ items, holdsItems items → holds (.array items)
  noMember : holdsMembers .nil
  member : ∀ key value rest, holds key → holds value → holdsMembers rest → holdsMembers (.cons key value rest)
  noItem : holdsItems .nil
  item : ∀ value rest, holds value → holdsItems rest → holdsItems (.cons value rest)

section Inherit

variable {holds : Value → Prop} {holdsMembers : Members → Prop} {holdsItems : Items → Prop}

theorem read_members_inherited (inherited : Inherited holds holdsMembers holdsItems) (child : Nat → Option (Nat × Value))
    (size j used : Nat) (members : Members) (held : ∀ j used value, child j = some (used, value) → holds value)
    (read : readMembers child size j = some (used, members)) : holdsMembers members := by
  induction size generalizing j members with
  | zero =>
      obtain ⟨_, rfl⟩ := Prod.mk.inj (Option.some.inj read)
      exact inherited.noMember
  | succ size ih =>
      simp only [readMembers, Option.bind_eq_bind, Option.bind_eq_some_iff] at read
      obtain ⟨⟨_, key⟩, keyRead, ⟨_, value⟩, valueRead, ⟨_, rest⟩, restRead, result⟩ := read
      obtain ⟨rfl, rfl⟩ := Prod.mk.inj (Option.some.inj result)
      exact inherited.member key value rest (held _ _ _ keyRead) (held _ _ _ valueRead) (ih _ _ restRead)

theorem read_items_inherited (inherited : Inherited holds holdsMembers holdsItems) (child : Nat → Option (Nat × Value))
    (size j used : Nat) (items : Items) (held : ∀ j used value, child j = some (used, value) → holds value)
    (read : readItems child size j = some (used, items)) : holdsItems items := by
  induction size generalizing j items with
  | zero =>
      obtain ⟨_, rfl⟩ := Prod.mk.inj (Option.some.inj read)
      exact inherited.noItem
  | succ size ih =>
      simp only [readItems, Option.bind_eq_bind, Option.bind_eq_some_iff] at read
      obtain ⟨⟨_, value⟩, valueRead, ⟨_, rest⟩, restRead, result⟩ := read
      obtain ⟨rfl, rfl⟩ := Prod.mk.inj (Option.some.inj result)
      exact inherited.item value rest (held _ _ _ valueRead) (ih _ _ restRead)

theorem read_tree_inherited (inherited : Inherited holds holdsMembers holdsItems) (js : Bytes) (tokens : List JsmnTok)
    (leaves : ∀ tok ∈ tokens, (tok.type = .primitive → holds (.primitive (tokenText js tok))) ∧
      (tok.type = .string → holds (.string (tokenText js tok))))
    (fuel t used : Nat) (value : Value) (read : readTree js tokens fuel t = some (used, value)) : holds value := by
  induction fuel generalizing t used value with
  | zero => cases read
  | succ fuel ih =>
      simp only [readTree] at read
      split at read
      · cases read
      · rename_i tok found
        have leaf := leaves tok (List.mem_of_getElem? found)
        split at read
        · rename_i type
          obtain ⟨_, rfl⟩ := Prod.mk.inj (Option.some.inj read)
          exact leaf.1 type
        · rename_i type
          obtain ⟨_, rfl⟩ := Prod.mk.inj (Option.some.inj read)
          exact leaf.2 type
        · obtain ⟨⟨j, members⟩, inner, result⟩ := Option.map_eq_some_iff.mp read
          obtain ⟨_, rfl⟩ := Prod.mk.inj result
          exact inherited.object members
            (read_members_inherited inherited _ _ _ _ members (fun j used value => ih (t + 1 + j) used value) inner)
        · obtain ⟨⟨j, items⟩, inner, result⟩ := Option.map_eq_some_iff.mp read
          obtain ⟨_, rfl⟩ := Prod.mk.inj result
          exact inherited.array items
            (read_items_inherited inherited _ _ _ _ items (fun j used value => ih (t + 1 + j) used value) inner)

end Inherit

-- A handler that treats the token at j as the value read there.
structure Follows {ω : Type} (total base : Nat) (child : Nat → ω → Option (Nat × ω)) (tree : Nat → Option (Nat × Value))
    (handle : Value → ω → ω) : Prop where
  agree : ∀ j w, base + j ≤ total → child j w = (tree j).map (fun (used, value) => (used, handle value w))
  bound : ∀ j used value, tree j = some (used, value) → base + j + used ≤ total

section Follow

variable {ω : Type} {total base : Nat} {child : Nat → ω → Option (Nat × ω)} {tree : Nat → Option (Nat × Value)}
  {handle : Value → ω → ω}

theorem tree_follows (js : Bytes) (tokens : List JsmnTok) (fuel base : Nat) (child : Nat → ω → Option (Nat × ω))
    (handle : Value → ω → ω) (agree : ∀ j w, base + j ≤ tokens.length →
      child j w = (readTree js tokens fuel (base + j)).map (fun (used, value) => (used, handle value w))) :
    Follows tokens.length base child (fun j => readTree js tokens fuel (base + j)) handle :=
  ⟨agree, fun j used value => read_tree_bound js tokens fuel (base + j) used value⟩

theorem child_followed (follows : Follows total base child tree handle) (j used : Nat) (value : Value) (w : ω)
    (here : base + j ≤ total) (read : tree j = some (used, value)) :
    child j w = some (used, handle value w) ∧ base + (j + used) ≤ total := by
  have after := follows.bound j used value read
  rw [Nat.add_assoc] at after
  refine ⟨?_, after⟩
  rw [follows.agree j w here, read, Option.map_some]

theorem child_missing (follows : Follows total base child tree handle) (j : Nat) (w : ω) (here : base + j ≤ total)
    (missing : tree j = none) : child j w = none := by
  rw [follows.agree j w here, missing, Option.map_none]

-- `between` is what the loop does to its state after a key, `past` what it does after the value.
theorem members_followed (follows : Follows total base child tree handle) (loop : Nat → Nat → ω → Option (Nat × ω))
    (whole : Members → ω → ω) (between : ω → ω) (past : ω → ω → ω) (ended : ∀ j w, loop 0 j w = some (j, w))
    (step : ∀ left j w, loop (left + 1) j w = (child j w).bind (fun (used, key) =>
      (child (j + used) (between key)).bind (fun (used', value) => loop left (j + used + used') (past key value))))
    (wholeNil : ∀ w, whole .nil w = w)
    (wholeCons : ∀ key value rest w, whole (.cons key value rest) w =
      whole rest (past (handle key w) (handle value (between (handle key w)))))
    (size j : Nat) (w : ω) (here : base + j ≤ total) :
    loop size j w = (readMembers tree size j).map (fun (j, members) => (j, whole members w)) := by
  induction size generalizing j w with
  | zero => simp only [ended, readMembers, Option.map_some, wholeNil]
  | succ size ih =>
      simp only [step, readMembers, Option.bind_eq_bind]
      cases keyRead : tree j with
      | none =>
          rw [child_missing follows j w here keyRead]
          rfl
      | some key =>
          obtain ⟨keyUsed, key⟩ := key
          obtain ⟨handled, next⟩ := child_followed follows j keyUsed key w here keyRead
          simp only [handled, Option.bind_some]
          cases valueRead : tree (j + keyUsed) with
          | none =>
              rw [child_missing follows (j + keyUsed) _ next valueRead]
              rfl
          | some value =>
              obtain ⟨valueUsed, value⟩ := value
              obtain ⟨handled, after⟩ := child_followed follows (j + keyUsed) valueUsed value (between (handle key w)) next
                valueRead
              simp only [handled, Option.bind_some, ih (j + keyUsed + valueUsed) _ after, ← wholeCons]
              cases readMembers tree size (j + keyUsed + valueUsed) <;> rfl

theorem items_followed (follows : Follows total base child tree handle) (loop : Nat → Nat → ω → Option (Nat × ω))
    (whole : Items → ω → ω) (past : ω → ω) (ended : ∀ j w, loop 0 j w = some (j, w))
    (step : ∀ left j w, loop (left + 1) j w = (child j w).bind (fun (used, value) => loop left (j + used) (past value)))
    (wholeNil : ∀ w, whole .nil w = w)
    (wholeCons : ∀ value rest w, whole (.cons value rest) w = whole rest (past (handle value w)))
    (size j : Nat) (w : ω) (here : base + j ≤ total) :
    loop size j w = (readItems tree size j).map (fun (j, items) => (j, whole items w)) := by
  induction size generalizing j w with
  | zero => simp only [ended, readItems, Option.map_some, wholeNil]
  | succ size ih =>
      simp only [step, readItems, Option.bind_eq_bind]
      cases read : tree j with
      | none =>
          rw [child_missing follows j w here read]
          rfl
      | some value =>
          obtain ⟨used, value⟩ := value
          obtain ⟨handled, next⟩ := child_followed follows j used value w here read
          simp only [handled, Option.bind_some, ih (j + used) _ next, ← wholeCons]
          cases readItems tree size (j + used) <;> rfl

end Follow

end Aliot
