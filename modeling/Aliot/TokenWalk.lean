import Aliot.Ack
import Aliot.JsonFields
import Aliot.JsonHandler

set_option autoImplicit false

namespace Aliot

open Json (Value Members Items)

-- What a handler does to its own state at each place of the walk that json_handler and ack_handler share: `between` behind
-- a key, `past` behind the value of that key, `item` behind an item of an array.
structure TokenOps (ω : Type) where
  primitive : Bytes → ω → ω
  string : Bytes → ω → ω
  openObject : ω → ω
  between : ω → ω
  past : ω → ω → ω
  closeObject : ω → ω → ω
  openArray : ω → ω
  item : ω → ω
  closeArray : ω → ω → ω

def jsonOps : TokenOps Walk where
  primitive := fun text w => { w with current := w.current ++ text }
  string := stringRead
  openObject := fun w => { w with current := [0x7b] }
  between := fun w => separate w (keySkipped w) 0x3a
  past := fun key value => separate value (keySkipped key) 0x2c
  closeObject := fun outer inner => closeContainer outer inner 0x7d
  openArray := fun w => { w with current := [0x5b] }
  item := fun w => w.strcat 0x2c
  closeArray := fun outer inner => closeContainer outer inner 0x5d

def ackOps : TokenOps AckWalk where
  primitive := ackPrimitive
  string := ackString
  openObject := id
  between := id
  past := fun _ value => value
  closeObject := fun _ inner => inner
  openArray := id
  item := id
  closeArray := fun _ inner => inner

-- A return of a handler: the offset, the state and the calls made, each with its token and what it returned.
structure Return (ω : Type) where
  used : Nat
  walk : ω
  calls : List (Nat × Nat)

def Return.value {ω : Type} (r : Return ω) : Nat × ω := (r.used, r.walk)

section Loops

variable {ω : Type} (ops : TokenOps ω)

def memberLoop (child : Nat → ω → Option (Return ω)) : Nat → Nat → ω → Option (Return ω)
  | 0, j, w => some ⟨j, w, []⟩
  | left + 1, j, w => do
      let key ← child j w
      let value ← child (j + key.used) (ops.between key.walk)
      let rest ← memberLoop child left (j + key.used + value.used) (ops.past key.walk value.walk)
      return ⟨rest.used, rest.walk, key.calls ++ value.calls ++ rest.calls⟩

def itemLoop (child : Nat → ω → Option (Return ω)) : Nat → Nat → ω → Option (Return ω)
  | 0, j, w => some ⟨j, w, []⟩
  | left + 1, j, w => do
      let value ← child j w
      let rest ← itemLoop child left (j + value.used) (ops.item value.walk)
      return ⟨rest.used, rest.walk, value.calls ++ rest.calls⟩

def tokenWalk (js : Bytes) (tokens : List JsmnTok) : Nat → Nat → Nat → ω → Option (Return ω)
  | 0, _, _, _ => none
  | fuel + 1, t, count, w =>
      if count = 0 then some ⟨0, w, [(t, 0)]⟩
      else
        match tokens[t]? with
        | none => none
        | some tok =>
            let child := fun j w => tokenWalk js tokens fuel (t + 1 + j) (count - j) w
            match tok.type with
            | .primitive => some ⟨1, ops.primitive (tokenText js tok) w, [(t, 1)]⟩
            | .string => some ⟨1, ops.string (tokenText js tok) w, [(t, 1)]⟩
            | .object => (memberLoop ops child tok.size 0 (ops.openObject w)).map (fun inner =>
                ⟨inner.used + 1, ops.closeObject w inner.walk, (t, inner.used + 1) :: inner.calls⟩)
            | .array => (itemLoop ops child tok.size 0 (ops.openArray w)).map (fun inner =>
                ⟨inner.used + 1, ops.closeArray w inner.walk, (t, inner.used + 1) :: inner.calls⟩)

-- A loop of the source whose calls are those of `child` is the loop above with its list of calls forgotten.
theorem member_loop_value (child : Nat → ω → Option (Nat × ω)) (called : Nat → ω → Option (Return ω))
    (agree : ∀ j w, child j w = (called j w).map Return.value) (loop : Nat → Nat → ω → Option (Nat × ω))
    (ended : ∀ j w, loop 0 j w = some (j, w))
    (step : ∀ left j w, loop (left + 1) j w = (child j w).bind (fun (used, key) =>
      (child (j + used) (ops.between key)).bind (fun (used', value) => loop left (j + used + used') (ops.past key value))))
    (size j : Nat) (w : ω) : loop size j w = (memberLoop ops called size j w).map Return.value := by
  induction size generalizing j w with
  | zero => exact ended j w
  | succ size ih =>
      simp only [step, agree, memberLoop, Option.bind_eq_bind]
      cases called j w with
      | none => rfl
      | some key =>
          simp only [Option.map_some, Option.bind_some, Return.value]
          cases called (j + key.used) (ops.between key.walk) with
          | none => rfl
          | some value =>
              simp only [Option.map_some, Option.bind_some, Return.value, ih]
              cases memberLoop ops called size (j + key.used + value.used) (ops.past key.walk value.walk) <;> rfl

theorem item_loop_value (child : Nat → ω → Option (Nat × ω)) (called : Nat → ω → Option (Return ω))
    (agree : ∀ j w, child j w = (called j w).map Return.value) (loop : Nat → Nat → ω → Option (Nat × ω))
    (ended : ∀ j w, loop 0 j w = some (j, w))
    (step : ∀ left j w, loop (left + 1) j w = (child j w).bind (fun (used, value) =>
      loop left (j + used) (ops.item value)))
    (size j : Nat) (w : ω) : loop size j w = (itemLoop ops called size j w).map Return.value := by
  induction size generalizing j w with
  | zero => exact ended j w
  | succ size ih =>
      simp only [step, agree, itemLoop, Option.bind_eq_bind]
      cases called j w with
      | none => rfl
      | some value =>
          simp only [Option.map_some, Option.bind_some, Return.value, ih]
          cases itemLoop ops called size (j + value.used) (ops.item value.walk) <;> rfl

theorem closed_value (inner : Option (Return ω)) (loop : Option (Nat × ω)) (same : loop = inner.map Return.value)
    (close : ω → ω) (t : Nat) : loop.map (fun (j, w) => (j + 1, close w)) =
      (inner.map (fun inner => ⟨inner.used + 1, close inner.walk, (t, inner.used + 1) :: inner.calls⟩)).map Return.value := by
  subst same
  cases inner <;> rfl

end Loops

section Erase

variable (js : Bytes) (tokens : List JsmnTok)

theorem json_handler_value (fuel t count : Nat) (w : Walk) :
    jsonHandler js tokens fuel t count w = (tokenWalk jsonOps js tokens fuel t count w).map Return.value := by
  induction fuel generalizing t count w with
  | zero => rfl
  | succ fuel ih =>
      simp only [jsonHandler, tokenWalk]
      by_cases stopped : count = 0
      · rw [if_pos stopped, if_pos stopped]
        rfl
      · rw [if_neg stopped, if_neg stopped]
        cases tokens[t]? with
        | none => rfl
        | some tok =>
            have agree := fun j w => ih (t + 1 + j) (count - j) w
            cases type : tok.type with
            | primitive => simp only [type]; rfl
            | string => simp only [type]; rfl
            | object =>
                simp only [type, bind_pure_comp, Option.map_eq_map]
                have inner := member_loop_value jsonOps _ _ agree (objectLoop _) (fun _ _ => rfl) (fun _ _ _ => rfl)
                exact closed_value _ _ (inner tok.size 0 (jsonOps.openObject w)) (jsonOps.closeObject w) t
            | array =>
                simp only [type, bind_pure_comp, Option.map_eq_map]
                have inner := item_loop_value jsonOps _ _ agree (arrayLoop _) (fun _ _ => rfl) (fun _ _ _ => rfl)
                exact closed_value _ _ (inner tok.size 0 (jsonOps.openArray w)) (jsonOps.closeArray w) t

theorem ack_handler_value (fuel t count : Nat) (w : AckWalk) :
    ackHandler js tokens fuel t count w = (tokenWalk ackOps js tokens fuel t count w).map Return.value := by
  induction fuel generalizing t count w with
  | zero => rfl
  | succ fuel ih =>
      simp only [ackHandler, tokenWalk]
      by_cases stopped : count = 0
      · rw [if_pos stopped, if_pos stopped]
        rfl
      · rw [if_neg stopped, if_neg stopped]
        cases tokens[t]? with
        | none => rfl
        | some tok =>
            have agree := fun j w => ih (t + 1 + j) (count - j) w
            cases type : tok.type with
            | primitive => simp only [type]; rfl
            | string => simp only [type]; rfl
            | object =>
                simp only [type]
                have inner := member_loop_value ackOps _ _ agree
                  (fun size => ackLoop (fun j w => ackHandler js tokens fuel (t + 1 + j) (count - j) w) (2 * size))
                  (fun _ _ => rfl) (fun _ _ _ => rfl)
                exact closed_value _ _ (inner tok.size 0 w) id t
            | array =>
                simp only [type]
                have inner := item_loop_value ackOps _ _ agree (ackLoop _) (fun _ _ => rfl) (fun _ _ _ => rfl)
                exact closed_value _ _ (inner tok.size 0 w) id t

end Erase

-- The parts of a value in the order of its text, itself first.
mutual
def partsOf : Value → List Value
  | .primitive text => [.primitive text]
  | .string body => [.string body]
  | .object members => .object members :: memberParts members
  | .array items => .array items :: itemParts items

def memberParts : Members → List Value
  | .nil => []
  | .cons key value rest => partsOf key ++ partsOf value ++ memberParts rest

def itemParts : Items → List Value
  | .nil => []
  | .cons value rest => partsOf value ++ itemParts rest
end

mutual
theorem parts_length : ∀ value : Value, (partsOf value).length = value.nodes
  | .primitive _ => rfl
  | .string _ => rfl
  | .object members => by
      simp only [partsOf, List.length_cons, member_parts_length members, Value.nodes]
  | .array items => by
      simp only [partsOf, List.length_cons, item_parts_length items, Value.nodes]

theorem member_parts_length : ∀ members : Members, (memberParts members).length = members.nodes
  | .nil => rfl
  | .cons key value rest => by
      simp only [memberParts, List.length_append, parts_length key, parts_length value, member_parts_length rest,
        Members.nodes]

theorem item_parts_length : ∀ items : Items, (itemParts items).length = items.nodes
  | .nil => rfl
  | .cons value rest => by
      simp only [itemParts, List.length_append, parts_length value, item_parts_length rest, Items.nodes]
end

-- One call for every part, at consecutive tokens, each giving back the number of tokens of its part.
def callsAt (t : Nat) : List Value → List (Nat × Nat)
  | [] => []
  | part :: parts => (t, part.nodes) :: callsAt (t + 1) parts

theorem calls_append (t : Nat) (first second : List Value) :
    callsAt t (first ++ second) = callsAt t first ++ callsAt (t + first.length) second := by
  induction first generalizing t with
  | nil => rfl
  | cons part first ih =>
      simp only [List.cons_append, callsAt, ih, List.length_cons, Nat.add_assoc, Nat.add_comm 1]

theorem calls_tokens (t : Nat) (parts : List Value) : (callsAt t parts).map Prod.fst = List.range' t parts.length := by
  induction parts generalizing t with
  | nil => rfl
  | cons part parts ih => simp only [callsAt, List.map_cons, ih, List.length_cons, List.range'_succ]

section Laid

variable {ω : Type} (ops : TokenOps ω) (js : Bytes) (tokens : List JsmnTok)

mutual
theorem walk_laid : ∀ (value : Value) (fuel t count : Nat) (w : ω) (toks after : List JsmnTok), Laid js value toks →
    tokens.drop t = toks ++ after → value.nodes ≤ fuel → value.nodes ≤ count →
    ∃ w', tokenWalk ops js tokens fuel t count w = some ⟨value.nodes, w', callsAt t (partsOf value)⟩
  | .primitive text, fuel, t, count, w, _, after, laid, here, enough, counted => by
      obtain ⟨tok, rfl, type, _⟩ := laid
      obtain ⟨fuel, rfl⟩ := Nat.exists_eq_add_of_le' enough
      have left : count ≠ 0 := Nat.pos_iff_ne_zero.mp counted
      simp only [Value.nodes, tokenWalk, if_neg left, at_drop tokens t tok after here, type]
      exact ⟨_, rfl⟩
  | .string body, fuel, t, count, w, _, after, laid, here, enough, counted => by
      obtain ⟨tok, rfl, type, _⟩ := laid
      obtain ⟨fuel, rfl⟩ := Nat.exists_eq_add_of_le' enough
      have left : count ≠ 0 := Nat.pos_iff_ne_zero.mp counted
      simp only [Value.nodes, tokenWalk, if_neg left, at_drop tokens t tok after here, type]
      exact ⟨_, rfl⟩
  | .object members, fuel, t, count, w, _, after, laid, here, enough, counted => by
      obtain ⟨tok, inner, rfl, type, _, size, inside⟩ := laid
      simp only [Value.nodes] at enough counted
      obtain ⟨fuel, rfl⟩ := Nat.exists_eq_add_of_le' (Nat.le_of_add_left_le enough)
      have left : count ≠ 0 := by omega
      have next := drop_past tokens t [tok] (inner ++ after) here
      obtain ⟨w', walked⟩ := walk_laid_members members fuel (t + 1) 0 count (ops.openObject w) inner after inside next
        (by omega) (by omega)
      simp only [tokenWalk, if_neg left, at_drop tokens t tok (inner ++ after) here, type, size, walked, Option.map_some,
        Nat.zero_add]
      exact ⟨_, rfl⟩
  | .array items, fuel, t, count, w, _, after, laid, here, enough, counted => by
      obtain ⟨tok, inner, rfl, type, _, size, inside⟩ := laid
      simp only [Value.nodes] at enough counted
      obtain ⟨fuel, rfl⟩ := Nat.exists_eq_add_of_le' (Nat.le_of_add_left_le enough)
      have left : count ≠ 0 := by omega
      have next := drop_past tokens t [tok] (inner ++ after) here
      obtain ⟨w', walked⟩ := walk_laid_items items fuel (t + 1) 0 count (ops.openArray w) inner after inside next
        (by omega) (by omega)
      simp only [tokenWalk, if_neg left, at_drop tokens t tok (inner ++ after) here, type, size, walked, Option.map_some,
        Nat.zero_add]
      exact ⟨_, rfl⟩

theorem walk_laid_members : ∀ (members : Members) (fuel base j count : Nat) (w : ω) (toks after : List JsmnTok),
    LaidMembers js members toks → tokens.drop (base + j) = toks ++ after → members.nodes ≤ fuel →
    j + members.nodes ≤ count →
    ∃ w', memberLoop ops (fun j w => tokenWalk ops js tokens fuel (base + j) (count - j) w) members.length j w =
      some ⟨j + members.nodes, w', callsAt (base + j) (memberParts members)⟩
  | .nil, _, _, _, _, w, _, _, _, _, _, _ => ⟨w, rfl⟩
  | .cons key value rest, fuel, base, j, count, w, _, after, laid, here, enough, counted => by
      obtain ⟨keyToks, valueToks, more, rfl, keyLaid, valueLaid, restLaid⟩ := laid
      simp only [Members.nodes] at enough counted
      simp only [List.append_assoc] at here
      have valueHere := drop_past_from tokens base j _ keyToks _ here (laid_length js key keyToks keyLaid)
      have restHere := drop_past_from tokens base _ _ valueToks _ valueHere (laid_length js value valueToks valueLaid)
      obtain ⟨w₁, keyWalked⟩ := walk_laid key fuel (base + j) (count - j) w keyToks _ keyLaid here (by omega) (by omega)
      obtain ⟨w₂, valueWalked⟩ := walk_laid value fuel (base + (j + key.nodes)) (count - (j + key.nodes)) (ops.between w₁)
        valueToks _ valueLaid valueHere (by omega) (by omega)
      obtain ⟨w₃, restWalked⟩ := walk_laid_members rest fuel base (j + key.nodes + value.nodes) count (ops.past w₁ w₂) more after
        restLaid restHere (by omega) (by omega)
      simp only [Members.length, memberLoop, keyWalked, valueWalked, restWalked, Option.bind_eq_bind, Option.bind_some,
        Members.nodes, memberParts, calls_append, List.length_append, parts_length]
      simp only [Nat.add_assoc]
      exact ⟨w₃, rfl⟩

theorem walk_laid_items : ∀ (items : Items) (fuel base j count : Nat) (w : ω) (toks after : List JsmnTok),
    LaidItems js items toks → tokens.drop (base + j) = toks ++ after → items.nodes ≤ fuel → j + items.nodes ≤ count →
    ∃ w', itemLoop ops (fun j w => tokenWalk ops js tokens fuel (base + j) (count - j) w) items.length j w =
      some ⟨j + items.nodes, w', callsAt (base + j) (itemParts items)⟩
  | .nil, _, _, _, _, w, _, _, _, _, _, _ => ⟨w, rfl⟩
  | .cons value rest, fuel, base, j, count, w, _, after, laid, here, enough, counted => by
      obtain ⟨valueToks, more, rfl, valueLaid, restLaid⟩ := laid
      simp only [Items.nodes] at enough counted
      rw [List.append_assoc] at here
      have restHere := drop_past_from tokens base j _ valueToks _ here (laid_length js value valueToks valueLaid)
      obtain ⟨w₁, valueWalked⟩ := walk_laid value fuel (base + j) (count - j) w valueToks _ valueLaid here (by omega) (by omega)
      obtain ⟨w₂, restWalked⟩ := walk_laid_items rest fuel base (j + value.nodes) count (ops.item w₁) more after restLaid
        restHere (by omega) (by omega)
      simp only [Items.length, itemLoop, valueWalked, restWalked, Option.bind_eq_bind, Option.bind_some, Items.nodes,
        itemParts, calls_append, parts_length]
      simp only [Nat.add_assoc]
      exact ⟨w₂, rfl⟩
end

end Laid

section Parts

variable (js : Bytes)

-- The part at index `t` has its tokens from `t` on.
def PartsLaid (parts : List Value) (toks : List JsmnTok) : Prop :=
  ∀ t part, parts[t]? = some part → ∃ partToks after, toks.drop t = partToks ++ after ∧ Laid js part partToks

theorem parts_laid_nil (toks : List JsmnTok) : PartsLaid js [] toks := by
  intro t part found
  rw [List.getElem?_nil] at found
  cases found

theorem parts_laid_cons (value : Value) (parts : List Value) (tok : JsmnTok) (toks : List JsmnTok)
    (laid : Laid js value (tok :: toks)) (behind : PartsLaid js parts toks) :
    PartsLaid js (value :: parts) (tok :: toks) := by
  intro t part found
  cases t with
  | zero =>
      obtain rfl := Option.some.inj found
      exact ⟨tok :: toks, [], (List.append_nil _).symm, laid⟩
  | succ t => exact behind t part found

theorem parts_laid_append (first second : List Value) (firstToks secondToks : List JsmnTok)
    (length : firstToks.length = first.length) (before : PartsLaid js first firstToks)
    (behind : PartsLaid js second secondToks) : PartsLaid js (first ++ second) (firstToks ++ secondToks) := by
  intro t part found
  by_cases inside : t < first.length
  · rw [List.getElem?_append_left inside] at found
    obtain ⟨partToks, after, shape, laid⟩ := before t part found
    refine ⟨partToks, after ++ secondToks, ?_, laid⟩
    rw [List.drop_append_of_le_length (by omega), shape, List.append_assoc]
  · rw [List.getElem?_append_right (Nat.le_of_not_lt inside)] at found
    obtain ⟨partToks, after, shape, laid⟩ := behind (t - first.length) part found
    refine ⟨partToks, after, ?_, laid⟩
    rw [List.drop_append, List.drop_eq_nil_of_le (by omega), List.nil_append, length, shape]

mutual
theorem value_parts_laid : ∀ (value : Value) (toks : List JsmnTok), Laid js value toks →
    PartsLaid js (partsOf value) toks
  | .primitive text, _, laid => by
      have whole := laid
      obtain ⟨tok, rfl, _⟩ := laid
      exact parts_laid_cons js _ [] tok [] whole (parts_laid_nil js [])
  | .string body, _, laid => by
      have whole := laid
      obtain ⟨tok, rfl, _⟩ := laid
      exact parts_laid_cons js _ [] tok [] whole (parts_laid_nil js [])
  | .object members, _, laid => by
      have whole := laid
      obtain ⟨tok, inner, rfl, _, _, _, inside⟩ := laid
      exact parts_laid_cons js _ _ tok inner whole (member_parts_laid members inner inside)
  | .array items, _, laid => by
      have whole := laid
      obtain ⟨tok, inner, rfl, _, _, _, inside⟩ := laid
      exact parts_laid_cons js _ _ tok inner whole (item_parts_laid items inner inside)

theorem member_parts_laid : ∀ (members : Members) (toks : List JsmnTok), LaidMembers js members toks →
    PartsLaid js (memberParts members) toks
  | .nil, toks, _ => parts_laid_nil js toks
  | .cons key value rest, _, laid => by
      obtain ⟨keyToks, valueToks, more, rfl, keyLaid, valueLaid, restLaid⟩ := laid
      have keyLength := (laid_length js key keyToks keyLaid).trans (parts_length key).symm
      have valueLength := (laid_length js value valueToks valueLaid).trans (parts_length value).symm
      have pair := parts_laid_append js _ _ keyToks valueToks keyLength (value_parts_laid key keyToks keyLaid)
        (value_parts_laid value valueToks valueLaid)
      have pairLength : (keyToks ++ valueToks).length = (partsOf key ++ partsOf value).length := by
        rw [List.length_append, List.length_append, keyLength, valueLength]
      exact parts_laid_append js _ _ _ more pairLength pair (member_parts_laid rest more restLaid)

theorem item_parts_laid : ∀ (items : Items) (toks : List JsmnTok), LaidItems js items toks →
    PartsLaid js (itemParts items) toks
  | .nil, toks, _ => parts_laid_nil js toks
  | .cons value rest, _, laid => by
      obtain ⟨valueToks, more, rfl, valueLaid, restLaid⟩ := laid
      have valueLength := (laid_length js value valueToks valueLaid).trans (parts_length value).symm
      exact parts_laid_append js _ _ valueToks more valueLength (value_parts_laid value valueToks valueLaid)
        (item_parts_laid rest more restLaid)
end

end Parts

-- A call for `value` at token `t`, whatever the state: it gives back the number of tokens of the value, and with the calls it
-- makes it has been on each of these tokens once and in their order, every time for the part that starts there.
structure Visits {ω : Type} (ops : TokenOps ω) (handler : Nat → Nat → Nat → ω → Option (Nat × ω)) (js : Bytes)
    (tokens : List JsmnTok) (value : Value) (t : Nat) : Prop where
  returns : ∀ fuel count w, value.nodes ≤ fuel → value.nodes ≤ count →
    ∃ w', handler fuel t count w = some (value.nodes, w') ∧
      tokenWalk ops js tokens fuel t count w = some ⟨value.nodes, w', callsAt t (partsOf value)⟩
  inOrder : (callsAt t (partsOf value)).map Prod.fst = List.range' t value.nodes

theorem visits_laid {ω : Type} (ops : TokenOps ω) (handler : Nat → Nat → Nat → ω → Option (Nat × ω)) (js : Bytes)
    (tokens : List JsmnTok)
    (same : ∀ fuel t count w, handler fuel t count w = (tokenWalk ops js tokens fuel t count w).map Return.value)
    (value : Value) (t : Nat) (toks after : List JsmnTok) (laid : Laid js value toks) (here : tokens.drop t = toks ++ after) :
    Visits ops handler js tokens value t := by
  constructor
  · intro fuel count w enough counted
    obtain ⟨w', walked⟩ := walk_laid ops js tokens value fuel t count w toks after laid here enough counted
    refine ⟨w', ?_, walked⟩
    rw [same, walked]
    rfl
  · rw [calls_tokens, parts_length]

theorem handlers_visit (root : Value) (js : Bytes) (padded : Json.Padded root js) (valid : root.wellFormed = true)
    (fits : root.nodes ≤ 100) : (jsmnParse js 100).tokens.length = root.nodes ∧
    ∀ t value, (partsOf root)[t]? = some value →
      (∃ toks after, (jsmnParse js 100).tokens.drop t = toks ++ after ∧ Laid js value toks) ∧
      Visits jsonOps (jsonHandler js (jsmnParse js 100).tokens) js (jsmnParse js 100).tokens value t ∧
      Visits ackOps (ackHandler js (jsmnParse js 100).tokens) js (jsmnParse js 100).tokens value t := by
  obtain ⟨space, text, after, shape, blank, blankAfter, spells⟩ := padded
  obtain ⟨tokens, laid, parsed⟩ := jsmn_parse_value js 100 root space text after valid spells shape blank blankAfter fits
  rw [parsed]
  refine ⟨laid_length js root tokens laid, fun t value found => ?_⟩
  obtain ⟨toks, behind, here, partLaid⟩ := value_parts_laid js root tokens laid t value found
  exact ⟨⟨toks, behind, here, partLaid⟩,
    visits_laid jsonOps _ js tokens (json_handler_value js tokens) value t toks behind partLaid here,
    visits_laid ackOps _ js tokens (ack_handler_value js tokens) value t toks behind partLaid here⟩

-- {"hash":["a",1]}
def hashedList : Value :=
  .object (.cons (.string (ascii "hash"))
    (.array (.cons (.string (ascii "a")) (.cons (.primitive (ascii "1")) .nil))) .nil)

theorem hashed_list_visited : Visits jsonOps (jsonHandler hashedList.text (jsmnParse hashedList.text 100).tokens)
    hashedList.text (jsmnParse hashedList.text 100).tokens
    (.array (.cons (.string (ascii "a")) (.cons (.primitive (ascii "1")) .nil))) 2 :=
  ((handlers_visit hashedList hashedList.text (Json.text_padded hashedList) (by decide +kernel) (by decide +kernel)).2 2 _ rfl).2.1

end Aliot
