import Aliot.JsmnParse

set_option autoImplicit false

namespace Aliot

open Json (Value Members Items)

def isspace (c : UInt8) : Bool := c == 0x20 || (0x09 ≤ c && c ≤ 0x0d)

def INT_MAX : Int := 2147483647
def LONG_MAX : Int := 9223372036854775807

def strtol (text : Bytes) : Int :=
  let value : Int :=
    match text.dropWhile isspace with
    | 0x2d :: rest => -(Json.decimal (rest.takeWhile Json.isDigit) : Int)
    | 0x2b :: rest => Json.decimal (rest.takeWhile Json.isDigit)
    | rest => Json.decimal (rest.takeWhile Json.isDigit)
  max (-LONG_MAX - 1) (min value LONG_MAX)

-- (int) strtol(text, NULL, 10): a long of 64 bits loses its upper half.
def atoi (text : Bytes) : Int := (strtol text).bmod 4294967296

structure AckWalk where
  context : Bytes
  httpCode : Int
  state : Nat
deriving DecidableEq

-- The JSMN_PRIMITIVE and JSMN_STRING branches of ack_handler.
def ackPrimitive (buf : Bytes) (w : AckWalk) : AckWalk :=
  ⟨w.context, if w.state = 2 then atoi buf else w.httpCode, 0⟩

def ackString (buf : Bytes) (w : AckWalk) : AckWalk :=
  if w.state = 1 then ⟨buf, w.httpCode, 0⟩
  else if w.state = 2 then ⟨w.context, atoi buf, 0⟩
  else if buf = ascii "context" then { w with state := 1 }
  else if buf = ascii "http_code" then { w with state := 2 }
  else { w with state := 0 }

-- The loops over the children, two of them for every member of an object.
def ackLoop (child : Nat → AckWalk → Option (Nat × AckWalk)) : Nat → Nat → AckWalk → Option (Nat × AckWalk)
  | 0, j, w => some (j, w)
  | left + 1, j, w => do
      let (used, w) ← child j w
      ackLoop child left (j + used) w

def ackHandler (js : Bytes) (tokens : List JsmnTok) : Nat → Nat → Nat → AckWalk → Option (Nat × AckWalk)
  | 0, _, _, _ => none
  | fuel + 1, t, count, w =>
      if count = 0 then some (0, w)
      else
        match tokens[t]? with
        | none => none
        | some tok =>
            let child := fun j w => ackHandler js tokens fuel (t + 1 + j) (count - j) w
            match tok.type with
            | .primitive => some (1, ackPrimitive (tokenText js tok) w)
            | .string => some (1, ackString (tokenText js tok) w)
            | .object => (ackLoop child (2 * tok.size) 0 w).map (fun (j, w) => (j + 1, w))
            | .array => (ackLoop child tok.size 0 w).map (fun (j, w) => (j + 1, w))

-- The tokens of a rejected text are walked too; `stray` is what a walk that leaves the written ones makes of both.
def parseHttpAck (json : Bytes) (prior stray : Bytes × Int) : Bytes × Int :=
  let parsed := jsmnParse json 100
  match ackHandler json parsed.tokens (parsed.tokens.length + 1) 0 parsed.tokens.length ⟨prior.1, prior.2, 0⟩ with
  | some (_, w) => (w.context, w.httpCode)
  | none => stray

mutual
def ackValue : Value → AckWalk → AckWalk
  | .primitive text, w => ackPrimitive text w
  | .string body, w => ackString body w
  | .object members, w => ackMembers members w
  | .array items, w => ackItems items w

def ackMembers : Members → AckWalk → AckWalk
  | .nil, w => w
  | .cons key value rest, w => ackMembers rest (ackValue value (ackValue key w))

def ackItems : Items → AckWalk → AckWalk
  | .nil, w => w
  | .cons value rest, w => ackItems rest (ackValue value w)
end

theorem ack_members_followed (child : Nat → AckWalk → Option (Nat × AckWalk)) (tree : Nat → Option (Nat × Value))
    (total base size j : Nat) (w : AckWalk) (follows : Follows total base child tree ackValue)
    (here : base + j ≤ total) :
    ackLoop child (2 * size) j w = (readMembers tree size j).map (fun (j, members) => (j, ackMembers members w)) :=
  members_followed follows (fun size => ackLoop child (2 * size)) ackMembers id (fun _ value => value) (fun _ _ => rfl)
    (fun _ _ _ => rfl) (fun _ => rfl) (fun _ _ _ _ => rfl) size j w here

theorem ack_items_followed (child : Nat → AckWalk → Option (Nat × AckWalk)) (tree : Nat → Option (Nat × Value))
    (total base size j : Nat) (w : AckWalk) (follows : Follows total base child tree ackValue)
    (here : base + j ≤ total) :
    ackLoop child size j w = (readItems tree size j).map (fun (j, items) => (j, ackItems items w)) :=
  items_followed follows (ackLoop child) ackItems id (fun _ _ => rfl) (fun _ _ _ => rfl) (fun _ => rfl)
    (fun _ _ _ => rfl) size j w here

section Read

variable (js : Bytes) (tokens : List JsmnTok)

theorem ack_handler_walk (fuel t count : Nat) (w : AckWalk) (within : tokens.length ≤ t + count)
    (here : t ≤ tokens.length) (counted : 0 < count) :
    ackHandler js tokens fuel t count w =
      (readTree js tokens fuel t).map (fun (used, value) => (used, ackValue value w)) := by
  induction fuel generalizing t count w with
  | zero => rfl
  | succ fuel ih =>
      simp only [ackHandler, readTree, Nat.pos_iff_ne_zero.mp counted, if_false]
      cases found : tokens[t]? with
      | none => rfl
      | some tok =>
          have inside : t < tokens.length := (List.getElem?_eq_some_iff.mp found).1
          have follows := tree_follows js tokens fuel (t + 1)
            (fun j w => ackHandler js tokens fuel (t + 1 + j) (count - j) w) ackValue
            (fun j w here => ih (t + 1 + j) (count - j) w (by omega) here (by omega))
          cases type : tok.type with
          | primitive => simp only [type]; rfl
          | string => simp only [type]; rfl
          | object =>
              simp only [type]
              rw [ack_members_followed _ _ _ _ tok.size 0 _ follows inside]
              cases readMembers (fun j => readTree js tokens fuel (t + 1 + j)) tok.size 0 <;> rfl
          | array =>
              simp only [type]
              rw [ack_items_followed _ _ _ _ tok.size 0 _ follows inside]
              cases readItems (fun j => readTree js tokens fuel (t + 1 + j)) tok.size 0 <;> rfl

end Read

theorem natural_plain (text : Bytes) (valid : Json.natural text = true) : text.dropWhile isspace = text ∧
    text.head? ≠ some 0x2d ∧ text.head? ≠ some 0x2b := by
  have digits := Json.natural_digits text valid
  cases text with
  | nil => cases digits
  | cons c rest =>
      simp only [Json.digits, Bool.and_eq_true, List.all_cons] at digits
      have digit : Json.isDigit c = true := digits.2.1
      refine ⟨List.dropWhile_cons_of_neg ?_, ?_, ?_⟩
      · intro space
        simp only [isspace, Bool.or_eq_true, beq_iff_eq, Bool.and_eq_true, decide_eq_true_eq, UInt8.le_iff_toNat_le] at space
        simp only [Json.isDigit, Bool.and_eq_true, decide_eq_true_eq, UInt8.le_iff_toNat_le] at digit
        have low : 48 ≤ c.toNat := digit.1
        rcases space with rfl | ⟨_, high⟩
        · exact absurd low (by decide)
        · have high : c.toNat ≤ 13 := high
          omega
      · rintro same
        obtain rfl := Option.some.inj same
        exact absurd digit (by decide)
      · rintro same
        obtain rfl := Option.some.inj same
        exact absurd digit (by decide)

-- What atoi makes of an integer: it is cut off at the ends of a long, of which an int keeps the lower half.
def intOf (code : Int) : Int := (max (-LONG_MAX - 1) (min code LONG_MAX)).bmod 4294967296

theorem int_of_small (code : Int) (low : -INT_MAX - 1 ≤ code) (high : code ≤ INT_MAX) : intOf code = code := by
  simp only [intOf, LONG_MAX, INT_MAX, Int.bmod_def] at *
  omega

theorem atoi_int_of (text : Bytes) (code : Int) (integer : Json.integer text = some code) : atoi text = intOf code := by
  rw [atoi, intOf]
  congr 1
  unfold Json.integer at integer
  split at integer
  · rename_i rest
    split at integer
    · rename_i natural
      have signed : (0x2d :: rest : Bytes).dropWhile isspace = 0x2d :: rest := List.dropWhile_cons_of_neg (by decide)
      simp only [strtol, signed, (Json.natural_whole rest natural).1, Option.some.inj integer]
    · cases integer
  · split at integer
    · rename_i natural
      obtain ⟨unspaced, notMinus, notPlus⟩ := natural_plain text natural
      simp only [strtol, unspaced]
      split
      · exact absurd rfl notMinus
      · exact absurd rfl notPlus
      · simp only [(Json.natural_whole text natural).1, Option.some.inj integer]
    · cases integer

theorem atoi_integer (text : Bytes) (code : Int) (integer : Json.integer text = some code)
    (low : -INT_MAX - 1 ≤ code) (high : code ≤ INT_MAX) : atoi text = code :=
  (atoi_int_of text code integer).trans (int_of_small code low high)

def contextFirst (context code : Bytes) : Members :=
  .cons (.string (ascii "context")) (.string context) (.cons (.string (ascii "http_code")) (.primitive code) .nil)

def codeFirst (context code : Bytes) : Members :=
  .cons (.string (ascii "http_code")) (.primitive code) (.cons (.string (ascii "context")) (.string context) .nil)

-- An object with exactly the string member context and the integer member http_code.
structure IsAck (payload context : Bytes) (code : Int) : Prop where
  spelled : ∃ members codeText space text after, payload = space ++ text ++ after ∧ Json.Blank space ∧
    Json.Blank after ∧ (Value.object members).Spells text ∧ Json.integer codeText = some code ∧
    (members = contextFirst context codeText ∨ members = codeFirst context codeText)
  quotable : Json.stringBody 0 context = true
  short : context.length ≤ 64

theorem ack_members_read (members : Members) (context codeText : Bytes) (code : Int) (w : AckWalk) (start : w.state = 0)
    (value : atoi codeText = code)
    (shape : members = contextFirst context codeText ∨ members = codeFirst context codeText) :
    ackMembers members w = ⟨context, code, 0⟩ := by
  have apart : ¬ ascii "http_code" = ascii "context" := by decide
  rcases shape with rfl | rfl
  · simp [contextFirst, ackMembers, ackValue, ackString, ackPrimitive, start, apart, value]
  · simp [codeFirst, ackMembers, ackValue, ackString, ackPrimitive, start, apart, value]

theorem ack_document (json : Bytes) (members : Members) (prior stray : Bytes × Int)
    (read : readDocument json (jsmnParse json 100).tokens = some (.object members)) :
    parseHttpAck json prior stray =
      ((ackMembers members ⟨prior.1, prior.2, 0⟩).context, (ackMembers members ⟨prior.1, prior.2, 0⟩).httpCode) := by
  obtain ⟨⟨used, value⟩, tree, same⟩ := Option.map_eq_some_iff.mp read
  obtain rfl : value = .object members := same
  have counted := read_tree_nonempty json (jsmnParse json 100).tokens _ _ tree
  have walk := ack_handler_walk json (jsmnParse json 100).tokens ((jsmnParse json 100).tokens.length + 1) 0
    (jsmnParse json 100).tokens.length ⟨prior.1, prior.2, 0⟩ (by simp) (by simp) counted
  simp only [parseHttpAck, walk, tree, Option.map_some, ackValue]

-- The document that jsmn reads of an acknowledgement.
theorem ack_read (payload context : Bytes) (code : Int) (ack : IsAck payload context code) :
    ∃ members codeText, printed payload = payload ∧
      readDocument payload (jsmnParse payload 100).tokens = some (.object members) ∧ Json.integer codeText = some code ∧
        (members = contextFirst context codeText ∨ members = codeFirst context codeText) := by
  obtain ⟨members, codeText, space, text, after, rfl, blank, blankAfter, spells, integer, shape⟩ := ack.spelled
  have primitive := Json.integer_primitive codeText code integer
  have keys : Json.stringBody 0 (ascii "context") = true ∧ Json.stringBody 0 (ascii "http_code") = true := by
    decide +kernel
  have valid : (Value.object members).wellFormed = true := by
    rcases shape with rfl | rfl
    · simp [Value.wellFormed, contextFirst, Members.wellFormed, Value.isKey, keys, ack.quotable, primitive]
    · simp [Value.wellFormed, codeFirst, Members.wellFormed, Value.isKey, keys, ack.quotable, primitive]
  have room : (Value.object members).nodes ≤ 100 := by
    rcases shape with rfl | rfl
    · simp [contextFirst, Value.nodes, Members.nodes]
    · simp [codeFirst, Value.nodes, Members.nodes]
  have nulFree : (0 : UInt8) ∉ space ++ text ++ after := by
    simp [blank_nul_free space blank, blank_nul_free after blankAfter, spelled_nul_free _ text valid spells]
  obtain ⟨read, _⟩ := jsmn_document (space ++ text ++ after) 100 (.object members) space text after valid spells rfl
    blank blankAfter room
  exact ⟨members, codeText, printed_of_nul_free _ nulFree, read, integer, shape⟩

theorem ack_parsed (payload context : Bytes) (code : Int) (prior stray : Bytes × Int) (ack : IsAck payload context code) :
    parseHttpAck (printed payload) prior stray = (context, intOf code) := by
  obtain ⟨members, codeText, whole, read, integer, shape⟩ := ack_read payload context code ack
  rw [whole, ack_document _ members prior stray read, ack_members_read members context codeText (intOf code) _ rfl
    (atoi_int_of codeText code integer) shape]

theorem ack_code_unique (payload context other : Bytes) (code otherCode : Int) (ack : IsAck payload context code)
    (again : IsAck payload other otherCode) : code = otherCode := by
  obtain ⟨members, codeText, _, read, integer, shape⟩ := ack_read payload context code ack
  obtain ⟨otherMembers, otherText, _, readAgain, otherInteger, otherShape⟩ := ack_read payload other otherCode again
  have same : members = otherMembers := Value.object.inj (Option.some.inj (read.symm.trans readAgain))
  have apart : ascii "context" ≠ ascii "http_code" := by decide
  have text : codeText = otherText := by
    rcases shape with rfl | rfl <;> rcases otherShape with rfl | rfl <;>
      simp_all [contextFirst, codeFirst, apart.symm]
  subst text
  exact Option.some.inj (integer.symm.trans otherInteger)

end Aliot
