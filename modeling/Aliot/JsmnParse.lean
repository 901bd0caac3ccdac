import Mathlib.Logic.Relation
import Aliot.JsmnLexical
import Aliot.JsonNumber

set_option autoImplicit false

namespace Aliot

open Json (Value Members Items)

theorem string_body_quotable (hex : Nat) (body : Bytes) (valid : Json.stringBody hex body = true) :
    Quotable hex body := by
  fun_induction Quotable hex body with
  | case1 => trivial
  | case2 => cases valid
  | case3 hex c rest ih =>
      simp only [Json.stringBody, Bool.and_eq_true] at valid
      exact ⟨valid.1, ih valid.2⟩
  | case4 => cases valid
  | case5 e rest escaped ih =>
      have escape : Json.isEscape e = true := escaped
      simp only [Json.stringBody, if_true, escape] at valid
      exact ih valid
  | case6 e rest other ih =>
      have escape : ¬ Json.isEscape e = true := other
      simp only [Json.stringBody, if_true, escape, Bool.false_eq_true, if_false, Bool.and_eq_true, beq_iff_eq] at valid
      exact ⟨valid.1, ih valid.2⟩
  | case7 c rest plain ih =>
      rw [Json.stringBody.eq_def] at valid
      have plain' : c ≠ Json.backslash := plain
      simp only [plain', if_false, Bool.and_eq_true, bne_iff_ne] at valid
      exact ⟨valid.1.1, ih valid.2⟩

def isPrimitiveByte (c : UInt8) : Bool :=
  Json.isDigit c || c == 0x2b || c == 0x2d || c == 0x2e || (97 ≤ c && c ≤ 122) || c == 0x45

theorem primitive_byte_table : ∀ n : Fin 256, isPrimitiveByte (UInt8.ofNat n.val) = true →
    isBare (UInt8.ofNat n.val) = true := by decide +kernel

theorem primitive_byte_bare (c : UInt8) (valid : isPrimitiveByte c = true) : isBare c = true := by
  have entry := primitive_byte_table ⟨c.toNat, c.toNat_lt⟩
  rw [UInt8.ofNat_toNat] at entry
  exact entry valid

theorem primitive_byte_ne (c d : UInt8) (valid : isPrimitiveByte c = true) (other : isPrimitiveByte d = false) :
    c ≠ d := by
  rintro rfl
  rw [valid] at other
  cases other

theorem digits_bytes (text : Bytes) (valid : Json.digits text = true) : ∀ c ∈ text, isPrimitiveByte c = true := by
  intro c member
  simp only [Json.digits, Bool.and_eq_true, List.all_eq_true] at valid
  simp only [isPrimitiveByte, valid.2 c member, Bool.true_or]

theorem exponent_bytes (text : Bytes) (valid : Json.exponent text = true) : ∀ c ∈ text, isPrimitiveByte c = true := by
  cases text with
  | nil => simp
  | cons mark rest =>
      simp only [Json.exponent, Bool.and_eq_true, Bool.or_eq_true, beq_iff_eq] at valid
      obtain ⟨markEq, valid⟩ := valid
      have first : isPrimitiveByte mark = true := by rcases markEq with rfl | rfl <;> decide
      refine List.forall_mem_cons.mpr ⟨first, ?_⟩
      split at valid
      · exact List.forall_mem_cons.mpr ⟨by decide, digits_bytes _ valid⟩
      · exact List.forall_mem_cons.mpr ⟨by decide, digits_bytes _ valid⟩
      · exact digits_bytes _ valid

theorem digits_prefix_bytes (text : Bytes) (valid : Json.digits (text.takeWhile Json.isDigit) = true)
    (rest : ∀ c ∈ text.dropWhile Json.isDigit, isPrimitiveByte c = true) : ∀ c ∈ text, isPrimitiveByte c = true := by
  rw [← List.takeWhile_append_dropWhile (p := Json.isDigit) (l := text)]
  exact List.forall_mem_append.mpr ⟨digits_bytes _ valid, rest⟩

theorem fraction_bytes (text : Bytes) (valid : Json.fraction text = true) : ∀ c ∈ text, isPrimitiveByte c = true := by
  unfold Json.fraction at valid
  split at valid
  · simp only [Bool.and_eq_true] at valid
    exact List.forall_mem_cons.mpr ⟨by decide, digits_prefix_bytes _ valid.1 (exponent_bytes _ valid.2)⟩
  · exact exponent_bytes _ valid

theorem magnitude_bytes (text : Bytes) (valid : Json.magnitude text = true) : ∀ c ∈ text, isPrimitiveByte c = true := by
  simp only [Json.magnitude, Bool.and_eq_true] at valid
  exact digits_prefix_bytes _ (Json.natural_digits _ valid.1) (fraction_bytes _ valid.2)

theorem primitive_text_bytes (text : Bytes) (valid : Json.primitiveText text = true) :
    ∀ c ∈ text, isPrimitiveByte c = true := by
  simp only [Json.primitiveText, Bool.or_eq_true, List.contains_iff_mem] at valid
  rcases valid with literal | number
  · have all : ∀ text ∈ Json.literals, ∀ c ∈ text, isPrimitiveByte c = true := by decide +kernel
    exact all text literal
  · unfold Json.number at number
    split at number
    · exact List.forall_mem_cons.mpr ⟨by decide, magnitude_bytes _ number⟩
    · exact magnitude_bytes _ number

theorem primitive_text_nonempty (text : Bytes) (valid : Json.primitiveText text = true) : text ≠ [] := by
  rintro rfl
  revert valid
  decide

theorem is_key_string (key : Value) (valid : key.isKey = true) :
    ∃ body, key = .string body ∧ Json.stringBody 0 body = true := by
  cases key with
  | string body => exact ⟨body, rfl, valid⟩
  | _ => cases valid

theorem string_body_nul_free (hex : Nat) (body : Bytes) (valid : Json.stringBody hex body = true) : (0 : UInt8) ∉ body := by
  fun_induction Json.stringBody hex body with
  | case1 => simp
  | case2 => cases valid
  | case3 hex byte rest ih =>
      simp only [Bool.and_eq_true] at valid
      have nonzero : (0 : UInt8) ≠ byte := by
        rintro rfl
        exact absurd valid.1 (by decide)
      exact List.not_mem_cons_of_ne_of_not_mem nonzero (ih valid.2)
  | case4 => cases valid
  | case5 letter rest escape ih =>
      have nonzero : (0 : UInt8) ≠ letter := by
        rintro rfl
        exact absurd escape (by decide)
      exact List.not_mem_cons_of_ne_of_not_mem (by decide) (List.not_mem_cons_of_ne_of_not_mem nonzero (ih valid))
  | case6 letter rest _ ih =>
      simp only [Bool.and_eq_true, beq_iff_eq] at valid
      obtain ⟨rfl, more⟩ := valid
      exact List.not_mem_cons_of_ne_of_not_mem (by decide) (List.not_mem_cons_of_ne_of_not_mem (by decide) (ih more))
  | case7 byte rest _ ih =>
      simp only [Bool.and_eq_true] at valid
      have nonzero : (0 : UInt8) ≠ byte := by
        rintro rfl
        exact absurd valid.1.2 (by decide)
      exact List.not_mem_cons_of_ne_of_not_mem nonzero (ih valid.2)

theorem blank_nul_free (space : Bytes) (blank : Json.Blank space) : (0 : UInt8) ∉ space :=
  fun zero => absurd (blank 0 zero) (by decide)

theorem quoted_nul_free (body : Bytes) (valid : Json.stringBody 0 body = true) : (0 : UInt8) ∉ Json.quoted body := by
  have inside := string_body_nul_free 0 body valid
  simp [Json.quoted, Json.quote, inside]

mutual
theorem spelled_nul_free : ∀ (value : Value) (text : Bytes), value.wellFormed = true → value.Spells text →
    (0 : UInt8) ∉ text
  | .primitive _, _, valid, spells => by
      subst spells
      exact fun zero => primitive_byte_ne 0 0 (primitive_text_bytes _ valid 0 zero) (by decide) rfl
  | .string body, _, valid, spells => by
      subst spells
      exact quoted_nul_free body valid
  | .object members, _, valid, spells => by
      obtain ⟨inner, rfl, ⟨_, blank⟩ | lists⟩ := spells
      · simp [Json.openBrace, Json.closeBrace, blank_nul_free inner blank]
      · have listed := listed_members_nul_free members _ valid lists
        simp only [List.mem_cons, not_or] at listed
        simp [Json.openBrace, Json.closeBrace, listed.2]
  | .array items, _, valid, spells => by
      obtain ⟨inner, rfl, ⟨_, blank⟩ | lists⟩ := spells
      · simp [Json.openBracket, Json.closeBracket, blank_nul_free inner blank]
      · have listed := listed_items_nul_free items _ valid lists
        simp only [List.mem_cons, not_or] at listed
        simp [Json.openBracket, Json.closeBracket, listed.2]

theorem listed_members_nul_free : ∀ (members : Members) (text : Bytes), members.wellFormed = true →
    members.Lists text → (0 : UInt8) ∉ text
  | .nil, _, _, lists => by
      subst lists
      simp
  | .cons key value rest, _, valid, lists => by
      obtain ⟨before, keyText, afterKey, beforeValue, valueText, after, more, rfl, blank, blankKey, blankValue, blankAfter,
        spelledKey, spelledValue, restLists⟩ := lists
      simp only [Members.wellFormed, Bool.and_eq_true] at valid
      obtain ⟨body, rfl, keyValid⟩ := is_key_string key valid.1.1
      subst spelledKey
      simp [Json.comma, Json.colon, blank_nul_free, *, quoted_nul_free body keyValid, spelled_nul_free value valueText valid.1.2 spelledValue,
        listed_members_nul_free rest more valid.2 restLists]

theorem listed_items_nul_free : ∀ (items : Items) (text : Bytes), items.wellFormed = true →
    items.Lists text → (0 : UInt8) ∉ text
  | .nil, _, _, lists => by
      subst lists
      simp
  | .cons value rest, _, valid, lists => by
      obtain ⟨before, valueText, after, more, rfl, blank, blankAfter, spelledValue, restLists⟩ := lists
      simp only [Items.wellFormed, Bool.and_eq_true] at valid
      simp [Json.comma, blank_nul_free, *, spelled_nul_free value valueText valid.1 spelledValue,
        listed_items_nul_free rest more valid.2 restLists]
end

theorem last_index_append (test : JsmnTok → Bool) (xs ys : List JsmnTok) (failing : ∀ tok ∈ ys, test tok = false) :
    lastIndex test (xs ++ ys) = lastIndex test xs := by
  induction xs with
  | nil =>
      induction ys with
      | nil => rfl
      | cons y ys ih =>
          obtain ⟨first, rest⟩ := List.forall_mem_cons.mp failing
          have none := ih rest
          simp only [List.nil_append, lastIndex] at none ⊢
          simp only [none, first, Bool.false_eq_true, if_false]
  | cons x xs ih => simp only [List.cons_append, lastIndex, ih]

theorem last_index_at (test : JsmnTok → Bool) (xs ys : List JsmnTok) (tok : JsmnTok) (passing : test tok = true)
    (failing : ∀ tok ∈ ys, test tok = false) : lastIndex test (xs ++ tok :: ys) = some xs.length := by
  induction xs with
  | nil =>
      have none := last_index_append test [] ys failing
      simp only [List.nil_append, lastIndex] at none
      simp only [List.nil_append, lastIndex, none, passing, if_true, List.length_nil]
  | cons x xs ih => simp only [List.cons_append, lastIndex, ih, List.length_cons]

theorem last_index_modify (test : JsmnTok → Bool) (change : JsmnTok → JsmnTok) (tokens : List JsmnTok) (i : Nat)
    (blind : ∀ tok, test (change tok) = test tok) : lastIndex test (tokens.modify i change) = lastIndex test tokens := by
  induction tokens generalizing i with
  | nil => simp only [List.modify_nil]
  | cons tok tokens ih =>
      cases i with
      | zero => simp only [List.modify_zero_cons, lastIndex, blind]
      | succ i => simp only [List.modify_succ_cons, lastIndex, ih]

theorem last_open_grow (tokens : List JsmnTok) (super : Option Nat) :
    lastIndex isOpen (grow tokens super) = lastIndex isOpen tokens := by
  cases super with
  | none => rfl
  | some i => exact last_index_modify isOpen _ tokens i (fun _ => rfl)

theorem grow_length (tokens : List JsmnTok) (super : Option Nat) : (grow tokens super).length = tokens.length := by
  cases super with
  | none => rfl
  | some i => simp only [grow, List.length_modify]

theorem modify_at {α : Type} (before after : List α) (x : α) (change : α → α) :
    (before ++ x :: after).modify before.length change = before ++ change x :: after := by
  induction before with
  | nil => rfl
  | cons y before ih => simp only [List.cons_append, List.length_cons, List.modify_succ_cons, ih]

theorem grow_at (before after : List JsmnTok) (tok : JsmnTok) :
    grow (before ++ tok :: after) (some before.length) = before ++ { tok with size := tok.size + 1 } :: after :=
  modify_at before after tok _

section Moves

variable (js : Bytes) (n : Nat)

def Moves (p q : JsmnParser) : Prop := ∃ c, js[p.pos]? = some c ∧ jsmnStep js n p c = .ok q

abbrev Steps : JsmnParser → JsmnParser → Prop := Relation.ReflTransGen (Moves js n)

theorem moves_blank (pos : Nat) (tokens : List JsmnTok) (super : Option Nat) (space rest : Bytes)
    (blank : Json.Blank space) (here : js.drop pos = space ++ rest) :
    Steps js n ⟨pos, tokens, super⟩ ⟨pos + space.length, tokens, super⟩ := by
  induction space generalizing pos with
  | nil => exact Relation.ReflTransGen.refl
  | cons c space ih =>
      have isSpace : Json.isSpace c = true := blank c (List.mem_cons_self ..)
      have step : jsmnStep js n ⟨pos, tokens, super⟩ c = .ok ⟨pos + 1, tokens, super⟩ := by
        simp only [Json.isSpace, Bool.or_eq_true, beq_iff_eq] at isSpace
        rcases isSpace with ((rfl | rfl) | rfl) | rfl <;> rfl
      have rest := ih (pos + 1) (fun d member => blank d (List.mem_cons_of_mem c member))
        (drop_past js pos [c] (space ++ rest) here)
      rw [List.length_cons, Nat.add_comm space.length, ← Nat.add_assoc]
      exact Relation.ReflTransGen.head ⟨c, at_drop js pos c _ here, step⟩ rest

theorem moves_open (pos : Nat) (tokens : List JsmnTok) (super : Option Nat) (type : JsmnType) (bracket : UInt8)
    (rest : Bytes) (here : js.drop pos = bracket :: rest) (room : tokens.length < n)
    (opens : bracket = Json.openBrace ∧ type = .object ∨ bracket = Json.openBracket ∧ type = .array) :
    Moves js n ⟨pos, tokens, super⟩ ⟨pos + 1, grow tokens super ++ [⟨type, pos, none, 0⟩], some tokens.length⟩ := by
  refine ⟨bracket, at_drop js pos bracket rest here, ?_⟩
  have add : jsmnAdd n ⟨pos, tokens, super⟩ ⟨type, pos, none, 0⟩ = .ok (grow tokens super ++ [⟨type, pos, none, 0⟩]) :=
    if_neg (by simpa using room)
  rcases opens with ⟨rfl, rfl⟩ | ⟨rfl, rfl⟩
  · simp only [jsmnStep, if_true, jsmnOpen, add]
    rfl
  · have notBrace : Json.openBracket ≠ 0x7b := by decide
    simp only [jsmnStep, notBrace, if_false, if_true, jsmnOpen, add]
    rfl

theorem moves_close (pos : Nat) (before inner : List JsmnTok) (tok : JsmnTok) (super : Option Nat) (bracket : UInt8)
    (rest : Bytes) (here : js.drop pos = bracket :: rest) (opened : isOpen tok = true)
    (closed : ∀ tok ∈ inner, isOpen tok = false)
    (closes : bracket = Json.closeBrace ∧ tok.type = .object ∨ bracket = Json.closeBracket ∧ tok.type = .array) :
    Moves js n ⟨pos, before ++ tok :: inner, super⟩
      ⟨pos + 1, before ++ { tok with stop := some (pos + 1) } :: inner, lastIndex isOpen before⟩ := by
  refine ⟨bracket, at_drop js pos bracket rest here, ?_⟩
  have last := last_index_at isOpen before inner tok opened closed
  have close : jsmnClose ⟨pos, before ++ tok :: inner, super⟩ tok.type =
      .ok ⟨pos + 1, before ++ { tok with stop := some (pos + 1) } :: inner, lastIndex isOpen before⟩ := by
    simp only [jsmnClose, last, modify_at]
    simp
  rcases closes with ⟨rfl, type⟩ | ⟨rfl, type⟩
  · rw [← close, type]
    rfl
  · rw [← close, type]
    rfl

theorem moves_string (pos : Nat) (tokens : List JsmnTok) (super : Option Nat) (body rest : Bytes)
    (here : js.drop pos = Json.quoted body ++ rest) (quotable : Quotable 0 body) (room : tokens.length < n) :
    ∃ tok, Laid js (.string body) [tok] ∧ Moves js n ⟨pos, tokens, super⟩
      ⟨pos + (Json.quoted body).length, grow tokens super ++ [tok], super⟩ := by
  have inside : js.drop (pos + 1) = body ++ 0x22 :: rest := by
    have next := drop_past js pos [Json.quote] (body ++ [Json.quote] ++ rest) here
    simpa using next
  have ends := string_end_complete 0 body rest (pos + 1) quotable
  refine ⟨⟨.string, pos + 1, some (pos + 1 + body.length), 0⟩, ⟨_, rfl, rfl, rfl, ?_⟩, Json.quote,
    at_drop js pos Json.quote _ here, ?_⟩
  · simp only [tokenText, inside, Option.getD_some]
    rw [Nat.add_sub_cancel_left, List.take_left]
  · have add : ∀ tok, jsmnAdd n ⟨pos, tokens, super⟩ tok = .ok (grow tokens super ++ [tok]) :=
      fun tok => if_neg (by simpa using room)
    have parse : jsmnStep js n ⟨pos, tokens, super⟩ Json.quote = jsmnParseString js n ⟨pos, tokens, super⟩ := rfl
    rw [parse]
    simp only [jsmnParseString, inside, ends, add, Json.quoted, List.length_cons, List.length_append, List.length_nil]
    simp only [Nat.zero_add, Nat.add_assoc, Nat.add_comm 1]
    rfl

theorem primitive_byte_step (p : JsmnParser) (c : UInt8) (valid : isPrimitiveByte c = true) :
    jsmnStep js n p c = jsmnParsePrimitive js n p := by
  have other := fun d bad => primitive_byte_ne c d valid bad
  unfold jsmnStep
  rw [if_neg (other 0x7b rfl), if_neg (other 0x5b rfl), if_neg (other 0x7d rfl), if_neg (other 0x5d rfl),
    if_neg (other 0x22 rfl), if_neg, if_neg (other 0x3a rfl), if_neg (other 0x2c rfl)]
  rintro (rfl | rfl | rfl | rfl) <;> cases valid

theorem moves_primitive (pos : Nat) (tokens : List JsmnTok) (super : Option Nat) (text rest : Bytes)
    (here : js.drop pos = text ++ rest) (valid : Json.primitiveText text = true) (delimited : Delimited rest)
    (room : tokens.length < n) :
    ∃ tok, Laid js (.primitive text) [tok] ∧
      Moves js n ⟨pos, tokens, super⟩ ⟨pos + text.length, grow tokens super ++ [tok], super⟩ := by
  have bytes := primitive_text_bytes text valid
  have ends := primitive_end_complete text rest pos (fun c member => primitive_byte_bare c (bytes c member)) delimited
  rw [← here] at ends
  have add : ∀ tok, jsmnAdd n ⟨pos, tokens, super⟩ tok = .ok (grow tokens super ++ [tok]) :=
    fun tok => if_neg (by simpa using room)
  cases shape : text with
  | nil => exact absurd shape (primitive_text_nonempty text valid)
  | cons c tail =>
      rw [← shape]
      refine ⟨⟨.primitive, pos, some (pos + text.length), 0⟩, ⟨_, rfl, rfl, rfl, ?_⟩, c, ?_, ?_⟩
      · simp only [tokenText, here, Option.getD_some]
        rw [Nat.add_sub_cancel_left, List.take_left]
      · exact at_drop js pos c (tail ++ rest) (by rw [here, shape, List.cons_append])
      · rw [primitive_byte_step js n _ c (bytes c (by rw [shape]; exact List.mem_cons_self ..))]
        simp only [jsmnParsePrimitive, ends, add]
        rfl

theorem moves_colon (pos : Nat) (before : List JsmnTok) (tok : JsmnTok) (super : Option Nat) (rest : Bytes)
    (here : js.drop pos = Json.colon :: rest) :
    Moves js n ⟨pos, before ++ [tok], super⟩ ⟨pos + 1, before ++ [tok], some before.length⟩ := by
  refine ⟨Json.colon, at_drop js pos Json.colon rest here, ?_⟩
  have some : (before ++ [tok]).length ≠ 0 := by simp
  have colon : jsmnStep js n ⟨pos, before ++ [tok], super⟩ Json.colon =
      .ok ⟨pos + 1, before ++ [tok], if (before ++ [tok]).length = 0 then none else
        Option.some ((before ++ [tok]).length - 1)⟩ := rfl
  rw [colon, if_neg some, List.length_append, List.length_singleton, Nat.add_sub_cancel]

-- The tokens of an open container whose super token may be a member's key.
structure Inside (before inner : List JsmnTok) (tok : JsmnTok) (super : Option Nat) : Prop where
  container : isContainer tok = true
  opened : isOpen tok = true
  closed : ∀ tok ∈ inner, isOpen tok = false
  within : super = some before.length ∨
    ∃ i key, super = some i ∧ (before ++ tok :: inner)[i]? = some key ∧ isContainer key = false

theorem moves_comma (pos : Nat) (before inner : List JsmnTok) (tok : JsmnTok) (super : Option Nat) (rest : Bytes)
    (here : js.drop pos = Json.comma :: rest) (inside : Inside before inner tok super) :
    Moves js n ⟨pos, before ++ tok :: inner, super⟩ ⟨pos + 1, before ++ tok :: inner, some before.length⟩ := by
  refine ⟨Json.comma, at_drop js pos Json.comma rest here, ?_⟩
  have comma : jsmnStep js n ⟨pos, before ++ tok :: inner, super⟩ Json.comma =
      .ok (jsmnComma ⟨pos, before ++ tok :: inner, super⟩) := rfl
  have last : lastIndex (fun tok => isContainer tok && isOpen tok) (before ++ tok :: inner) = some before.length := by
    apply last_index_at
    · simp only [inside.container, inside.opened, Bool.and_self]
    · intro tok member
      simp only [inside.closed tok member, Bool.and_false]
  rw [comma]
  rcases inside.within with rfl | ⟨i, key, rfl, found, notContainer⟩
  · have same : (before ++ tok :: inner)[before.length]? = some tok := by simp
    simp only [jsmnComma, Option.bind_some, same, Option.any_some, inside.container, if_true]
  · simp only [jsmnComma, Option.bind_some, found, Option.any_some, notContainer, Bool.false_eq_true, if_false, last]

theorem laid_string_size (body : Bytes) (key : JsmnTok) (size : Nat) (laid : Laid js (.string body) [key]) :
    Laid js (.string body) [{ key with size := size }] := by
  obtain ⟨tok, single, type, closed, text⟩ := laid
  obtain rfl := List.singleton_inj.mp single
  exact ⟨_, rfl, type, closed, text⟩

theorem delimited_cons (c : UInt8) (rest : Bytes) (ends : endsPrimitive c = true) : Delimited (c :: rest) := by
  intro d first
  simp only [List.head?_cons, Option.some.injEq] at first
  exact first ▸ ends

theorem delimited_blank (space rest : Bytes) (blank : Json.Blank space) (delimited : Delimited rest) :
    Delimited (space ++ rest) := by
  cases space with
  | nil => exact delimited
  | cons c space =>
      have isSpace : Json.isSpace c = true := blank c (List.mem_cons_self ..)
      apply delimited_cons
      simp only [Json.isSpace, Bool.or_eq_true, beq_iff_eq] at isSpace
      rcases isSpace with ((rfl | rfl) | rfl) | rfl <;> rfl

theorem delimited_members (members : Members) (text rest : Bytes) (lists : members.Lists text)
    (delimited : Delimited rest) : Delimited (text ++ rest) := by
  cases members with
  | nil =>
      obtain rfl : text = [] := lists
      exact delimited
  | cons key value more =>
      obtain ⟨_, _, _, _, _, _, _, rfl, _⟩ := lists
      exact delimited_cons _ _ rfl

theorem delimited_items (items : Items) (text rest : Bytes) (lists : items.Lists text)
    (delimited : Delimited rest) : Delimited (text ++ rest) := by
  cases items with
  | nil =>
      obtain rfl : text = [] := lists
      exact delimited
  | cons value more =>
      obtain ⟨_, _, _, _, rfl, _⟩ := lists
      exact delimited_cons _ _ rfl

theorem moves_key (pos : Nat) (before inner : List JsmnTok) (tok : JsmnTok) (body space afterKey beforeValue rest : Bytes)
    (here : js.drop pos = space ++ (Json.quoted body ++ (afterKey ++ Json.colon :: (beforeValue ++ rest))))
    (quotable : Quotable 0 body) (blank : Json.Blank space) (blankAfter : Json.Blank afterKey)
    (blankBefore : Json.Blank beforeValue) (room : (before ++ tok :: inner).length < n) :
    ∃ key, Laid js (.string body) [key] ∧
      Steps js n ⟨pos, before ++ tok :: inner, some before.length⟩
        ⟨pos + space.length + (Json.quoted body).length + afterKey.length + 1 + beforeValue.length,
          (before ++ { tok with size := tok.size + 1 } :: inner) ++ [key],
          some (before ++ { tok with size := tok.size + 1 } :: inner).length⟩ ∧
      js.drop (pos + space.length + (Json.quoted body).length + afterKey.length + 1 + beforeValue.length) = rest := by
  have atKey := drop_past js pos space _ here
  have atAfter := drop_past js _ (Json.quoted body) _ atKey
  have atColon := drop_past js _ afterKey _ atAfter
  have atBefore := drop_past js _ [Json.colon] _ atColon
  have atValue := drop_past js _ beforeValue _ atBefore
  obtain ⟨key, laid, keyStep⟩ := moves_string js n (pos + space.length) (before ++ tok :: inner)
    (some before.length) body _ atKey quotable room
  rw [grow_at] at keyStep
  refine ⟨key, laid, ?_, atValue⟩
  have toKey := moves_blank js n pos (before ++ tok :: inner) (some before.length) space _ blank here
  have toColon := moves_blank js n _ ((before ++ { tok with size := tok.size + 1 } :: inner) ++ [key])
    (some before.length) afterKey _ blankAfter atAfter
  have colon := moves_colon js n _ (before ++ { tok with size := tok.size + 1 } :: inner) key
    (some before.length) _ atColon
  have toValue := moves_blank js n _ ((before ++ { tok with size := tok.size + 1 } :: inner) ++ [key])
    (some (before ++ { tok with size := tok.size + 1 } :: inner).length) beforeValue _ blankBefore atBefore
  exact ((toKey.tail keyStep).trans toColon).tail colon |>.trans toValue

theorem moves_container (pos : Nat) (tokens added : List JsmnTok) (super after : Option Nat) (type : JsmnType)
    (opening closing : UInt8) (inner rest : Bytes) (size : Nat)
    (here : js.drop pos = opening :: (inner ++ closing :: rest)) (room : tokens.length < n)
    (brackets : opening = Json.openBrace ∧ closing = Json.closeBrace ∧ type = .object ∨
      opening = Json.openBracket ∧ closing = Json.closeBracket ∧ type = .array)
    (closed : ∀ tok ∈ added, isOpen tok = false)
    (inside : Steps js n ⟨pos + 1, grow tokens super ++ [⟨type, pos, none, 0⟩], some (grow tokens super).length⟩
      ⟨pos + 1 + inner.length, grow tokens super ++ ⟨type, pos, none, size⟩ :: added, after⟩) :
    Steps js n ⟨pos, tokens, super⟩
      ⟨pos + 1 + inner.length + 1, grow tokens super ++ ⟨type, pos, some (pos + 1 + inner.length + 1), size⟩ :: added,
        lastIndex isOpen tokens⟩ := by
  have opens : opening = Json.openBrace ∧ type = .object ∨ opening = Json.openBracket ∧ type = .array := by
    rcases brackets with ⟨rfl, _, rfl⟩ | ⟨rfl, _, rfl⟩
    · exact Or.inl ⟨rfl, rfl⟩
    · exact Or.inr ⟨rfl, rfl⟩
  have closes : closing = Json.closeBrace ∧ type = .object ∨ closing = Json.closeBracket ∧ type = .array := by
    rcases brackets with ⟨_, rfl, rfl⟩ | ⟨_, rfl, rfl⟩
    · exact Or.inl ⟨rfl, rfl⟩
    · exact Or.inr ⟨rfl, rfl⟩
  have opened := moves_open js n pos tokens super type opening _ here room opens
  rw [← grow_length tokens super] at opened
  have atClose := drop_past js _ inner _ (drop_past js pos [opening] _ here)
  have close := moves_close js n _ (grow tokens super) added ⟨type, pos, none, size⟩ after closing rest atClose rfl
    closed closes
  rw [last_open_grow] at close
  exact (Relation.ReflTransGen.head opened inside).tail close

mutual
theorem value_parsed : ∀ (value : Value) (pos : Nat) (tokens : List JsmnTok) (super : Option Nat) (text rest : Bytes),
    value.wellFormed = true → value.Spells text → js.drop pos = text ++ rest → Delimited rest →
    tokens.length + value.nodes ≤ n →
    ∃ added after, Laid js value added ∧ (after = super ∨ after = lastIndex isOpen tokens) ∧
      Steps js n ⟨pos, tokens, super⟩ ⟨pos + text.length, grow tokens super ++ added, after⟩
  | .primitive text, pos, tokens, super, _, rest, valid, spells, here, delimited, room => by
      obtain rfl := spells
      obtain ⟨tok, laid, step⟩ := moves_primitive js n pos tokens super _ rest here valid delimited room
      exact ⟨[tok], super, laid, Or.inl rfl, Relation.ReflTransGen.single step⟩
  | .string body, pos, tokens, super, _, rest, valid, spells, here, _, room => by
      obtain rfl := spells
      obtain ⟨tok, laid, step⟩ := moves_string js n pos tokens super body rest here
        (string_body_quotable 0 body valid) room
      exact ⟨[tok], super, laid, Or.inl rfl, Relation.ReflTransGen.single step⟩
  | .object members, pos, tokens, super, _, rest, valid, spells, here, _, room => by
      obtain ⟨inner, rfl, spelled⟩ := spells
      rw [List.cons_append, List.append_assoc] at here
      simp only [Value.nodes] at room
      have atInner := drop_past js pos [Json.openBrace] _ here
      obtain ⟨added, after, laid, inside⟩ : ∃ added after, LaidMembers js members added ∧
          Steps js n ⟨pos + 1, grow tokens super ++ [⟨.object, pos, none, 0⟩], some (grow tokens super).length⟩
            ⟨pos + 1 + inner.length, grow tokens super ++ ⟨.object, pos, none, 0 + members.length⟩ :: added, after⟩ := by
        rcases spelled with ⟨rfl, blank⟩ | lists
        · exact ⟨[], some (grow tokens super).length, rfl, moves_blank js n _ _ _ inner _ blank atInner⟩
        · refine members_parsed members (pos + 1) (grow tokens super) [] ⟨.object, pos, none, 0⟩ inner _ valid lists
            atInner (delimited_cons _ _ rfl) ?_ rfl rfl (by simp)
          rw [List.length_append, List.length_singleton, grow_length]
          omega
      have laidObject : Laid js (.object members)
          (⟨.object, pos, some (pos + 1 + inner.length + 1), 0 + members.length⟩ :: added) :=
        ⟨_, added, rfl, rfl, rfl, Nat.zero_add _, laid⟩
      have whole := moves_container js n pos tokens added super after .object _ _ inner rest _ here (by omega)
        (Or.inl ⟨rfl, rfl, rfl⟩) (laid_members_closed js members added laid) inside
      refine ⟨_, _, laidObject, Or.inr rfl, ?_⟩
      simpa [Nat.add_assoc, Nat.add_comm 1] using whole
  | .array items, pos, tokens, super, _, rest, valid, spells, here, _, room => by
      obtain ⟨inner, rfl, spelled⟩ := spells
      rw [List.cons_append, List.append_assoc] at here
      simp only [Value.nodes] at room
      have atInner := drop_past js pos [Json.openBracket] _ here
      obtain ⟨added, after, laid, inside⟩ : ∃ added after, LaidItems js items added ∧
          Steps js n ⟨pos + 1, grow tokens super ++ [⟨.array, pos, none, 0⟩], some (grow tokens super).length⟩
            ⟨pos + 1 + inner.length, grow tokens super ++ ⟨.array, pos, none, 0 + items.length⟩ :: added, after⟩ := by
        rcases spelled with ⟨rfl, blank⟩ | lists
        · exact ⟨[], some (grow tokens super).length, rfl, moves_blank js n _ _ _ inner _ blank atInner⟩
        · refine items_parsed items (pos + 1) (grow tokens super) [] ⟨.array, pos, none, 0⟩ inner _ valid lists
            atInner (delimited_cons _ _ rfl) ?_ rfl rfl (by simp)
          rw [List.length_append, List.length_singleton, grow_length]
          omega
      have laidArray : Laid js (.array items)
          (⟨.array, pos, some (pos + 1 + inner.length + 1), 0 + items.length⟩ :: added) :=
        ⟨_, added, rfl, rfl, rfl, Nat.zero_add _, laid⟩
      have whole := moves_container js n pos tokens added super after .array _ _ inner rest _ here (by omega)
        (Or.inr ⟨rfl, rfl, rfl⟩) (laid_items_closed js items added laid) inside
      refine ⟨_, _, laidArray, Or.inr rfl, ?_⟩
      simpa [Nat.add_assoc, Nat.add_comm 1] using whole

theorem members_parsed : ∀ (members : Members) (pos : Nat) (before inner : List JsmnTok) (tok : JsmnTok)
    (text rest : Bytes), members.wellFormed = true → members.Lists (Json.comma :: text) → js.drop pos = text ++ rest →
    Delimited rest → (before ++ tok :: inner).length + members.nodes ≤ n → isContainer tok = true →
    isOpen tok = true → (∀ tok ∈ inner, isOpen tok = false) →
    ∃ added after, LaidMembers js members added ∧
      Steps js n ⟨pos, before ++ tok :: inner, some before.length⟩
        ⟨pos + text.length, before ++ { tok with size := tok.size + members.length } :: (inner ++ added), after⟩
  | .nil, _, _, _, _, _, _, _, lists, _, _, _, _, _, _ => by cases lists
  | .cons key value members, pos, before, inner, tok, _, rest, valid, lists, here, delimited, room, container, opened,
      closed => by
      obtain ⟨space, _, afterKey, beforeValue, valueText, space', more, shape, blank, blankAfter, blankBefore, blank',
        keySpells, spells, moreLists⟩ := lists
      simp only [Members.wellFormed, Bool.and_eq_true] at valid
      obtain ⟨⟨keyValid, valueValid⟩, restValid⟩ := valid
      obtain ⟨body, rfl, bodyValid⟩ := is_key_string key keyValid
      obtain rfl := keySpells
      simp only [List.cons.injEq, true_and] at shape
      subst shape
      simp only [List.append_assoc, List.cons_append] at here
      simp only [Members.nodes, Value.nodes] at room
      obtain ⟨keyTok, keyLaid, keySteps, atValue⟩ := moves_key js n pos before inner tok body space afterKey beforeValue
        _ here (string_body_quotable 0 body bodyValid) blank blankAfter blankBefore (by omega)
      have follow := delimited_blank space' _ blank' (delimited_members members more rest moreLists delimited)
      obtain ⟨added, after, laid, afterIs, valueSteps⟩ := value_parsed value _
        ((before ++ { tok with size := tok.size + 1 } :: inner) ++ [keyTok])
        (some (before ++ { tok with size := tok.size + 1 } :: inner).length) valueText _ valueValid spells atValue follow
        (by simp only [List.length_append, List.length_cons, List.length_nil] at room ⊢; omega)
      rw [grow_at] at valueSteps
      have keyCounted := laid_string_size js body keyTok (keyTok.size + 1) keyLaid
      generalize { keyTok with size := keyTok.size + 1 } = keyTok' at keyCounted valueSteps
      have closed' : ∀ tok ∈ inner ++ keyTok' :: added, isOpen tok = false := by
        refine List.forall_mem_append.mpr ⟨closed, List.forall_mem_cons.mpr ⟨?_, laid_closed js value added laid⟩⟩
        exact laid_closed js _ _ keyCounted keyTok' (List.mem_singleton_self _)
      have inside : Inside before (inner ++ keyTok' :: added) { tok with size := tok.size + 1 } after := by
        refine ⟨container, opened, closed', ?_⟩
        rcases afterIs with rfl | rfl
        · obtain ⟨_, single, type, _⟩ := keyCounted
          obtain rfl := List.singleton_inj.mp single
          refine Or.inr ⟨_, keyTok', rfl, ?_, by simp only [isContainer, type]; rfl⟩
          rw [← List.cons_append, ← List.append_assoc]
          exact at_drop _ _ keyTok' added (by rw [List.drop_left])
        · refine Or.inl ?_
          rw [List.append_assoc, List.cons_append]
          refine last_index_at isOpen before _ _ opened (List.forall_mem_append.mpr ⟨closed, ?_⟩)
          exact laid_closed js _ _ keyLaid
      have tokensEq : before ++ { tok with size := tok.size + 1 } :: inner ++ [keyTok'] ++ added =
          before ++ { tok with size := tok.size + 1 } :: (inner ++ keyTok' :: added) := by simp
      rw [tokensEq] at valueSteps
      have atBlank := drop_past js _ valueText _ atValue
      have atMore := drop_past js _ space' _ atBlank
      have toMore := (keySteps.trans valueSteps).trans (moves_blank js n _ _ _ space' _ blank' atBlank)
      cases members with
      | nil =>
          obtain rfl : more = [] := moreLists
          refine ⟨keyTok' :: added, after, ⟨[keyTok'], added, [], by simp, keyCounted, laid, rfl⟩, ?_⟩
          simpa [Members.length, Nat.add_assoc, Nat.add_comm 1] using toMore
      | cons nextKey next members =>
          obtain ⟨moreText, rfl⟩ : ∃ moreText, more = Json.comma :: moreText := by
            obtain ⟨_, _, _, _, _, _, _, rfl, _⟩ := moreLists
            exact ⟨_, rfl⟩
          have comma := moves_comma js n _ before (inner ++ keyTok' :: added) { tok with size := tok.size + 1 } after _
            atMore inside
          obtain ⟨restAdded, last, restLaid, restSteps⟩ := members_parsed (.cons nextKey next members) _ before
            (inner ++ keyTok' :: added) { tok with size := tok.size + 1 } moreText rest restValid moreLists
            (drop_past js _ [Json.comma] _ atMore) delimited (by
              have added := laid_length js value added laid
              simp only [List.length_append, List.length_cons] at room ⊢
              omega) container opened closed'
          refine ⟨keyTok' :: added ++ restAdded, last, ⟨[keyTok'], added, restAdded, rfl, keyCounted, laid, restLaid⟩, ?_⟩
          have whole := (toMore.tail comma).trans restSteps
          simpa [Members.length, Nat.add_assoc, Nat.add_comm 1, Nat.add_comm 2] using whole

theorem items_parsed : ∀ (items : Items) (pos : Nat) (before inner : List JsmnTok) (tok : JsmnTok)
    (text rest : Bytes), items.wellFormed = true → items.Lists (Json.comma :: text) → js.drop pos = text ++ rest →
    Delimited rest → (before ++ tok :: inner).length + items.nodes ≤ n → isContainer tok = true →
    isOpen tok = true → (∀ tok ∈ inner, isOpen tok = false) →
    ∃ added after, LaidItems js items added ∧
      Steps js n ⟨pos, before ++ tok :: inner, some before.length⟩
        ⟨pos + text.length, before ++ { tok with size := tok.size + items.length } :: (inner ++ added), after⟩
  | .nil, _, _, _, _, _, _, _, lists, _, _, _, _, _, _ => by cases lists
  | .cons value items, pos, before, inner, tok, _, rest, valid, lists, here, delimited, room, container, opened,
      closed => by
      obtain ⟨space, valueText, space', more, shape, blank, blank', spells, moreLists⟩ := lists
      simp only [Items.wellFormed, Bool.and_eq_true] at valid
      obtain ⟨valueValid, restValid⟩ := valid
      simp only [List.cons.injEq, true_and] at shape
      subst shape
      simp only [List.append_assoc] at here
      simp only [Items.nodes] at room
      have atValue := drop_past js pos space _ here
      have follow := delimited_blank space' _ blank' (delimited_items items more rest moreLists delimited)
      have toValue := moves_blank js n pos (before ++ tok :: inner) (some before.length) space _ blank here
      obtain ⟨added, after, laid, afterIs, valueSteps⟩ := value_parsed value _ (before ++ tok :: inner)
        (some before.length) valueText _ valueValid spells atValue follow (by omega)
      rw [grow_at] at valueSteps
      rw [last_index_at isOpen before inner tok opened closed, or_self] at afterIs
      subst afterIs
      have closed' : ∀ tok ∈ inner ++ added, isOpen tok = false :=
        List.forall_mem_append.mpr ⟨closed, laid_closed js value added laid⟩
      rw [List.append_assoc, List.cons_append] at valueSteps
      have atBlank := drop_past js _ valueText _ atValue
      have atMore := drop_past js _ space' _ atBlank
      have toMore := (toValue.trans valueSteps).trans (moves_blank js n _ _ _ space' _ blank' atBlank)
      cases items with
      | nil =>
          obtain rfl : more = [] := moreLists
          refine ⟨added, some before.length, ⟨added, [], by simp, laid, rfl⟩, ?_⟩
          simpa [Items.length, Nat.add_assoc] using toMore
      | cons next items =>
          obtain ⟨moreText, rfl⟩ : ∃ moreText, more = Json.comma :: moreText := by
            obtain ⟨_, _, _, _, rfl, _⟩ := moreLists
            exact ⟨_, rfl⟩
          have comma := moves_comma js n _ before (inner ++ added) { tok with size := tok.size + 1 } _ _ atMore
            ⟨container, opened, closed', Or.inl rfl⟩
          obtain ⟨restAdded, after, restLaid, restSteps⟩ := items_parsed (.cons next items) _ before (inner ++ added)
            { tok with size := tok.size + 1 } moreText rest restValid moreLists (drop_past js _ [Json.comma] _ atMore)
            delimited (by
              have added := laid_length js value added laid
              simp only [List.length_append, List.length_cons] at room ⊢
              omega) container opened closed'
          refine ⟨added ++ restAdded, after, ⟨added, restAdded, rfl, laid, restLaid⟩, ?_⟩
          have whole := (toMore.tail comma).trans restSteps
          simpa [Items.length, Nat.add_assoc, Nat.add_comm 1] using whole
end

theorem loop_end (fuel : Nat) (p : JsmnParser) (done : js.length ≤ p.pos) : jsmnLoop js n fuel p = jsmnEnd p := by
  cases fuel with
  | zero => rfl
  | succ fuel =>
      have past : js[p.pos]? = none := List.getElem?_eq_none done
      simp only [jsmnLoop, past]

theorem loop_steps (p q : JsmnParser) (steps : Steps js n p q) (done : js.length ≤ q.pos) (fuel : Nat)
    (enough : js.length ≤ p.pos + fuel) : jsmnLoop js n fuel p = jsmnEnd q := by
  induction steps using Relation.ReflTransGen.head_induction_on generalizing fuel with
  | refl => exact loop_end js n fuel q done
  | head move steps ih =>
      rename_i p middle
      obtain ⟨c, here, step⟩ := move
      have within : p.pos < js.length := (List.getElem?_eq_some_iff.mp here).1
      cases fuel with
      | zero => omega
      | succ fuel =>
          simp only [jsmnLoop, here, step]
          have forward := (jsmn_step_keeps js n p middle c here step).1
          exact ih fuel (by omega)

-- A text of a well-formed value leaves the tokens of the value and nothing else.
theorem jsmn_parse_value (value : Value) (space text after : Bytes) (valid : value.wellFormed = true)
    (spells : value.Spells text) (shape : js = space ++ text ++ after) (blank : Json.Blank space)
    (blankAfter : Json.Blank after) (room : value.nodes ≤ n) :
    ∃ tokens, Laid js value tokens ∧ jsmnParse js n = ⟨tokens.length, tokens⟩ := by
  have here : js.drop 0 = space ++ (text ++ (after ++ [])) := by simp [shape]
  have atValue := drop_past js 0 space _ here
  have atAfter := drop_past js _ text _ atValue
  have delimited := delimited_blank after [] blankAfter (by simp [Delimited])
  obtain ⟨tokens, super, laid, _, steps⟩ := value_parsed js n value _ [] none text _ valid spells atValue delimited
    (by simpa using room)
  have toValue := moves_blank js n 0 [] none space _ blank here
  have toEnd := moves_blank js n _ (grow [] none ++ tokens) super after _ blankAfter atAfter
  have done : js.length ≤ 0 + space.length + text.length + after.length := by
    simp only [shape, List.length_append]
    omega
  refine ⟨tokens, laid, ?_⟩
  have run := loop_steps js n _ _ ((toValue.trans steps).trans toEnd) done js.length (by simp)
  rw [jsmnParse, run]
  have closed := last_index_append isOpen [] tokens (laid_closed js value tokens laid)
  simp only [List.nil_append] at closed
  simp only [jsmnEnd, grow, List.nil_append, closed, lastIndex]
  rfl

theorem jsmn_document (value : Value) (space text after : Bytes) (valid : value.wellFormed = true)
    (spells : value.Spells text) (shape : js = space ++ text ++ after) (blank : Json.Blank space)
    (blankAfter : Json.Blank after) (room : value.nodes ≤ n) :
    readDocument js (jsmnParse js n).tokens = some value ∧ (jsmnParse js n).rc = value.nodes := by
  obtain ⟨tokens, laid, parsed⟩ := jsmn_parse_value js n value space text after valid spells shape blank blankAfter room
  rw [parsed]
  exact ⟨read_document_laid js tokens value laid, by rw [laid_length js value tokens laid]⟩

end Moves

end Aliot
