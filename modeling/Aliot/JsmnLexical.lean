import Aliot.TokenTree

set_option autoImplicit false

namespace Aliot

def isBare (c : UInt8) : Bool := !endsPrimitive c && 32 ≤ c && c < 127

-- What a scan stops at: the end of the text or one of the delimiters.
def Delimited (rest : Bytes) : Prop := ∀ c, rest.head? = some c → endsPrimitive c = true

-- The text between two quotes as jsmn takes it, control characters included.
def Quotable : Nat → Bytes → Prop
  | 0, [] => True
  | _ + 1, [] => False
  | hex + 1, c :: rest => isHexDigit c = true ∧ Quotable hex rest
  | 0, c :: rest =>
      if c = 0x5c then
        match rest with
        | [] => False
        | e :: rest => if isEscaped e then Quotable 0 rest else e = 0x75 ∧ Quotable 4 rest
      else c ≠ 0x22 ∧ Quotable 0 rest

theorem primitive_end_complete (text rest : Bytes) (pos : Nat) (bare : ∀ c ∈ text, isBare c = true)
    (delimited : Delimited rest) : primitiveEnd (text ++ rest) pos = .ok (pos + text.length) := by
  induction text generalizing pos with
  | nil =>
      cases rest with
      | nil => rfl
      | cons c rest =>
          have ends := delimited c rfl
          simp only [List.nil_append, primitiveEnd, ends, if_true, List.length_nil, Nat.add_zero]
  | cons c text ih =>
      have here := bare c (List.mem_cons_self ..)
      simp only [isBare, Bool.and_eq_true, Bool.not_eq_true', decide_eq_true_eq] at here
      obtain ⟨⟨inside, low⟩, high⟩ := here
      have printable : (c < 32 || c ≥ 127) = false := by
        simp only [Bool.or_eq_false_iff, decide_eq_false_iff_not, ge_iff_le, UInt8.not_lt, UInt8.not_le]
        exact ⟨low, high⟩
      have rest := ih (pos + 1) (fun d member => bare d (List.mem_cons_of_mem c member))
      simp only [List.cons_append, primitiveEnd, inside, printable, rest, List.length_cons]
      simp only [Bool.false_eq_true, if_false, Nat.add_assoc, Nat.add_comm 1]

theorem primitive_end_sound (input : Bytes) (pos stop : Nat) (ended : primitiveEnd input pos = .ok stop) :
    ∃ text rest, input = text ++ rest ∧ stop = pos + text.length ∧ (∀ c ∈ text, isBare c = true) ∧ Delimited rest := by
  induction input generalizing pos with
  | nil =>
      simp only [primitiveEnd, Except.ok.injEq] at ended
      exact ⟨[], [], rfl, ended.symm, by simp, by simp [Delimited]⟩
  | cons c input ih =>
      simp only [primitiveEnd] at ended
      split at ended
      · rename_i ends
        simp only [Except.ok.injEq] at ended
        refine ⟨[], c :: input, rfl, ended.symm, by simp, ?_⟩
        intro d first
        simp only [List.head?_cons, Option.some.injEq] at first
        exact first ▸ ends
      · rename_i inside
        split at ended
        · cases ended
        · rename_i printable
          obtain ⟨text, rest, rfl, rfl, bare, delimited⟩ := ih (pos + 1) ended
          refine ⟨c :: text, rest, rfl, by simp only [List.length_cons]; omega, ?_, delimited⟩
          simp only [Bool.or_eq_true, decide_eq_true_eq, not_or, UInt8.not_lt, ge_iff_le, UInt8.not_le] at printable
          have here : isBare c = true := by simp [isBare, inside, printable.1, printable.2]
          exact List.forall_mem_cons.mpr ⟨here, bare⟩

theorem string_end_escape (e : UInt8) (rest : Bytes) (pos : Nat) : stringEnd 0 (0x5c :: e :: rest) pos =
    if isEscaped e then stringEnd 0 rest (pos + 2)
    else if e = 0x75 then stringEnd 4 rest (pos + 2) else .error JSMN_ERROR_INVAL := rfl

theorem string_end_char (c : UInt8) (rest : Bytes) (pos : Nat) (plain : c ≠ 0x5c) : stringEnd 0 (c :: rest) pos =
    if c = 0x22 then .ok pos else stringEnd 0 rest (pos + 1) := by
  rw [stringEnd.eq_def]
  simp only [plain, if_false]

theorem string_end_complete (hex : Nat) (body rest : Bytes) (pos : Nat) (quotable : Quotable hex body) :
    stringEnd hex (body ++ 0x22 :: rest) pos = .ok (pos + body.length) := by
  fun_induction Quotable hex body generalizing pos with
  | case1 => exact string_end_char 0x22 rest pos (by decide)
  | case2 => exact quotable.elim
  | case3 hex c body ih =>
      simp only [List.cons_append, stringEnd, quotable.1, if_true, ih (pos + 1) quotable.2, List.length_cons]
      simp only [Nat.add_assoc, Nat.add_comm 1]
  | case4 => exact quotable.elim
  | case5 e body escaped ih =>
      rw [List.cons_append, List.cons_append, string_end_escape, if_pos escaped, ih (pos + 2) quotable]
      simp only [List.length_cons, Nat.add_assoc, Nat.add_comm 2]
  | case6 e body other ih =>
      rw [List.cons_append, List.cons_append, string_end_escape, if_neg other, if_pos quotable.1,
        ih (pos + 2) quotable.2]
      simp only [List.length_cons, Nat.add_assoc, Nat.add_comm 2]
  | case7 c body plain ih =>
      rw [List.cons_append, string_end_char c _ pos plain, if_neg quotable.1, ih (pos + 1) quotable.2]
      simp only [List.length_cons, Nat.add_assoc, Nat.add_comm 1]

theorem string_end_sound (hex : Nat) (input : Bytes) (pos stop : Nat) (ended : stringEnd hex input pos = .ok stop) :
    ∃ body rest, input = body ++ 0x22 :: rest ∧ stop = pos + body.length ∧ Quotable hex body := by
  fun_induction stringEnd hex input pos with
  | case1 => cases ended
  | case2 hex c rest pos digit ih =>
      obtain ⟨body, tail, rfl, rfl, quotable⟩ := ih ended
      exact ⟨c :: body, tail, rfl, by simp only [List.length_cons]; omega, digit, quotable⟩
  | case3 => cases ended
  | case4 rest pos =>
      cases ended
      exact ⟨[], rest, rfl, rfl, trivial⟩
  | case5 => cases ended
  | case6 pos e rest escaped _ ih =>
      obtain ⟨body, tail, rfl, rfl, quotable⟩ := ih ended
      refine ⟨0x5c :: e :: body, tail, rfl, by simp only [List.length_cons]; omega, ?_⟩
      simpa only [Quotable, if_true, escaped] using quotable
  | case7 pos rest _ other ih =>
      obtain ⟨body, tail, rfl, rfl, quotable⟩ := ih ended
      refine ⟨0x5c :: 0x75 :: body, tail, rfl, by simp only [List.length_cons]; omega, ?_⟩
      simpa [Quotable, other] using quotable
  | case8 => cases ended
  | case9 c rest pos notQuote plain ih =>
      obtain ⟨body, tail, rfl, rfl, quotable⟩ := ih ended
      refine ⟨c :: body, tail, rfl, by simp only [List.length_cons]; omega, ?_⟩
      rw [Quotable.eq_def]
      simp only [plain, if_false]
      exact ⟨notQuote, quotable⟩

section Run

variable (js : Bytes) (n : Nat)

theorem bind_ok {ε α β : Type} (first : Except ε α) (next : α → Except ε β) (result : β)
    (done : (first >>= next) = .ok result) : ∃ x, first = .ok x ∧ next x = .ok result := by
  cases first with
  | error err => cases done
  | ok x => exact ⟨x, rfl, done⟩

theorem add_ok (p : JsmnParser) (tok : JsmnTok) (tokens : List JsmnTok) (added : jsmnAdd n p tok = .ok tokens) :
    tokens = grow p.tokens p.toksuper ++ [tok] := by
  unfold jsmnAdd at added
  split at added
  · cases added
  · exact (Except.ok.inj added).symm

theorem string_ok (p q : JsmnParser) (parsed : jsmnParseString js n p = .ok q) :
    ∃ body rest, js.drop (p.pos + 1) = body ++ 0x22 :: rest ∧ Quotable 0 body ∧
      q = ⟨p.pos + 1 + body.length + 1,
        grow p.tokens p.toksuper ++ [⟨.string, p.pos + 1, some (p.pos + 1 + body.length), 0⟩], p.toksuper⟩ := by
  obtain ⟨stop, ends, parsed⟩ := bind_ok _ _ _ parsed
  obtain ⟨tokens, add, parsed⟩ := bind_ok _ _ _ parsed
  obtain ⟨body, rest, shape, rfl, quotable⟩ := string_end_sound _ _ _ _ ends
  obtain rfl := add_ok n p _ _ add
  exact ⟨body, rest, shape, quotable, (Except.ok.inj parsed).symm⟩

theorem primitive_ok (p q : JsmnParser) (parsed : jsmnParsePrimitive js n p = .ok q) :
    ∃ text rest, js.drop p.pos = text ++ rest ∧ (∀ c ∈ text, isBare c = true) ∧ Delimited rest ∧
      q = ⟨p.pos + text.length,
        grow p.tokens p.toksuper ++ [⟨.primitive, p.pos, some (p.pos + text.length), 0⟩], p.toksuper⟩ := by
  obtain ⟨stop, ends, parsed⟩ := bind_ok _ _ _ parsed
  obtain ⟨tokens, add, parsed⟩ := bind_ok _ _ _ parsed
  obtain ⟨text, rest, shape, rfl, bare, delimited⟩ := primitive_end_sound _ _ _ ends
  obtain rfl := add_ok n p _ _ add
  exact ⟨text, rest, shape, bare, delimited, (Except.ok.inj parsed).symm⟩

theorem open_ok (p q : JsmnParser) (type : JsmnType) (opened : jsmnOpen n p type = .ok q) :
    q = ⟨p.pos + 1, grow p.tokens p.toksuper ++ [⟨type, p.pos, none, 0⟩], some p.tokens.length⟩ := by
  obtain ⟨tokens, add, opened⟩ := bind_ok _ _ _ opened
  obtain rfl := add_ok n p _ _ add
  exact (Except.ok.inj opened).symm

theorem last_index_passes (test : JsmnTok → Bool) (tokens : List JsmnTok) (i : Nat)
    (found : lastIndex test tokens = some i) : ∃ tok, tokens[i]? = some tok ∧ test tok = true := by
  induction tokens generalizing i with
  | nil => cases found
  | cons tok tokens ih =>
      simp only [lastIndex] at found
      split at found
      · rename_i j later
        obtain rfl := Option.some.inj found
        exact ih j later
      · split at found
        · rename_i passing
          obtain rfl := Option.some.inj found
          exact ⟨tok, rfl, passing⟩
        · cases found

theorem close_ok (p q : JsmnParser) (type : JsmnType) (closed : jsmnClose p type = .ok q) :
    ∃ i tok, p.tokens[i]? = some tok ∧ isOpen tok = true ∧ q.pos = p.pos + 1 ∧
      q.tokens = p.tokens.modify i (fun tok => { tok with stop := some (p.pos + 1) }) := by
  unfold jsmnClose at closed
  split at closed
  · cases closed
  · rename_i i last
    obtain ⟨tok, found, opened⟩ := last_index_passes isOpen p.tokens i last
    split at closed
    · cases closed
    · obtain rfl := Except.ok.inj closed
      exact ⟨i, tok, found, opened, rfl, rfl⟩

theorem comma_keeps (p : JsmnParser) : (jsmnComma p).pos = p.pos + 1 ∧ (jsmnComma p).tokens = p.tokens := by
  unfold jsmnComma
  dsimp only
  split
  · exact ⟨rfl, rfl⟩
  · split <;> exact ⟨rfl, rfl⟩

def BareWord (text : Bytes) : Prop :=
  (∀ c ∈ text, isBare c = true) ∧ ∃ first rest, text = first :: rest ∧ first ≠ 0x7b ∧ first ≠ 0x5b ∧ first ≠ 0x22

-- Only containers are ever open; a string or primitive has the text it was scanned as.
structure Lexical (tok : JsmnTok) : Prop where
  string : tok.type = .string → isOpen tok = false ∧ Quotable 0 (tokenText js tok)
  primitive : tok.type = .primitive → isOpen tok = false ∧ BareWord (tokenText js tok)

theorem lexical_container (tok : JsmnTok) (container : isContainer tok = true) : Lexical js tok := by
  constructor
  · intro type
    simp only [isContainer, type] at container
    cases container
  · intro type
    simp only [isContainer, type] at container
    cases container

theorem open_container (tok : JsmnTok) (lexical : Lexical js tok) (opened : isOpen tok = true) :
    isContainer tok = true := by
  cases type : tok.type with
  | primitive => rw [(lexical.primitive type).1] at opened; cases opened
  | string => rw [(lexical.string type).1] at opened; cases opened
  | object => simp only [isContainer, type]; rfl
  | array => simp only [isContainer, type]; rfl

theorem lexical_modify (tokens : List JsmnTok) (i : Nat) (change : JsmnTok → JsmnTok)
    (all : ∀ tok ∈ tokens, Lexical js tok)
    (kept : ∀ tok, tokens[i]? = some tok → Lexical js tok → Lexical js (change tok)) :
    ∀ tok ∈ tokens.modify i change, Lexical js tok := by
  induction tokens generalizing i with
  | nil => simp
  | cons tok tokens ih =>
      obtain ⟨first, rest⟩ := List.forall_mem_cons.mp all
      cases i with
      | zero => exact List.forall_mem_cons.mpr ⟨kept tok rfl first, rest⟩
      | succ i => exact List.forall_mem_cons.mpr ⟨first, ih i rest kept⟩

theorem lexical_grow (tokens : List JsmnTok) (super : Option Nat) (all : ∀ tok ∈ tokens, Lexical js tok) :
    ∀ tok ∈ grow tokens super, Lexical js tok := by
  cases super with
  | none => exact all
  | some i => exact lexical_modify js tokens i _ all (fun tok _ lexical => ⟨lexical.string, lexical.primitive⟩)

theorem lexical_add (tokens : List JsmnTok) (super : Option Nat) (new : JsmnTok)
    (all : ∀ tok ∈ tokens, Lexical js tok) (lexical : Lexical js new) :
    ∀ tok ∈ grow tokens super ++ [new], Lexical js tok :=
  List.forall_mem_append.mpr ⟨lexical_grow js tokens super all, by simpa using lexical⟩

theorem jsmn_step_keeps (p q : JsmnParser) (c : UInt8) (here : js[p.pos]? = some c)
    (step : jsmnStep js n p c = .ok q) :
    p.pos < q.pos ∧ ((∀ tok ∈ p.tokens, Lexical js tok) → ∀ tok ∈ q.tokens, Lexical js tok) := by
  have opens : ∀ type, jsmnOpen n p type = .ok q → isContainer ⟨type, p.pos, none, 0⟩ = true →
      p.pos < q.pos ∧ ((∀ tok ∈ p.tokens, Lexical js tok) → ∀ tok ∈ q.tokens, Lexical js tok) := by
    intro type opened container
    obtain rfl := open_ok n p q type opened
    exact ⟨Nat.lt_succ_self _, fun all => lexical_add js _ _ _ all (lexical_container js _ container)⟩
  have closes : ∀ type, jsmnClose p type = .ok q →
      p.pos < q.pos ∧ ((∀ tok ∈ p.tokens, Lexical js tok) → ∀ tok ∈ q.tokens, Lexical js tok) := by
    intro type closed
    obtain ⟨i, tok, found, opened, posEq, tokensEq⟩ := close_ok p q type closed
    refine ⟨posEq ▸ Nat.lt_succ_self _, fun all => tokensEq ▸ lexical_modify js p.tokens i _ all ?_⟩
    intro other same lexical
    obtain rfl := Option.some.inj (found.symm.trans same)
    exact lexical_container js _ (open_container js tok lexical opened)
  unfold jsmnStep at step
  split at step
  · exact opens .object step rfl
  split at step
  · exact opens .array step rfl
  split at step
  · exact closes .object step
  split at step
  · exact closes .array step
  split at step
  · obtain ⟨body, rest, shape, quotable, rfl⟩ := string_ok js n p q step
    refine ⟨by dsimp only; omega, fun all => lexical_add js _ _ _ all ⟨fun _ => ⟨rfl, ?_⟩, (by rintro ⟨⟩)⟩⟩
    simpa [tokenText, shape] using quotable
  split at step
  · obtain rfl := Except.ok.inj step
    exact ⟨Nat.lt_succ_self _, fun all => all⟩
  split at step
  · obtain rfl := Except.ok.inj step
    exact ⟨Nat.lt_succ_self _, fun all => all⟩
  split at step
  · obtain rfl := Except.ok.inj step
    obtain ⟨posEq, tokensEq⟩ := comma_keeps p
    exact ⟨posEq ▸ Nat.lt_succ_self _, fun all => tokensEq ▸ all⟩
  · rename_i notBrace notBracket notCloseBrace notCloseBracket notQuote notSpace notColon notComma
    obtain ⟨text, rest, shape, bare, delimited, rfl⟩ := primitive_ok js n p q step
    have first : (js.drop p.pos).head? = some c := by simpa using here
    have inside : endsPrimitive c = false := by
      simp only [not_or] at notSpace
      simp [endsPrimitive, notColon, notSpace, notComma, notCloseBracket, notCloseBrace]
    cases text with
    | nil =>
        rw [shape, List.nil_append] at first
        rw [delimited c first] at inside
        cases inside
    | cons d text =>
        rw [shape, List.cons_append, List.head?_cons, Option.some.injEq] at first
        subst first
        refine ⟨by simp, fun all => lexical_add js _ _ _ all ⟨(by rintro ⟨⟩), fun _ => ⟨rfl, ?_⟩⟩⟩
        have word : BareWord (d :: text) := ⟨bare, d, text, rfl, notBrace, notBracket, notQuote⟩
        simpa [tokenText, shape] using word

theorem jsmn_loop_lexical (fuel : Nat) (p : JsmnParser) (all : ∀ tok ∈ p.tokens, Lexical js tok) :
    ∀ tok ∈ (jsmnLoop js n fuel p).tokens, Lexical js tok := by
  have ending : (jsmnEnd p).tokens = p.tokens := by
    unfold jsmnEnd
    split <;> rfl
  induction fuel generalizing p with
  | zero => rwa [jsmnLoop, ending]
  | succ fuel ih =>
      simp only [jsmnLoop]
      split
      · rwa [ending]
      · rename_i c here
        split
        · exact all
        · rename_i q step
          refine ih q ((jsmn_step_keeps js n p q c here step).2 all) ?_
          unfold jsmnEnd
          split <;> rfl

theorem jsmn_parse_lexical : ∀ tok ∈ (jsmnParse js n).tokens, Lexical js tok :=
  jsmn_loop_lexical js n js.length ⟨0, [], none⟩ (by simp)

end Run

end Aliot
