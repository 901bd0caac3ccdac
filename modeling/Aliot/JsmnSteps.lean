import Aliot.JsmnParse

set_option autoImplicit false

namespace Aliot

theorem last_index_congr (test other : JsmnTok → Bool) (tokens : List JsmnTok) (same : ∀ tok ∈ tokens, test tok = other tok) :
    lastIndex test tokens = lastIndex other tokens := by
  induction tokens with
  | nil => rfl
  | cons tok tokens ih =>
      obtain ⟨first, rest⟩ := List.forall_mem_cons.mp same
      simp only [lastIndex, ih rest, first]

theorem last_index_none (test : JsmnTok → Bool) (tokens : List JsmnTok) (none : lastIndex test tokens = none) :
    ∀ tok ∈ tokens, test tok = false := by
  induction tokens with
  | nil => simp
  | cons tok tokens ih =>
      simp only [lastIndex] at none
      split at none
      · cases none
      · rename_i rest
        split at none
        · cases none
        · rename_i failing
          exact List.forall_mem_cons.mpr ⟨Bool.eq_false_iff.mpr failing, ih rest⟩

-- toknext - 1, for the value of toknext.
def lastOf (toknext : Nat) : Option Nat := if toknext = 0 then none else some (toknext - 1)

-- What a token that is written while pos goes from `pos` to `next` has in its fields.
structure Fresh (pos next : Nat) (tok : JsmnTok) : Prop where
  size : tok.size = 0
  begun : pos ≤ tok.start ∧ tok.start < next
  ended : ∀ stop ∈ tok.stop, stop ≤ next
  container : isOpen tok = true → isContainer tok = true

inductive Stepped (p : JsmnParser) : JsmnParser → Prop
  | leaf (tok : JsmnTok) (next : Nat) (fresh : Fresh p.pos next tok) (closed : isOpen tok = false) :
      Stepped p ⟨next, grow p.tokens p.toksuper ++ [tok], p.toksuper⟩
  | opened (tok : JsmnTok) (fresh : Fresh p.pos (p.pos + 1) tok) :
      Stepped p ⟨p.pos + 1, grow p.tokens p.toksuper ++ [tok], some p.tokens.length⟩
  | closed (i : Nat) (last : lastIndex isOpen p.tokens = some i) :
      Stepped p ⟨p.pos + 1, p.tokens.modify i (fun tok => { tok with stop := some (p.pos + 1) }),
        lastIndex isOpen (p.tokens.take i)⟩
  | blank : Stepped p { p with pos := p.pos + 1 }
  | colon : Stepped p { p with pos := p.pos + 1, toksuper := lastOf p.tokens.length }
  | comma : Stepped p (jsmnComma p)

theorem close_stepped (p q : JsmnParser) (type : JsmnType) (closed : jsmnClose p type = .ok q) : Stepped p q := by
  unfold jsmnClose at closed
  split at closed
  · cases closed
  · rename_i i last
    split at closed
    · cases closed
    · obtain rfl := Except.ok.inj closed
      exact .closed i last

theorem open_stepped (n : Nat) (p q : JsmnParser) (type : JsmnType) (container : isContainer ⟨type, p.pos, none, 0⟩ = true)
    (opened : jsmnOpen n p type = .ok q) : Stepped p q := by
  obtain rfl := open_ok n p q type opened
  exact .opened _ ⟨rfl, ⟨Nat.le_refl _, Nat.lt_succ_self _⟩, by simp, fun _ => container⟩

theorem step_cases (js : Bytes) (n : Nat) (p q : JsmnParser) (c : UInt8) (here : js[p.pos]? = some c)
    (step : jsmnStep js n p c = .ok q) : Stepped p q := by
  have forward := (jsmn_step_keeps js n p q c here step).1
  unfold jsmnStep at step
  split at step
  · exact open_stepped n p q .object rfl step
  split at step
  · exact open_stepped n p q .array rfl step
  split at step
  · exact close_stepped p q .object step
  split at step
  · exact close_stepped p q .array step
  split at step
  · obtain ⟨body, rest, shape, quotable, rfl⟩ := string_ok js n p q step
    refine .leaf _ _ ⟨rfl, ⟨Nat.le_succ _, ?_⟩, ?_, by simp [isOpen]⟩ rfl
    · dsimp only
      omega
    · simp
  split at step
  · obtain rfl := Except.ok.inj step
    exact .blank
  split at step
  · obtain rfl := Except.ok.inj step
    exact .colon
  split at step
  · obtain rfl := Except.ok.inj step
    exact .comma
  · obtain ⟨text, rest, shape, bare, delimited, rfl⟩ := primitive_ok js n p q step
    exact .leaf _ _ ⟨rfl, ⟨Nat.le_refl _, forward⟩, by simp, by simp [isOpen]⟩ rfl

theorem stepped_length (p q : JsmnParser) (stepped : Stepped p q) :
    p.tokens.length ≤ q.tokens.length ∧ q.tokens.length ≤ p.tokens.length + 1 := by
  cases stepped with
  | leaf tok next => simp [grow_length]
  | opened tok => simp [grow_length]
  | closed i last => simp
  | blank => simp
  | colon => simp
  | comma => simp [(comma_keeps p).2]

theorem primitive_end_error (input : Bytes) (pos : Nat) (rc : Int) (failed : primitiveEnd input pos = .error rc) :
    rc = JSMN_ERROR_INVAL ∨ rc = JSMN_ERROR_PART := by
  fun_induction primitiveEnd input pos with
  | case1 => cases failed
  | case2 => cases failed
  | case3 => exact .inl (Except.error.inj failed).symm
  | case4 c rest pos ends printable ih => exact ih failed

theorem string_end_error (hex : Nat) (input : Bytes) (pos : Nat) (rc : Int) (failed : stringEnd hex input pos = .error rc) :
    rc = JSMN_ERROR_INVAL ∨ rc = JSMN_ERROR_PART := by
  fun_induction stringEnd hex input pos with
  | case1 => exact .inr (Except.error.inj failed).symm
  | case2 hex c rest pos digit ih => exact ih failed
  | case3 => exact .inl (Except.error.inj failed).symm
  | case4 => cases failed
  | case5 => exact .inr (Except.error.inj failed).symm
  | case6 => rename_i ih; exact ih failed
  | case7 => rename_i ih; exact ih failed
  | case8 => exact .inl (Except.error.inj failed).symm
  | case9 => rename_i ih; exact ih failed

-- A result that the limit has no part in: no token is written.
structure Unlimited (p : JsmnParser) (result : Except Int JsmnParser) : Prop where
  error : ∀ rc, result = .error rc → rc = JSMN_ERROR_INVAL ∨ rc = JSMN_ERROR_PART
  ok : ∀ q, result = .ok q → q.tokens.length = p.tokens.length

theorem unlimited_ok (p q : JsmnParser) (same : q.tokens.length = p.tokens.length) : Unlimited p (.ok q) where
  error := by
    intro rc failed
    cases failed
  ok := by
    intro other result
    rw [← Except.ok.inj result, same]

theorem unlimited_error (p : JsmnParser) (rc : Int) (known : rc = JSMN_ERROR_INVAL ∨ rc = JSMN_ERROR_PART) :
    Unlimited p (.error rc) where
  error := by
    intro other result
    rw [← Except.error.inj result]
    exact known
  ok := by
    intro q result
    cases result

theorem close_unlimited (p : JsmnParser) (type : JsmnType) : Unlimited p (jsmnClose p type) := by
  unfold jsmnClose
  split
  · exact unlimited_error p _ (.inl rfl)
  · split
    · exact unlimited_error p _ (.inl rfl)
    · exact unlimited_ok p _ (by simp)

theorem add_limited (n : Nat) (p : JsmnParser) (tok : JsmnTok) (next : Nat) (super : Option Nat) :
    (do let tokens ← jsmnAdd n p tok
        return (⟨next, tokens, super⟩ : JsmnParser)) =
      if n ≤ p.tokens.length then .error JSMN_ERROR_NOMEM
      else .ok ⟨next, grow p.tokens p.toksuper ++ [tok], super⟩ := by
  unfold jsmnAdd
  by_cases full : p.tokens.length ≥ n
  · rw [if_pos full, if_pos full]
    rfl
  · rw [if_neg full, if_neg full]
    rfl

-- Either the limit has no part in a step, or a token is written if it allows one more.
def Limited (p : JsmnParser) (step : Nat → Except Int JsmnParser) : Prop :=
  (∃ result, Unlimited p result ∧ ∀ n, step n = result) ∨
    ∃ next tok super, ∀ n, step n =
      if n ≤ p.tokens.length then .error JSMN_ERROR_NOMEM
      else .ok ⟨next, grow p.tokens p.toksuper ++ [tok], super⟩

theorem string_limited (js : Bytes) (p : JsmnParser) : Limited p (fun n => jsmnParseString js n p) := by
  cases ends : stringEnd 0 (js.drop (p.pos + 1)) (p.pos + 1) with
  | error rc =>
      refine .inl ⟨.error rc, unlimited_error p rc (string_end_error 0 _ _ rc ends), fun n => ?_⟩
      simp only [jsmnParseString, ends]
      rfl
  | ok stop =>
      refine .inr ⟨stop + 1, ⟨.string, p.pos + 1, some stop, 0⟩, p.toksuper, fun n => ?_⟩
      rw [← add_limited]
      simp only [jsmnParseString, ends]
      rfl

theorem primitive_limited (js : Bytes) (p : JsmnParser) : Limited p (fun n => jsmnParsePrimitive js n p) := by
  cases ends : primitiveEnd (js.drop p.pos) p.pos with
  | error rc =>
      refine .inl ⟨.error rc, unlimited_error p rc (primitive_end_error _ _ rc ends), fun n => ?_⟩
      simp only [jsmnParsePrimitive, ends]
      rfl
  | ok stop =>
      refine .inr ⟨stop, ⟨.primitive, p.pos, some stop, 0⟩, p.toksuper, fun n => ?_⟩
      rw [← add_limited]
      simp only [jsmnParsePrimitive, ends]
      rfl

theorem step_limited (js : Bytes) (p : JsmnParser) (c : UInt8) : Limited p (fun n => jsmnStep js n p c) := by
  have kept := fun result (unlimited : Unlimited p result) => (.inl ⟨result, unlimited, fun _ => rfl⟩ : Limited p (fun _ => result))
  simp only [jsmnStep]
  split
  · exact .inr ⟨_, _, _, fun n => add_limited n p _ _ _⟩
  split
  · exact .inr ⟨_, _, _, fun n => add_limited n p _ _ _⟩
  split
  · exact kept _ (close_unlimited p .object)
  split
  · exact kept _ (close_unlimited p .array)
  split
  · exact string_limited js p
  split
  · exact kept _ (unlimited_ok p _ rfl)
  split
  · exact kept _ (unlimited_ok p _ rfl)
  split
  · exact kept _ (unlimited_ok p _ (congrArg List.length (comma_keeps p).2))
  · exact primitive_limited js p

section Budget

variable (js : Bytes)

theorem end_tokens (p : JsmnParser) : (jsmnEnd p).tokens = p.tokens := by
  unfold jsmnEnd
  split <;> rfl

theorem known_error (rc : Int) (known : rc = JSMN_ERROR_INVAL ∨ rc = JSMN_ERROR_PART) : rc ≠ JSMN_ERROR_NOMEM := by
  rcases known with rfl | rfl <;> decide

theorem end_rc (p : JsmnParser) : (jsmnEnd p).rc ≠ JSMN_ERROR_NOMEM := by
  unfold jsmnEnd
  split
  · exact known_error _ (.inr rfl)
  · simp only [JSMN_ERROR_NOMEM]
    omega

theorem loop_grows (n fuel : Nat) (p : JsmnParser) : p.tokens.length ≤ (jsmnLoop js n fuel p).tokens.length := by
  induction fuel generalizing p with
  | zero => rw [jsmnLoop, end_tokens]
  | succ fuel ih =>
      simp only [jsmnLoop]
      split
      · rw [end_tokens]
      · rename_i c here
        split
        · exact Nat.le_refl _
        · rename_i q step
          exact Nat.le_trans (stepped_length p q (step_cases js n p q c here step)).1 (ih q)

-- With room for a token a byte the limit is never met.
theorem loop_roomy (n fuel : Nat) (p : JsmnParser) (room : js.length ≤ n) (behind : p.tokens.length ≤ p.pos) :
    (jsmnLoop js n fuel p).rc ≠ JSMN_ERROR_NOMEM := by
  induction fuel generalizing p with
  | zero => exact end_rc p
  | succ fuel ih =>
      simp only [jsmnLoop]
      split
      · exact end_rc p
      · rename_i c here
        have inside := (List.getElem?_eq_some_iff.mp here).1
        split
        · rename_i rc step
          rcases step_limited js p c with ⟨result, unlimited, same⟩ | ⟨next, tok, super, adds⟩
          · exact known_error rc (unlimited.error rc ((same n).symm.trans step))
          · dsimp only at adds
            rw [adds n, if_neg (by omega)] at step
            cases step
        · rename_i q step
          have forward := (jsmn_step_keeps js n p q c here step).1
          have grown := (stepped_length p q (step_cases js n p q c here step)).2
          exact ih q (by omega)

-- With a larger limit the run is the same, or it comes to a token that the smaller one has no room for.
theorem loop_budget (n m fuel : Nat) (less : n < m) (p : JsmnParser) (fits : p.tokens.length ≤ n) :
    (jsmnLoop js n fuel p = jsmnLoop js m fuel p ∧ (jsmnLoop js n fuel p).tokens.length ≤ n ∧
        (jsmnLoop js n fuel p).rc ≠ JSMN_ERROR_NOMEM) ∨
      (jsmnLoop js n fuel p).rc = JSMN_ERROR_NOMEM ∧ n < (jsmnLoop js m fuel p).tokens.length := by
  induction fuel generalizing p with
  | zero => exact .inl ⟨rfl, end_tokens p ▸ fits, end_rc p⟩
  | succ fuel ih =>
      simp only [jsmnLoop]
      cases here : js[p.pos]? with
      | none => exact .inl ⟨rfl, end_tokens p ▸ fits, end_rc p⟩
      | some c =>
          rcases step_limited js p c with ⟨result, unlimited, same⟩ | ⟨next, tok, super, adds⟩
          · dsimp only at same ⊢
            rw [same n, same m]
            cases result with
            | error rc => exact .inl ⟨rfl, fits, known_error rc (unlimited.error rc rfl)⟩
            | ok q => exact ih q (unlimited.ok q rfl ▸ fits)
          · dsimp only at adds ⊢
            have written : (grow p.tokens p.toksuper ++ [tok]).length = p.tokens.length + 1 := by simp [grow_length]
            by_cases full : n ≤ p.tokens.length
            · rw [adds n, if_pos full, adds m, if_neg (by omega)]
              refine .inr ⟨rfl, Nat.lt_of_lt_of_le ?_ (loop_grows js m fuel _)⟩
              dsimp only
              omega
            · rw [adds n, if_neg full, adds m, if_neg (by omega)]
              exact ih _ (by dsimp only; omega)

-- More room than a token a byte changes nothing.
theorem parse_roomy (m : Nat) (more : js.length < m) :
    jsmnParse js js.length = jsmnParse js m ∧ (jsmnParse js js.length).tokens.length ≤ js.length := by
  have roomy := loop_roomy js js.length js.length ⟨0, [], none⟩ (Nat.le_refl _) (Nat.le_refl _)
  rcases loop_budget js js.length m js.length more ⟨0, [], none⟩ (Nat.zero_le _) with ⟨same, fits, _⟩ | ⟨met, _⟩
  · exact ⟨same, fits⟩
  · exact absurd met roomy

theorem parse_within (n : Nat) (accepted : 0 ≤ (jsmnParse js n).rc) : (jsmnParse js n).tokens.length ≤ n := by
  rcases loop_budget js n (n + 1) js.length (Nat.lt_succ_self n) ⟨0, [], none⟩ (Nat.zero_le _) with ⟨_, within, _⟩ | ⟨met, _⟩
  · exact within
  · have rejected : (jsmnParse js n).rc = JSMN_ERROR_NOMEM := met
    rw [rejected] at accepted
    exact absurd accepted (by decide)

-- The limit is met exactly where the text comes to more tokens, and has no part in the result otherwise.
theorem jsmn_parse_budget (n : Nat) :
    ((jsmnParse js n).rc = JSMN_ERROR_NOMEM ↔ n < (jsmnParse js js.length).tokens.length) ∧
      ((jsmnParse js js.length).tokens.length ≤ n → jsmnParse js n = jsmnParse js js.length) := by
  have roomy : (jsmnParse js js.length).rc ≠ JSMN_ERROR_NOMEM :=
    loop_roomy js js.length js.length ⟨0, [], none⟩ (Nat.le_refl _) (Nat.le_refl _)
  have fits := (parse_roomy js (js.length + 1) (Nat.lt_succ_self _)).2
  by_cases less : n < js.length
  · rcases loop_budget js n js.length js.length less ⟨0, [], none⟩ (Nat.zero_le _) with ⟨same, within, met⟩ | ⟨met, beyond⟩
    · have unlimited : jsmnParse js n = jsmnParse js js.length := same
      rw [← unlimited]
      exact ⟨⟨fun rc => absurd rc met, fun more => absurd within (Nat.not_le.mpr more)⟩, fun _ => rfl⟩
    · exact ⟨⟨fun _ => beyond, fun _ => met⟩, fun within => absurd within (Nat.not_le.mpr beyond)⟩
  · have unlimited : jsmnParse js n = jsmnParse js js.length := by
      rcases Nat.lt_or_eq_of_le (Nat.le_of_not_lt less) with more | rfl
      · exact (parse_roomy js n more).1.symm
      · rfl
    rw [unlimited]
    exact ⟨⟨fun rc => absurd rc roomy, fun more => by omega⟩, fun _ => rfl⟩

end Budget

end Aliot
