import Aliot.Forest
import Aliot.JsmnSteps

set_option autoImplicit false

namespace Aliot

open Forest (folded pathListed leftOf)

-- The text of the one ends before that of the other begins.
def Before (first second : JsmnTok) : Prop := ∃ stop ∈ first.stop, stop ≤ second.start

-- The second begins later, and lies inside the text of the first or behind it.
def Nests (first second : JsmnTok) : Prop :=
  first.start < second.start ∧ ∀ stop ∈ first.stop, stop ≤ second.start ∨ ∃ inner ∈ second.stop, inner ≤ stop

-- The texts of the tokens that are written when pos is reached.
structure Spans (pos : Nat) (tokens : List JsmnTok) : Prop where
  nests : tokens.Pairwise Nests
  begun : ∀ tok ∈ tokens, tok.start < pos
  ended : ∀ tok ∈ tokens, ∀ stop ∈ tok.stop, stop ≤ pos
  container : ∀ tok ∈ tokens, isOpen tok = true → isContainer tok = true

theorem spans_later (pos next : Nat) (tokens : List JsmnTok) (forward : pos ≤ next) (spans : Spans pos tokens) :
    Spans next tokens :=
  ⟨spans.nests, fun tok member => Nat.lt_of_lt_of_le (spans.begun tok member) forward,
    fun tok member stop ended => Nat.le_trans (spans.ended tok member stop ended) forward, spans.container⟩

theorem spans_resized (pos size : Nat) (front back : List JsmnTok) (tok : JsmnTok) (spans : Spans pos (front ++ tok :: back)) :
    Spans pos (front ++ { tok with size := size } :: back) := by
  have nests := spans.nests
  have begun := spans.begun
  have ended := spans.ended
  have container := spans.container
  simp only [List.pairwise_append, List.pairwise_cons, List.forall_mem_append, List.forall_mem_cons] at nests begun ended container
  obtain ⟨inFront, ⟨behind, inBack⟩, across⟩ := nests
  constructor
  · simp only [List.pairwise_append, List.pairwise_cons, List.forall_mem_cons]
    exact ⟨inFront, ⟨behind, inBack⟩, fun earlier found => ⟨(across earlier found).1, (across earlier found).2⟩⟩
  · simpa only [List.forall_mem_append, List.forall_mem_cons] using begun
  · simpa only [List.forall_mem_append, List.forall_mem_cons] using ended
  · simp only [List.forall_mem_append, List.forall_mem_cons]
    exact container

theorem spans_added (pos next : Nat) (tokens : List JsmnTok) (tok : JsmnTok) (fresh : Fresh pos next tok)
    (spans : Spans pos tokens) : Spans next (tokens ++ [tok]) := by
  have forward : pos ≤ next := Nat.le_trans fresh.begun.1 (Nat.le_of_lt fresh.begun.2)
  have later := spans_later pos next tokens forward spans
  constructor
  · rw [List.pairwise_append]
    refine ⟨spans.nests, List.pairwise_singleton _ _, fun earlier found other member => ?_⟩
    rw [List.mem_singleton.mp member]
    refine ⟨Nat.lt_of_lt_of_le (spans.begun earlier found) fresh.begun.1, fun stop ended => .inl ?_⟩
    exact Nat.le_trans (spans.ended earlier found stop ended) fresh.begun.1
  · exact List.forall_mem_append.mpr ⟨later.begun, by simpa using fresh.begun.2⟩
  · exact List.forall_mem_append.mpr ⟨later.ended, by simpa using fresh.ended⟩
  · exact List.forall_mem_append.mpr ⟨later.container, by simpa using fresh.container⟩

-- A closed text takes in all that was written since it was opened.
theorem spans_closed (pos : Nat) (front back : List JsmnTok) (tok : JsmnTok) (opened : isOpen tok = true)
    (closed : ∀ later ∈ back, isOpen later = false) (spans : Spans pos (front ++ tok :: back)) :
    Spans (pos + 1) (front ++ { tok with stop := some (pos + 1) } :: back) := by
  have nests := spans.nests
  have later := spans_later pos (pos + 1) _ (Nat.le_succ _) spans
  have begun := later.begun
  have ended := later.ended
  have container := spans.container
  have inside := spans.ended
  simp only [List.pairwise_append, List.pairwise_cons, List.forall_mem_append, List.forall_mem_cons] at nests begun ended container inside
  obtain ⟨inFront, ⟨behind, inBack⟩, across⟩ := nests
  constructor
  · simp only [List.pairwise_append, List.pairwise_cons, List.forall_mem_cons]
    refine ⟨inFront, ⟨fun later member => ?_, inBack⟩, fun earlier found => ⟨?_, (across earlier found).2⟩⟩
    · refine ⟨(behind later member).1, fun stop same => .inr ?_⟩
      cases ending : later.stop with
      | none =>
          have shut := closed later member
          rw [isOpen, ending] at shut
          cases shut
      | some inner =>
          have within := inside.2.2 later member inner ending
          simp only [Option.mem_def, Option.some.injEq] at same
          exact ⟨inner, rfl, by omega⟩
    · obtain ⟨start, apart⟩ := (across earlier found).1
      refine ⟨start, fun stop ending => ?_⟩
      rcases apart stop ending with before | ⟨inner, ending', _⟩
      · exact .inl before
      · rw [isOpen, Option.isNone_iff_eq_none.mp opened] at *
        cases ending'
  · simpa only [List.forall_mem_append, List.forall_mem_cons] using begun
  · simp only [List.forall_mem_append, List.forall_mem_cons]
    exact ⟨ended.1, by simp, ended.2.2⟩
  · simp only [List.forall_mem_append, List.forall_mem_cons]
    exact ⟨container.1, fun _ => container.2.1 opened, container.2.2⟩

-- The path to the last token, cut behind the one that toksuper names; only the tokens above the cut can be open.
structure Growing (p : JsmnParser) (front back : Forest.Path JsmnTok) : Prop where
  tokens : p.tokens = pathListed (front ++ back)
  super : p.toksuper = lastOf (pathListed front).length
  counts : (folded (front ++ back)).Counts JsmnTok.size
  apart : (folded (front ++ back)).Apart Before
  closed : ∀ tok ∈ leftOf front ++ pathListed back, isOpen tok = false
  spans : Spans p.pos p.tokens

theorem last_of_snoc (front : Forest.Path JsmnTok) (left : Forest JsmnTok) (last : JsmnTok) :
    lastOf (pathListed (front ++ [(left, last)])).length = some (pathListed front ++ left.listed).length := by
  simp [lastOf, pathListed, ← Nat.add_assoc]

-- Where the last open token of a path is, and what is behind it there.
theorem last_open_cut (path : Forest.Path JsmnTok) (behind : List JsmnTok) (left : ∀ tok ∈ leftOf path, isOpen tok = false)
    (closed : ∀ tok ∈ behind, isOpen tok = false) : ∃ front back, path = front ++ back ∧
      lastIndex isOpen (pathListed path ++ behind) = lastOf (pathListed front).length ∧
      ∀ tok ∈ pathListed back, isOpen tok = false := by
  rcases Forest.last_on_path isOpen path left with none | ⟨front, lefter, last, back, rfl, opened, later⟩
  · refine ⟨[], path, rfl, ?_, none⟩
    exact last_index_append isOpen [] _ (List.forall_mem_append.mpr ⟨none, closed⟩)
  · refine ⟨front ++ [(lefter, last)], back, by simp, ?_, later⟩
    have shape : pathListed (front ++ (lefter, last) :: back) ++ behind =
        (pathListed front ++ lefter.listed) ++ last :: (pathListed back ++ behind) := by simp [pathListed]
    rw [last_of_snoc, shape]
    exact last_index_at isOpen _ _ last opened (List.forall_mem_append.mpr ⟨later, closed⟩)

section Step

variable (p : JsmnParser) (front back : Forest.Path JsmnTok) (growing : Growing p front back)

include growing

theorem growing_left : ∀ tok ∈ leftOf (front ++ back), isOpen tok = false := by
  obtain ⟨left, behind⟩ := List.forall_mem_append.mp growing.closed
  rw [Forest.left_of_append, List.forall_mem_append]
  exact ⟨left, fun tok member => behind tok (Forest.left_of_listed back tok member)⟩

-- The same tokens, cut elsewhere.
theorem growing_cut (pos : Nat) (super : Option Nat) (above below : Forest.Path JsmnTok) (path : front ++ back = above ++ below)
    (forward : p.pos ≤ pos) (cut : super = lastOf (pathListed above).length)
    (closed : ∀ tok ∈ pathListed below, isOpen tok = false) : Growing ⟨pos, p.tokens, super⟩ above below where
  tokens := path ▸ growing.tokens
  super := cut
  counts := path ▸ growing.counts
  apart := path ▸ growing.apart
  closed := by
    have left := growing_left p front back growing
    rw [path, Forest.left_of_append, List.forall_mem_append] at left
    exact List.forall_mem_append.mpr ⟨left.1, closed⟩
  spans := spans_later p.pos pos p.tokens forward growing.spans

theorem fresh_apart (next : Nat) (tok : JsmnTok) (fresh : Fresh p.pos next tok) :
    ∀ earlier ∈ leftOf front ++ pathListed back, Before earlier tok := by
  intro earlier member
  have shut := growing.closed earlier member
  have written : earlier ∈ p.tokens := by
    rw [growing.tokens, Forest.path_listed_append]
    rcases List.mem_append.mp member with left | below
    · exact List.mem_append_left _ (Forest.left_of_listed front earlier left)
    · exact List.mem_append_right _ below
  cases ending : earlier.stop with
  | none =>
      rw [isOpen, ending] at shut
      cases shut
  | some stop => exact ⟨stop, ending, Nat.le_trans (growing.spans.ended earlier written stop ending) fresh.begun.1⟩

-- The new token hangs below the one that toksuper names, which counts it.
theorem growing_hung (next : Nat) (tok : JsmnTok) (fresh : Fresh p.pos next tok) : ∃ above,
    grow p.tokens p.toksuper ++ [tok] = pathListed (above ++ [(folded back, tok)]) ∧
      (pathListed above).length = (pathListed front).length ∧ leftOf above = leftOf front ∧
      (folded (above ++ [(folded back, tok)])).Counts JsmnTok.size ∧
      (folded (above ++ [(folded back, tok)])).Apart Before ∧ Spans next (grow p.tokens p.toksuper ++ [tok]) := by
  have tokens := growing.tokens
  have super := growing.super
  have counts := growing.counts
  have apart := growing.apart
  have spans := growing.spans
  have behind := fresh_apart p front back growing next tok fresh
  rcases List.eq_nil_or_concat front with rfl | ⟨higher, ⟨left, last⟩, rfl⟩
  · have grown : grow p.tokens p.toksuper = p.tokens := by
      rw [super]
      rfl
    rw [grown]
    refine ⟨[], ?_, rfl, rfl, ?_, ?_, spans_added p.pos next p.tokens tok fresh spans⟩
    · simp [tokens, pathListed]
    · exact Forest.counts_rooted JsmnTok.size back tok fresh.size counts
    · exact Forest.apart_extended Before [] back tok behind apart
  · rw [List.concat_eq_append] at *
    rw [last_of_snoc] at super
    rw [List.append_assoc, List.singleton_append] at tokens counts apart
    have shape : p.tokens = (pathListed higher ++ left.listed) ++ last :: pathListed back := by simp [tokens, pathListed]
    have grown : grow p.tokens p.toksuper =
        (pathListed higher ++ left.listed) ++ { last with size := last.size + 1 } :: pathListed back := by
      rw [shape, super, grow_at]
    rw [shape] at spans
    have resized := spans_resized p.pos (last.size + 1) _ _ last spans
    rw [grown]
    refine ⟨higher ++ [(left, { last with size := last.size + 1 })], ?_, ?_, ?_, ?_, ?_,
      spans_added p.pos next _ tok fresh resized⟩
    · simp [pathListed]
    · simp [pathListed]
    · simp [leftOf]
    · rw [List.append_assoc]
      exact Forest.counts_hung JsmnTok.size higher back left last _ tok fresh.size rfl counts
    · refine Forest.apart_extended Before _ back tok ?_ ?_
      · simpa [leftOf] using behind
      · rw [List.append_assoc]
        exact Forest.apart_changed Before higher back left last _ (fun _ before => before) apart

theorem growing_leaf (next : Nat) (tok : JsmnTok) (fresh : Fresh p.pos next tok) (shut : isOpen tok = false) :
    ∃ above below, Growing ⟨next, grow p.tokens p.toksuper ++ [tok], p.toksuper⟩ above below := by
  obtain ⟨above, tokens, length, left, counts, apart, spans⟩ := growing_hung p front back growing next tok fresh
  refine ⟨above, [(folded back, tok)], tokens, ?_, counts, apart, ?_, spans⟩
  · rw [length]
    exact growing.super
  · simpa [left, pathListed, or_imp, forall_and, shut] using growing.closed

theorem growing_opened (tok : JsmnTok) (fresh : Fresh p.pos (p.pos + 1) tok) :
    ∃ above below, Growing ⟨p.pos + 1, grow p.tokens p.toksuper ++ [tok], some p.tokens.length⟩ above below := by
  obtain ⟨above, tokens, length, left, counts, apart, spans⟩ := growing_hung p front back growing (p.pos + 1) tok fresh
  refine ⟨above ++ [(folded back, tok)], [], ?_, ?_, ?_, ?_, ?_, spans⟩
  · rw [List.append_nil]
    exact tokens
  · rw [last_of_snoc]
    simp [growing.tokens, length]
  · rwa [List.append_nil]
  · rwa [List.append_nil]
  · simpa [left, leftOf, pathListed, or_imp, forall_and] using growing.closed

theorem growing_closed (i : Nat) (last : lastIndex isOpen p.tokens = some i) :
    ∃ above below, Growing ⟨p.pos + 1, p.tokens.modify i (fun tok => { tok with stop := some (p.pos + 1) }),
      lastIndex isOpen (p.tokens.take i)⟩ above below := by
  have left := growing_left p front back growing
  have tokens := growing.tokens
  have counts := growing.counts
  have apart := growing.apart
  have spans := growing.spans
  generalize front ++ back = path at left tokens counts apart
  rcases Forest.last_on_path isOpen path left with none | ⟨higher, lefter, tok, lower, rfl, opened, later⟩
  · have found := last_index_append isOpen [] p.tokens (tokens ▸ none)
    rw [List.nil_append, last] at found
    cases found
  · have shape : p.tokens = (pathListed higher ++ lefter.listed) ++ tok :: pathListed lower := by simp [tokens, pathListed]
    have index : i = (pathListed higher ++ lefter.listed).length := by
      rw [shape, last_index_at isOpen _ _ tok opened later] at last
      exact (Option.some.inj last).symm
    simp only [Forest.left_of_append, leftOf, List.forall_mem_append] at left
    obtain ⟨above, below, rfl, cut, shut⟩ := last_open_cut higher lefter.listed left.1 left.2.1
    rw [shape] at spans
    have closing := spans_closed p.pos _ _ tok opened later spans
    have changed : p.tokens.modify i (fun tok => { tok with stop := some (p.pos + 1) }) =
        (pathListed (above ++ below) ++ lefter.listed) ++ { tok with stop := some (p.pos + 1) } :: pathListed lower := by
      rw [shape, index, modify_at]
    rw [changed, shape, index, List.take_left]
    refine ⟨above, below ++ (lefter, { tok with stop := some (p.pos + 1) }) :: lower, ?_, cut, ?_, ?_, ?_, closing⟩
    · simp [pathListed]
    · rw [← List.append_assoc]
      exact Forest.counts_changed JsmnTok.size _ lower lefter tok _ rfl counts
    · rw [← List.append_assoc]
      exact Forest.apart_changed Before _ lower lefter tok _ (fun _ before => before) apart
    · rw [Forest.left_of_append, List.forall_mem_append] at left
      simp only [Forest.path_listed_append, pathListed, List.forall_mem_append, List.forall_mem_cons]
      exact ⟨left.1.1, shut, left.2.1, rfl, later⟩

-- A comma outside every open container leaves toksuper where it is.
theorem growing_comma : ∃ above below, Growing (jsmnComma p) above below := by
  have behind := (List.forall_mem_append.mp growing.closed).2
  have kept := growing_cut p front back growing (p.pos + 1) p.toksuper front back rfl (Nat.le_succ _) growing.super behind
  have same : ∀ tok ∈ p.tokens, (isContainer tok && isOpen tok) = isOpen tok := by
    intro tok member
    cases opened : isOpen tok with
    | false => exact Bool.and_false _
    | true => rw [growing.spans.container tok member opened, Bool.and_self]
  have search : lastIndex (fun tok => isContainer tok && isOpen tok) p.tokens = lastIndex isOpen p.tokens :=
    last_index_congr _ _ p.tokens same
  unfold jsmnComma
  dsimp only
  rw [search]
  split
  · exact ⟨front, back, kept⟩
  · split
    · rename_i i last
      obtain ⟨above, below, path, cut, shut⟩ := last_open_cut (front ++ back) [] (growing_left p front back growing) (by simp)
      rw [List.append_nil, ← growing.tokens, last] at cut
      exact ⟨above, below, growing_cut p front back growing (p.pos + 1) (some i) above below path (Nat.le_succ _) cut shut⟩
    · exact ⟨front, back, kept⟩

theorem growing_stepped (q : JsmnParser) (stepped : Stepped p q) : ∃ above below, Growing q above below := by
  have behind := (List.forall_mem_append.mp growing.closed).2
  cases stepped with
  | leaf tok next fresh shut => exact growing_leaf p front back growing next tok fresh shut
  | opened tok fresh => exact growing_opened p front back growing tok fresh
  | closed i last => exact growing_closed p front back growing i last
  | blank =>
      exact ⟨front, back, growing_cut p front back growing (p.pos + 1) p.toksuper front back rfl (Nat.le_succ _)
        growing.super behind⟩
  | colon =>
      refine ⟨front ++ back, [], growing_cut p front back growing (p.pos + 1) _ (front ++ back) [] (by simp) (Nat.le_succ _)
        ?_ (by simp [pathListed])⟩
      rw [growing.tokens]
  | comma => exact growing_comma p front back growing

end Step

-- A forest of which these tokens are the nodes, in the order of their texts.
structure ForestOf (tokens : List JsmnTok) (forest : Forest JsmnTok) : Prop where
  listed : forest.listed = tokens
  counts : forest.Counts JsmnTok.size
  apart : forest.Apart Before
  nests : tokens.Pairwise Nests

theorem growing_forest (p : JsmnParser) (front back : Forest.Path JsmnTok) (growing : Growing p front back) :
    ForestOf p.tokens (folded (front ++ back)) where
  listed := (Forest.folded_listed (front ++ back)).trans growing.tokens.symm
  counts := growing.counts
  apart := growing.apart
  nests := growing.spans.nests

theorem end_closed (p : JsmnParser) (accepted : 0 ≤ (jsmnEnd p).rc) : ∀ tok ∈ p.tokens, isOpen tok = false := by
  unfold jsmnEnd at accepted
  split at accepted
  · cases accepted
  · rename_i none
    rw [Option.not_isSome_iff_eq_none] at none
    exact last_index_none isOpen p.tokens none

theorem step_error (js : Bytes) (n : Nat) (p : JsmnParser) (c : UInt8) (rc : Int) (failed : jsmnStep js n p c = .error rc) :
    rc < 0 := by
  rcases step_limited js p c with ⟨result, unlimited, same⟩ | ⟨next, tok, super, adds⟩
  · rcases unlimited.error rc ((same n).symm.trans failed) with rfl | rfl <;> decide
  · dsimp only at adds
    rw [adds n] at failed
    split at failed
    · rw [← Except.error.inj failed]
      decide
    · cases failed

theorem jsmn_loop_forest (js : Bytes) (n fuel : Nat) (p : JsmnParser) (front back : Forest.Path JsmnTok)
    (growing : Growing p front back) : (∃ forest, ForestOf (jsmnLoop js n fuel p).tokens forest) ∧
      (0 ≤ (jsmnLoop js n fuel p).rc → ∀ tok ∈ (jsmnLoop js n fuel p).tokens, isOpen tok = false) := by
  induction fuel generalizing p front back with
  | zero =>
      rw [jsmnLoop, end_tokens]
      exact ⟨⟨_, growing_forest p front back growing⟩, end_closed p⟩
  | succ fuel ih =>
      simp only [jsmnLoop]
      split
      · rw [end_tokens]
        exact ⟨⟨_, growing_forest p front back growing⟩, end_closed p⟩
      · rename_i c here
        split
        · rename_i rc failed
          refine ⟨⟨_, growing_forest p front back growing⟩, fun accepted => ?_⟩
          exact absurd (step_error js n p c rc failed) (Int.not_lt.mpr accepted)
        · rename_i q step
          obtain ⟨above, below, grown⟩ := growing_stepped p front back growing q (step_cases js n p q c here step)
          exact ih q above below grown

-- Whatever the text, the tokens are the nodes of a forest that their sizes describe, and none is open when it is accepted.
theorem jsmn_parse_forest (js : Bytes) (n : Nat) : (∃ forest, ForestOf (jsmnParse js n).tokens forest) ∧
    (0 ≤ (jsmnParse js n).rc → ∀ tok ∈ (jsmnParse js n).tokens, isOpen tok = false) :=
  jsmn_loop_forest js n js.length ⟨0, [], none⟩ [] []
    ⟨rfl, rfl, trivial, trivial, by simp [leftOf, pathListed], ⟨.nil, by simp, by simp, by simp⟩⟩

end Aliot
