import Aliot.CopyBounds
import Aliot.JsonFields

set_option autoImplicit false

namespace Aliot

open Json (Value Members Items Leaf)

-- The value of the top-level string member context, if there is one.
def ContextSet (members : Members) (prior result : Bytes) : Prop :=
  (∀ body, members.Named (ascii "context") (.string body) → result = Json.unescape body) ∧
    ((∀ body, ¬ members.Named (ascii "context") (.string body)) → result = prior)

-- The integer of the top-level member http_code, if there is one.
def CodeSet (members : Members) (prior result : Int) : Prop :=
  (∀ text n, members.Named (ascii "http_code") (.primitive text) → Json.integer text = some n → result = n) ∧
    ((∀ value, ¬ members.Named (ascii "http_code") value) → result = prior)

def ReadsAck (members : Members) (payload : Bytes) : Prop :=
  ∀ prior stray, ContextSet members prior.1 (parseHttpAck payload prior stray).1 ∧
    CodeSet members prior.2 (parseHttpAck payload prior stray).2

def isAckWord (word : Bytes) : Bool := word = ascii "context" || word = ascii "http_code"

-- In the order of the text, a word takes the string or primitive behind it, unless it is itself taken.
def ackTaken : List Leaf → List (Bytes × Leaf)
  | [] => []
  | [_] => []
  | .primitive _ :: next :: rest => ackTaken (next :: rest)
  | .string word :: next :: rest => if isAckWord word then (word, next) :: ackTaken rest else ackTaken (next :: rest)

def contextTaken : Bytes × Leaf → Option Bytes
  | (word, .string body) => if word = ascii "context" then some body else none
  | (_, .primitive _) => none

def codeTaken (taken : Bytes × Leaf) : Option Bytes := if taken.1 = ascii "http_code" then some taken.2.text else none

def contextsTaken (members : Members) : List Bytes := (ackTaken members.leaves).filterMap contextTaken

def codesTaken (members : Members) : List Bytes := (ackTaken members.leaves).filterMap codeTaken

-- The last string that a context takes, and the last one that an http_code takes, are the top-level members'.
structure TakesMembers (members : Members) : Prop where
  context : ∀ body, members.Named (ascii "context") (.string body) →
    (contextsTaken members).getLast? = some (Json.unescape body)
  noContext : (∀ body, ¬ members.Named (ascii "context") (.string body)) → contextsTaken members = []
  code : ∀ text n, members.Named (ascii "http_code") (.primitive text) → Json.integer text = some n →
    ∃ taken ∈ (codesTaken members).getLast?, atoi taken = n
  noCode : (∀ value, ¬ members.Named (ascii "http_code") value) → codesTaken members = []

mutual
theorem ack_value_leaves : ∀ (value : Value) (w : AckWalk), ackValue value w = value.leaves.foldl ackLeaf w
  | .primitive _, _ => rfl
  | .string _, _ => rfl
  | .object members, w => ack_members_leaves members w
  | .array items, w => ack_items_leaves items w

theorem ack_members_leaves : ∀ (members : Members) (w : AckWalk), ackMembers members w = members.leaves.foldl ackLeaf w
  | .nil, _ => rfl
  | .cons key value rest, w => by
      simp only [ackMembers, Members.leaves, List.foldl_append, ack_value_leaves key, ack_value_leaves value,
        ack_members_leaves rest]

theorem ack_items_leaves : ∀ (items : Items) (w : AckWalk), ackItems items w = items.leaves.foldl ackLeaf w
  | .nil, _ => rfl
  | .cons value rest, w => by
      simp only [ackItems, Items.leaves, List.foldl_append, ack_value_leaves value, ack_items_leaves rest]
end

theorem ack_leaf_other (leaf : Leaf) (w : AckWalk) (start : w.state = 0) :
    (ackLeaf w leaf).context = w.context ∧ (ackLeaf w leaf).httpCode = w.httpCode := by
  cases leaf with
  | primitive text => simp [ackLeaf, ackPrimitive, start]
  | string body =>
      simp only [ackLeaf, ackString, start]
      repeat' split
      all_goals simp_all

theorem last_taken_cons {α β : Type} (choose : α → Option β) (first : α) (rest : List α) :
    ((first :: rest).filterMap choose).getLast? = ((rest.filterMap choose).getLast?).or (choose first) := by
  cases chosen : choose first with
  | none => rw [List.filterMap_cons_none chosen, Option.or_none]
  | some value =>
      rw [List.filterMap_cons_some chosen, List.getLast?_cons]
      cases (rest.filterMap choose).getLast? <;> rfl

theorem last_or_else {α : Type} (last first : Option α) (prior : α) :
    (last.or first).getD prior = last.getD (first.getD prior) := by
  cases last <;> rfl

theorem ack_word_taken (word : Bytes) (next : Leaf) (w : AckWalk) (start : w.state = 0) (isWord : isAckWord word = true) :
    ackLeaf (ackLeaf w (.string word)) next =
      ⟨(contextTaken (word, next)).getD w.context, ((codeTaken (word, next)).map atoi).getD w.httpCode, 0⟩ := by
  have apart : ascii "context" ≠ ascii "http_code" := by decide
  simp only [isAckWord, Bool.or_eq_true, decide_eq_true_eq] at isWord
  rcases isWord with rfl | rfl
  · cases next <;> simp [ackLeaf, ackString, ackPrimitive, start, contextTaken, codeTaken, apart]
  · cases next <;> simp [ackLeaf, ackString, ackPrimitive, start, contextTaken, codeTaken, apart.symm, Leaf.text]

theorem ack_taken_read (leaves : List Leaf) (w : AckWalk) (start : w.state = 0) :
    (leaves.foldl ackLeaf w).context = (((ackTaken leaves).filterMap contextTaken).getLast?).getD w.context ∧
      (leaves.foldl ackLeaf w).httpCode = ((((ackTaken leaves).filterMap codeTaken).getLast?).map atoi).getD w.httpCode := by
  fun_induction ackTaken leaves generalizing w with
  | case1 => exact ⟨rfl, rfl⟩
  | case2 leaf => exact ack_leaf_other leaf w start
  | case3 text next rest ih =>
      obtain ⟨context, code⟩ := ack_leaf_other (.primitive text) w start
      rw [List.foldl_cons, ← context, ← code]
      exact ih (ackLeaf w (.primitive text)) rfl
  | case4 word next rest isWord ih =>
      obtain ⟨context, code⟩ := ih _ (congrArg AckWalk.state (ack_word_taken word next w start isWord))
      rw [List.foldl_cons, List.foldl_cons, context, code, last_taken_cons, last_taken_cons, Option.map_or, last_or_else,
        last_or_else, ack_word_taken word next w start isWord]
      exact ⟨rfl, rfl⟩
  | case5 word next rest other ih =>
      obtain ⟨context, code⟩ := ack_leaf_other (.string word) w start
      rw [List.foldl_cons, ← context, ← code]
      apply ih
      simp only [isAckWord, Bool.or_eq_true, decide_eq_true_eq, not_or] at other
      simp [ackLeaf, ackString, start, other]

theorem ack_members_taken (members : Members) (prior : Bytes × Int) :
    (ackMembers members ⟨prior.1, prior.2, 0⟩).context = ((contextsTaken members).getLast?).getD prior.1 ∧
      (ackMembers members ⟨prior.1, prior.2, 0⟩).httpCode = (((codesTaken members).getLast?).map atoi).getD prior.2 := by
  rw [ack_members_leaves]
  exact ack_taken_read members.leaves ⟨prior.1, prior.2, 0⟩ rfl

theorem payload_read (members : Members) (payload : Bytes) (prior stray : Bytes × Int)
    (object : Json.Padded (.object members) payload) (valid : (Value.object members).wellFormed = true)
    (fits : (Value.object members).nodes ≤ 100) :
    parseHttpAck payload prior stray =
      (((contextsTaken members).getLast?).getD prior.1, (((codesTaken members).getLast?).map atoi).getD prior.2) := by
  obtain ⟨space, text, after, same, blank, blankAfter, spells⟩ := object
  obtain ⟨read, _⟩ := jsmn_document payload 100 (.object members) space text after valid spells same blank blankAfter fits
  obtain ⟨context, code⟩ := ack_members_taken members prior
  rw [ack_document payload members prior stray read, context, code]

-- What does not depend on the value before is taken from the text.
theorem last_fixed {α : Type} [Nontrivial α] (last : Option α) (value : α) : (∀ prior, last.getD prior = value) ↔ last = some value := by
  constructor
  · intro fixed
    cases last with
    | some taken => exact congrArg some (fixed value)
    | none =>
        obtain ⟨other, apart⟩ := exists_ne value
        exact absurd (fixed other) apart
  · rintro rfl prior
    rfl

theorem last_kept {α : Type} [Nontrivial α] (last : Option α) : (∀ prior, last.getD prior = prior) ↔ last = none := by
  constructor
  · intro kept
    cases last with
    | none => rfl
    | some taken =>
        obtain ⟨other, apart⟩ := exists_ne taken
        exact absurd (kept other).symm apart
  · rintro rfl prior
    rfl

theorem takes_read (members : Members) (payload : Bytes) (object : Json.Padded (.object members) payload)
    (valid : (Value.object members).wellFormed = true) (fits : (Value.object members).nodes ≤ 100)
    (takes : TakesMembers members) : ReadsAck members payload := by
  intro prior stray
  rw [payload_read members payload prior stray object valid fits]
  refine ⟨⟨fun body named => ?_, fun none => ?_⟩, fun text n named integer => ?_, fun none => ?_⟩
  · rw [takes.context body named]
    rfl
  · rw [takes.noContext none]
    rfl
  · obtain ⟨taken, last, value⟩ := takes.code text n named integer
    rw [Option.mem_def.mp last]
    exact value
  · rw [takes.noCode none]
    rfl

def isWordLeaf : Leaf → Bool
  | .string body => isAckWord body
  | .primitive _ => false

def leafOf : Value → Option Leaf
  | .primitive text => some (.primitive text)
  | .string body => some (.string body)
  | _ => none

-- The words name members with a string or primitive value, and are nowhere else.
def WordsOnTop (members : Members) : Prop :=
  ∀ member ∈ members.pairs, ∃ name, member.1 = .string name ∧
    (isAckWord name = true → (leafOf member.2).isSome) ∧
    (isAckWord name = false → ∀ leaf ∈ member.2.leaves, isWordLeaf leaf = false)

def topTaken : Value × Value → Option (Bytes × Leaf)
  | (.string name, value) => if isAckWord name then (leafOf value).map (fun leaf => (name, leaf)) else none
  | _ => none

theorem ack_taken_other (leaf : Leaf) (rest : List Leaf) (other : isWordLeaf leaf = false) :
    ackTaken (leaf :: rest) = ackTaken rest := by
  cases rest with
  | nil => cases leaf <;> rfl
  | cons next rest =>
      cases leaf with
      | primitive text => rfl
      | string body =>
          have notWord : ¬ isAckWord body = true := Bool.eq_false_iff.mp other
          rw [ackTaken, if_neg notWord]

theorem ack_taken_quiet (quiet rest : List Leaf) (others : ∀ leaf ∈ quiet, isWordLeaf leaf = false) :
    ackTaken (quiet ++ rest) = ackTaken rest := by
  induction quiet with
  | nil => rfl
  | cons leaf quiet ih =>
      obtain ⟨other, others⟩ := List.forall_mem_cons.mp others
      rw [List.cons_append, ack_taken_other leaf _ other]
      exact ih others

theorem leaf_of_leaves (value : Value) (leaf : Leaf) (isLeaf : leafOf value = some leaf) : value.leaves = [leaf] := by
  cases value with
  | primitive text => exact congrArg (fun leaf => [leaf]) (Option.some.inj isLeaf)
  | string body => exact congrArg (fun leaf => [leaf]) (Option.some.inj isLeaf)
  | _ => cases isLeaf

theorem top_taken (members : Members) (onTop : WordsOnTop members) :
    ackTaken members.leaves = members.pairs.filterMap topTaken := by
  induction members using Members.spine_induction with
  | nil => rfl
  | cons key value rest ih =>
      obtain ⟨⟨name, named, leaf, quiet⟩, onTopRest⟩ := List.forall_mem_cons.mp onTop
      obtain rfl : key = .string name := named
      have tail := ih onTopRest
      by_cases isWord : isAckWord name = true
      · obtain ⟨leaf, isLeaf⟩ := Option.isSome_iff_exists.mp (leaf isWord)
        have taken : topTaken (.string name, value) = some (name, leaf) := by
          simp only [topTaken, if_pos isWord]
          rw [show leafOf value = some leaf from isLeaf]
          rfl
        rw [Members.pairs, List.filterMap_cons_some taken, ← tail, Members.leaves, leaf_of_leaves value leaf isLeaf]
        exact if_pos isWord
      · have other : isAckWord name = false := Bool.eq_false_iff.mpr isWord
        have kept : topTaken (.string name, value) = none := if_neg isWord
        rw [Members.pairs, List.filterMap_cons_none kept, ← tail]
        exact (ack_taken_other (.string name) _ other).trans (ack_taken_quiet value.leaves _ (quiet other))

theorem last_of_all {α : Type} (all : List α) (value : α) (listed : value ∈ all) (only : ∀ other ∈ all, other = value) :
    all.getLast? = some value := by
  cases last : all.getLast? with
  | none =>
      rw [List.getLast?_eq_none_iff.mp last] at listed
      cases listed
  | some other => rw [only other (List.mem_of_getLast? last)]

-- The two names and the value of context are written without escapes, and an int holds the code.
structure Readable (members : Members) : Prop where
  distinct : ∀ name value other, members.Named name value → members.Named name other → value = other
  names : ∀ key value, (.string key, value) ∈ members.pairs → isAckWord (Json.unescape key) = true → Json.unescape key = key
  context : ∀ body, members.Named (ascii "context") (.string body) → Json.unescape body = body
  code : ∀ text n, members.Named (ascii "http_code") (.primitive text) → Json.integer text = some n →
    -INT_MAX - 1 ≤ n ∧ n ≤ INT_MAX

theorem taken_member_iff (members : Members) (onTop : WordsOnTop members) (name : Bytes) (leaf : Leaf) :
    (name, leaf) ∈ ackTaken members.leaves ↔
      isAckWord name = true ∧ ∃ value, (.string name, value) ∈ members.pairs ∧ leafOf value = some leaf := by
  rw [top_taken members onTop, List.mem_filterMap]
  constructor
  · rintro ⟨⟨key, value⟩, listed, taken⟩
    obtain ⟨other, rfl, _⟩ := onTop _ listed
    simp only [topTaken] at taken
    split at taken
    · rename_i isWord
      obtain ⟨found, isLeaf, same⟩ := Option.map_eq_some_iff.mp taken
      obtain ⟨rfl, rfl⟩ := Prod.mk.inj same
      exact ⟨isWord, value, listed, isLeaf⟩
    · cases taken
  · rintro ⟨isWord, value, listed, isLeaf⟩
    refine ⟨(.string name, value), listed, ?_⟩
    simp only [topTaken, isWord, if_true, isLeaf, Option.map_some]

theorem context_taken_iff (members : Members) (onTop : WordsOnTop members) (body : Bytes) :
    body ∈ contextsTaken members ↔ (.string (ascii "context"), .string body) ∈ members.pairs := by
  have isWord : isAckWord (ascii "context") = true := by decide
  rw [contextsTaken, List.mem_filterMap]
  constructor
  · rintro ⟨⟨word, leaf⟩, taken, chosen⟩
    obtain ⟨_, value, listed, isLeaf⟩ := (taken_member_iff members onTop word leaf).mp taken
    cases leaf with
    | primitive text => cases chosen
    | string other =>
        simp only [contextTaken] at chosen
        split at chosen
        · rename_i same
          cases value with
          | string found =>
              obtain rfl := Option.some.inj chosen
              cases isLeaf
              exact same ▸ listed
          | _ => cases isLeaf
        · cases chosen
  · intro listed
    refine ⟨(ascii "context", .string body), (taken_member_iff members onTop _ _).mpr ⟨isWord, _, listed, rfl⟩, ?_⟩
    rw [contextTaken, if_pos rfl]

theorem code_taken_iff (members : Members) (onTop : WordsOnTop members) (text : Bytes) :
    text ∈ codesTaken members ↔
      ∃ value leaf, (.string (ascii "http_code"), value) ∈ members.pairs ∧ leafOf value = some leaf ∧ leaf.text = text := by
  have isWord : isAckWord (ascii "http_code") = true := by decide
  rw [codesTaken, List.mem_filterMap]
  constructor
  · rintro ⟨⟨word, leaf⟩, taken, chosen⟩
    obtain ⟨_, value, listed, isLeaf⟩ := (taken_member_iff members onTop word leaf).mp taken
    simp only [codeTaken] at chosen
    split at chosen
    · rename_i same
      exact ⟨value, leaf, same ▸ listed, isLeaf, Option.some.inj chosen⟩
    · cases chosen
  · rintro ⟨value, leaf, listed, isLeaf, same⟩
    refine ⟨(ascii "http_code", leaf), (taken_member_iff members onTop _ _).mpr ⟨isWord, value, listed, isLeaf⟩, ?_⟩
    rw [codeTaken, if_pos rfl, same]

theorem ack_word_unescaped (word : Bytes) (isWord : isAckWord word = true) : Json.unescape word = word := by
  have plainWords : Json.plain (ascii "context") = true ∧ Json.plain (ascii "http_code") = true := by decide
  simp only [isAckWord, Bool.or_eq_true, decide_eq_true_eq] at isWord
  rcases isWord with rfl | rfl
  · exact Json.unescape_plain _ plainWords.1
  · exact Json.unescape_plain _ plainWords.2

theorem named_iff (members : Members) (readable : Readable members) (name : Bytes) (isWord : isAckWord name = true) (value : Value) :
    members.Named name value ↔ (.string name, value) ∈ members.pairs := by
  constructor
  · rintro ⟨key, listed, same⟩
    have kept := readable.names key value listed (same ▸ isWord)
    rwa [← same, kept]
  · exact fun listed => ⟨name, listed, ack_word_unescaped name isWord⟩

theorem words_on_top_take (members : Members) (onTop : WordsOnTop members) (readable : Readable members) : TakesMembers members := by
  have isContext : isAckWord (ascii "context") = true := by decide
  have isCode : isAckWord (ascii "http_code") = true := by decide
  have contexts := named_iff members readable (ascii "context") isContext
  have codes := named_iff members readable (ascii "http_code") isCode
  refine ⟨fun body named => ?_, fun none => ?_, fun text n named integer => ?_, fun none => ?_⟩
  · rw [readable.context body named]
    apply last_of_all
    · exact (context_taken_iff members onTop body).mpr ((contexts _).mp named)
    · intro other taken
      have listed := (context_taken_iff members onTop other).mp taken
      exact Value.string.inj (readable.distinct _ _ _ ((contexts _).mpr listed) named)
  · apply List.eq_nil_iff_forall_not_mem.mpr
    intro body taken
    exact none body ((contexts _).mpr ((context_taken_iff members onTop body).mp taken))
  · refine ⟨text, last_of_all _ text ?_ ?_, ?_⟩
    · exact (code_taken_iff members onTop text).mpr ⟨_, _, (codes _).mp named, rfl, rfl⟩
    · intro other taken
      obtain ⟨value, leaf, listed, isLeaf, same⟩ := (code_taken_iff members onTop other).mp taken
      obtain rfl := readable.distinct _ _ _ ((codes _).mpr listed) named
      obtain rfl := Option.some.inj isLeaf
      exact same.symm
    · obtain ⟨low, high⟩ := readable.code text n named integer
      exact atoi_integer text n integer low high
  · apply List.eq_nil_iff_forall_not_mem.mpr
    intro text taken
    obtain ⟨value, _, listed, _⟩ := (code_taken_iff members onTop text).mp taken
    exact none value ((codes _).mpr listed)

-- So the order of the members and what else the payload holds make no difference where the words only name top-level members.
theorem words_on_top_read (members : Members) (payload : Bytes) (object : Json.Padded (.object members) payload)
    (valid : (Value.object members).wellFormed = true) (fits : (Value.object members).nodes ≤ 100)
    (onTop : WordsOnTop members) (readable : Readable members) : ReadsAck members payload :=
  takes_read members payload object valid fits (words_on_top_take members onTop readable)

theorem http_ack_read_iff (members : Members) (payload : Bytes) (object : Json.Padded (.object members) payload)
    (valid : (Value.object members).wellFormed = true) (fits : (Value.object members).nodes ≤ 100) :
    ReadsAck members payload ↔ TakesMembers members := by
  refine ⟨fun reads => ?_, takes_read members payload object valid fits⟩
  simp only [ReadsAck, fun prior stray => payload_read members payload prior stray object valid fits] at reads
  refine ⟨fun body named => ?_, fun none => ?_, fun text n named integer => ?_, fun none => ?_⟩
  · exact (last_fixed _ _).mp (fun prior => (reads (prior, 0) ([], 0)).1.1 body named)
  · exact List.getLast?_eq_none_iff.mp ((last_kept _).mp (fun prior => (reads (prior, 0) ([], 0)).1.2 none))
  · have last := (last_fixed _ _).mp (fun prior => (reads ([], prior) ([], 0)).2.1 text n named integer)
    exact Option.map_eq_some_iff.mp last
  · have last := (last_kept _).mp (fun prior => (reads ([], prior) ([], 0)).2.2 none)
    exact List.getLast?_eq_none_iff.mp (Option.map_eq_none_iff.mp last)

theorem code_first_named (context code name : Bytes) (value : Value) (named : (codeFirst context code).Named name value) :
    name = ascii "http_code" ∧ value = .primitive code ∨ name = ascii "context" ∧ value = .string context := by
  obtain ⟨key, listed, rfl⟩ := named
  simp only [codeFirst, Members.pairs, List.mem_cons, List.not_mem_nil, or_false, Prod.mk.injEq, Value.string.injEq] at listed
  rcases listed with ⟨rfl, rfl⟩ | ⟨rfl, rfl⟩
  · exact .inl ⟨ack_word_unescaped _ (by decide), rfl⟩
  · exact .inr ⟨ack_word_unescaped _ (by decide), rfl⟩

theorem code_first_read : ReadsAck (codeFirst (ascii "h") (ascii "202")) (Value.object (codeFirst (ascii "h") (ascii "202"))).text := by
  have apart : ascii "context" ≠ ascii "http_code" := by decide
  have present : (codeFirst (ascii "h") (ascii "202")).Named (ascii "context") (.string (ascii "h")) ∧
      (codeFirst (ascii "h") (ascii "202")).Named (ascii "http_code") (.primitive (ascii "202")) :=
    ⟨⟨_, .tail _ (.head _), ack_word_unescaped _ (by decide)⟩, ⟨_, .head _, ack_word_unescaped _ (by decide)⟩⟩
  apply (http_ack_read_iff _ _ (Json.text_padded _) (by decide +kernel) (by decide +kernel)).mpr
  refine ⟨fun body named => ?_, fun none => absurd present.1 (none _), fun text n named integer => ?_,
    fun none => absurd present.2 (none _)⟩
  · rcases code_first_named _ _ _ _ named with ⟨other, _⟩ | ⟨_, same⟩
    · exact absurd other apart
    · obtain rfl := Value.string.inj same
      decide +kernel
  · rcases code_first_named _ _ _ _ named with ⟨_, same⟩ | ⟨other, _⟩
    · obtain rfl := Value.primitive.inj same
      exact ⟨ascii "202", by decide +kernel, Option.some.inj ((by decide +kernel : some (atoi (ascii "202")) = Json.integer (ascii "202")).trans integer)⟩
    · exact absurd other.symm apart

-- {"http_code":200,"extra":{"http_code":404}}
def nestedCode : Members :=
  .cons (.string (ascii "http_code")) (.primitive (ascii "200"))
    (.cons (.string (ascii "extra")) (.object (.cons (.string (ascii "http_code")) (.primitive (ascii "404")) .nil)) .nil)

theorem nested_code_read : (Value.object nestedCode).wellFormed = true ∧ (Value.object nestedCode).distinct = true ∧
    (Value.object nestedCode).nodes ≤ 100 ∧ ¬ ReadsAck nestedCode (Value.object nestedCode).text := by
  refine ⟨by decide +kernel, by decide +kernel, by decide +kernel, fun reads => ?_⟩
  have named : nestedCode.Named (ascii "http_code") (.primitive (ascii "200")) :=
    ⟨_, .head _, ack_word_unescaped _ (by decide)⟩
  have value : Json.integer (ascii "200") = some 200 := by decide +kernel
  have read := (reads ([], 0) ([], 0)).2.1 (ascii "200") 200 named value
  revert read
  decide +kernel

end Aliot
