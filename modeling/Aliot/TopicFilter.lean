import Aliot.Delivery

set_option autoImplicit false

namespace Aliot

abbrev separator : UInt8 := 0x2f
abbrev plus : UInt8 := 0x2b
abbrev hash : UInt8 := 0x23

def topicLevels (topic : Bytes) : List Bytes := topic.splitOn separator

def plainLevel (level : Bytes) : Bool := !level.contains plus && !level.contains hash

-- '#' only as the last level, '+' and '#' only as whole levels.
def correctFilter : List Bytes → Bool
  | [] => true
  | level :: filter => (plainLevel level || level = [plus] || level = [hash] && filter.isEmpty) && correctFilter filter

-- The rules of MQTT: a final '#' takes the parent level and any number of levels below it.
def matchLevels : List Bytes → List Bytes → Bool
  | [], topic => topic.isEmpty
  | level :: filter, topic =>
      if level = [hash] then true
      else
        match topic with
        | [] => false
        | name :: names => (level = [plus] || level = name) && matchLevels filter names

-- At the place of every wildcard the topic has a level that is not empty.
def wildcardsFilled : List Bytes → List Bytes → Bool
  | [], _ => true
  | level :: filter, topic => (plainLevel level || topic.headD [] ≠ []) && wildcardsFilled filter topic.tail

def matchFilled (filter topic : List Bytes) : Bool := matchLevels filter topic && wildcardsFilled filter topic

theorem match_filled_no_level (level : Bytes) (filter : List Bytes) :
    matchFilled (level :: filter) [] = false := by
  by_cases last : level = [hash]
  · simp [matchFilled, wildcardsFilled, last, plainLevel]
  · simp [matchFilled, matchLevels, last]

theorem match_filled_plus (filter : List Bytes) (name : Bytes) (names : List Bytes) :
    matchFilled ([plus] :: filter) (name :: names) = (name ≠ [] && matchFilled filter names) := by
  have different : ¬ [plus] = [hash] := by decide
  cases name with
  | nil => simp [matchFilled, matchLevels, wildcardsFilled, plainLevel]
  | cons c rest => simp only [matchFilled, matchLevels, wildcardsFilled, different]; simp

theorem match_filled_hash (name : Bytes) (names : List Bytes) :
    matchFilled [[hash]] (name :: names) = decide (name ≠ []) := by
  simp [matchFilled, matchLevels, wildcardsFilled, plainLevel]

theorem match_filled_plain (level : Bytes) (filter : List Bytes) (name : Bytes) (names : List Bytes)
    (plain : plainLevel level = true) :
    matchFilled (level :: filter) (name :: names) = (level = name && matchFilled filter names) := by
  have notPlus : level ≠ [plus] := fun same => by simp [same, plainLevel] at plain
  have notHash : level ≠ [hash] := fun same => by simp [same, plainLevel] at plain
  simp [matchFilled, matchLevels, wildcardsFilled, plain, notPlus, notHash, Bool.and_assoc]

theorem topic_levels_separator (text : Bytes) : topicLevels (separator :: text) = [] :: topicLevels text := by
  simp [topicLevels, List.splitOn_cons_eq_if_modifyHead]

theorem topic_levels_cons (c : UInt8) (text : Bytes) (inside : c ≠ separator) :
    ∃ level levels, topicLevels text = level :: levels ∧ topicLevels (c :: text) = (c :: level) :: levels := by
  cases split : topicLevels text with
  | nil => exact absurd split (List.splitOn_ne_nil _ _)
  | cons level levels =>
      refine ⟨level, levels, rfl, ?_⟩
      have split : text.splitOn separator = level :: levels := split
      simp [topicLevels, List.splitOn_cons_eq_if_modifyHead, inside, split]

-- Skipping to the next separator leaves an empty level in the place of the skipped one.
theorem topic_levels_skipped (text : Bytes) : ∃ level levels, topicLevels text = level :: levels ∧
    topicLevels (text.dropWhile (fun c => c != separator)) = [] :: levels := by
  induction text with
  | nil => exact ⟨[], [], rfl, rfl⟩
  | cons c text ih =>
      by_cases here : c = separator
      · refine ⟨[], topicLevels text, ?_, ?_⟩
        · rw [here, topic_levels_separator]
        · rw [here, List.dropWhile_cons_of_neg (by simp), topic_levels_separator]
      · obtain ⟨level, levels, split, skipped⟩ := ih
        obtain ⟨same, rest, before, added⟩ := topic_levels_cons c text here
        obtain ⟨rfl, rfl⟩ := List.cons.inj (before.symm.trans split)
        exact ⟨c :: same, rest, added, by rwa [List.dropWhile_cons_of_pos (by simpa using here)]⟩

theorem correct_filter_empty (filter : List Bytes) : correctFilter ([] :: filter) = correctFilter filter := rfl

theorem correct_filter_cons (c : UInt8) (level : Bytes) (filter : List Bytes)
    (correct : correctFilter ((c :: level) :: filter) = true) :
    c = plus ∧ level = [] ∧ correctFilter filter = true ∨
      c = hash ∧ level = [] ∧ filter = [] ∨
      c ≠ plus ∧ c ≠ hash ∧ plainLevel (c :: level) = true ∧ plainLevel level = true ∧ correctFilter (level :: filter) = true := by
  simp only [correctFilter, Bool.and_eq_true, Bool.or_eq_true, decide_eq_true_eq, List.isEmpty_iff, List.cons.injEq] at correct
  rcases correct with ⟨(plain | ⟨isPlus, empty⟩) | ⟨⟨isHash, empty⟩, last⟩, rest⟩
  · have parts := plain
    simp only [plainLevel, List.contains_cons, Bool.not_or, Bool.and_eq_true, Bool.not_eq_true', beq_eq_false_iff_ne] at parts
    obtain ⟨⟨notPlus, noPlus⟩, notHash, noHash⟩ := parts
    have plainRest : plainLevel level = true := by rw [plainLevel, noPlus, noHash]; rfl
    exact .inr (.inr ⟨Ne.symm notPlus, Ne.symm notHash, plain, plainRest, by simp [correctFilter, plainRest, rest]⟩)
  · exact .inl ⟨isPlus, empty, rest⟩
  · exact .inr (.inl ⟨isHash, empty, last⟩)

theorem match_filled_done (topic : List Bytes) : matchFilled [] topic = topic.isEmpty := Bool.and_true _

theorem topic_levels_split (topic : Bytes) : ∃ level levels, topicLevels topic = level :: levels := by
  cases split : topicLevels topic with
  | nil => exact absurd split (List.splitOn_ne_nil _ _)
  | cons level levels => exact ⟨level, levels, rfl⟩

theorem topic_levels_empty : topicLevels [] = [[]] := rfl

theorem topic_levels_one (text : Bytes) (split : topicLevels text = [[]]) : text = [] := by
  have joined : [separator].intercalate (text.splitOn separator) = text := List.intercalate_splitOn separator
  rw [show text.splitOn separator = [[]] from split] at joined
  exact joined.symm

theorem is_topic_matched_done (topic : Bytes) : isTopicMatched [] topic = matchFilled [[]] (topicLevels topic) := by
  cases topic with
  | nil => rfl
  | cons n curn =>
      by_cases here : n = separator
      · obtain ⟨level, levels, split⟩ := topic_levels_split curn
        rw [here, topic_levels_separator, split, match_filled_plain _ _ _ _ rfl, match_filled_done]
        rfl
      · obtain ⟨level, levels, _, split⟩ := topic_levels_cons n curn here
        rw [split, match_filled_plain _ _ _ _ rfl]
        rfl

-- The five branches of the loop body.
theorem is_topic_matched_step (f n : UInt8) (curf curn : Bytes) : isTopicMatched (f :: curf) (n :: curn) =
    if n = separator && f ≠ separator then false
    else if f ≠ plus && f ≠ hash && f ≠ n then false
    else if f = plus then isTopicMatched curf (curn.dropWhile (fun c => c != separator))
    else if f = hash then isTopicMatched curf []
    else isTopicMatched curf curn := rfl

theorem special_bytes : separator ≠ plus ∧ separator ≠ hash ∧ plus ≠ separator ∧ hash ≠ separator ∧ hash ≠ plus := by
  decide

section Step

variable (f : UInt8) (curf : Bytes) (level : Bytes) (filter : List Bytes)

theorem is_topic_matched_separator
    (rest : ∀ topic, isTopicMatched curf topic = matchFilled (level :: filter) (topicLevels topic)) (topic : Bytes) :
    isTopicMatched (separator :: curf) topic = matchFilled ([] :: level :: filter) (topicLevels topic) := by
  cases topic with
  | nil =>
      rw [topic_levels_empty, match_filled_plain _ _ _ _ rfl, match_filled_no_level]
      rfl
  | cons n curn =>
      by_cases here : n = separator
      · rw [here, topic_levels_separator, match_filled_plain _ _ _ _ rfl, ← rest]
        simp [is_topic_matched_step, special_bytes]
      · obtain ⟨name, names, _, split⟩ := topic_levels_cons n curn here
        rw [split, match_filled_plain _ _ _ _ rfl]
        simp [is_topic_matched_step, special_bytes, here, Ne.symm here]

theorem is_topic_matched_plus
    (rest : ∀ topic, isTopicMatched curf topic = matchFilled ([] :: filter) (topicLevels topic)) (topic : Bytes) :
    isTopicMatched (plus :: curf) topic = matchFilled ([plus] :: filter) (topicLevels topic) := by
  cases topic with
  | nil =>
      rw [topic_levels_empty, match_filled_plus]
      rfl
  | cons n curn =>
      by_cases here : n = separator
      · rw [here, topic_levels_separator, match_filled_plus]
        rfl
      · obtain ⟨name, names, inside, split⟩ := topic_levels_cons n curn here
        obtain ⟨skipped, names, whole, left⟩ := topic_levels_skipped curn
        obtain ⟨rfl, rfl⟩ := List.cons.inj (whole.symm.trans inside)
        have step : isTopicMatched (plus :: curf) (n :: curn) =
            isTopicMatched curf (curn.dropWhile (fun c => c != separator)) := by
          simp [is_topic_matched_step, here]
        rw [step, rest, left, match_filled_plain _ _ _ _ rfl, split, match_filled_plus]
        simp

theorem is_topic_matched_hash (topic : Bytes) : isTopicMatched [hash] topic = matchFilled [[hash]] (topicLevels topic) := by
  cases topic with
  | nil => rfl
  | cons n curn =>
      by_cases here : n = separator
      · rw [here, topic_levels_separator, match_filled_hash]
        rfl
      · obtain ⟨name, names, _, split⟩ := topic_levels_cons n curn here
        rw [split, match_filled_hash]
        simp [special_bytes, here, isTopicMatched]

theorem is_topic_matched_literal (inside : f ≠ separator) (notPlus : f ≠ plus) (notHash : f ≠ hash)
    (plain : plainLevel (f :: level) = true) (plainRest : plainLevel level = true)
    (rest : ∀ topic, isTopicMatched curf topic = matchFilled (level :: filter) (topicLevels topic)) (topic : Bytes) :
    isTopicMatched (f :: curf) topic = matchFilled ((f :: level) :: filter) (topicLevels topic) := by
  cases topic with
  | nil =>
      rw [topic_levels_empty, match_filled_plain _ _ _ _ plain]
      rfl
  | cons n curn =>
      by_cases here : n = separator
      · rw [here, topic_levels_separator, match_filled_plain _ _ _ _ plain]
        simp [is_topic_matched_step, inside]
      · obtain ⟨name, names, before, split⟩ := topic_levels_cons n curn here
        have more := rest curn
        rw [before, match_filled_plain _ _ _ _ plainRest] at more
        rw [split, match_filled_plain _ _ _ _ plain]
        by_cases same : f = n
        · simp [is_topic_matched_step, same, here, same ▸ notPlus, same ▸ notHash, more]
        · simp [is_topic_matched_step, same, here, notPlus, notHash]

end Step

-- The induction is on the bytes of the filter: inside a level, what is left of it is a plain level.
theorem is_topic_matched_levels (topicFilter topic : Bytes) (correct : correctFilter (topicLevels topicFilter) = true) :
    isTopicMatched topicFilter topic = matchFilled (topicLevels topicFilter) (topicLevels topic) := by
  induction topicFilter generalizing topic with
  | nil => exact is_topic_matched_done topic
  | cons f curf ih =>
      by_cases ends : f = separator
      · obtain ⟨level, filter, split⟩ := topic_levels_split curf
        rw [ends, topic_levels_separator, split] at correct ⊢
        refine is_topic_matched_separator curf level filter (fun topic => ?_) topic
        rw [← split]
        exact ih topic (by rwa [split, ← correct_filter_empty])
      · obtain ⟨level, filter, split, whole⟩ := topic_levels_cons f curf ends
        rw [whole] at correct ⊢
        rw [split] at ih
        rcases correct_filter_cons f level filter correct with ⟨rfl, rfl, more⟩ | ⟨rfl, rfl, rfl⟩ |
          ⟨notPlus, notHash, plain, plainRest, more⟩
        · refine is_topic_matched_plus curf filter (fun topic => ih topic ?_) topic
          rwa [correct_filter_empty]
        · rw [topic_levels_one curf split]
          exact is_topic_matched_hash topic
        · exact is_topic_matched_literal f curf level filter ends notPlus notHash plain plainRest
            (fun topic => ih topic more) topic

def TopicMatchAgrees (topicFilter topic : Bytes) : Prop :=
  isTopicMatched topicFilter topic = true ↔ matchLevels (topicLevels topicFilter) (topicLevels topic) = true

theorem topic_match_agrees_iff (topicFilter topic : Bytes) (correct : correctFilter (topicLevels topicFilter) = true) :
    TopicMatchAgrees topicFilter topic ↔
      (matchLevels (topicLevels topicFilter) (topicLevels topic) = true →
        wildcardsFilled (topicLevels topicFilter) (topicLevels topic) = true) := by
  rw [TopicMatchAgrees, is_topic_matched_levels topicFilter topic correct, matchFilled, Bool.and_eq_true]
  exact ⟨fun agrees matched => (agrees.mpr matched).2, fun filled => ⟨And.left, fun matched => ⟨matched, filled matched⟩⟩⟩

theorem tank_filter_filled : TopicMatchAgrees (ascii "tank/+/level/#") (ascii "tank/3/level/min") :=
  (topic_match_agrees_iff _ _ (by decide +kernel)).mpr (by decide +kernel)

-- tank/# takes the parent level: the loop ends with the topic, at the separator of the filter.
theorem parent_level_missed : correctFilter (topicLevels (ascii "tank/#")) = true ∧
    plainLevel (ascii "tank") = true ∧ ¬ TopicMatchAgrees (ascii "tank/#") (ascii "tank") := by
  refine ⟨by decide +kernel, by decide +kernel, ?_⟩
  rw [TopicMatchAgrees]
  decide +kernel

end Aliot
