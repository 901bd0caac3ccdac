import Aliot.AckMembers
import Aliot.TokenReads

set_option autoImplicit false

namespace Aliot

open Json (Leaf)

-- A text that jsmn_parse rejects leaves the outputs as they were.
def BrokenAckIgnored (payload : Bytes) : Prop :=
  (jsmnParse payload 100).rc < 0 → ∀ prior stray, parseHttpAck payload prior stray = prior

-- The first tokens that are one value with all that it calls for have no string behind an untaken context, and no string
-- or primitive behind an untaken http_code.
def TakesNothing (js : Bytes) (tokens : List JsmnTok) : Prop :=
  tokens = [] ∨ ∃ k ≤ tokens.length, Fills 1 (tokens.take k) ∧
    ∀ taken ∈ ackTaken (tokenLeaves js (tokens.take k)), contextTaken taken = none ∧ codeTaken taken = none

theorem tree_acked (payload : Bytes) (prior stray : Bytes × Int) (some : (jsmnParse payload 100).tokens ≠ []) :
    parseHttpAck payload prior stray =
      ((readTree payload (jsmnParse payload 100).tokens ((jsmnParse payload 100).tokens.length + 1) 0).map
        (fun found => ((((ackTaken found.2.leaves).filterMap contextTaken).getLast?).getD prior.1,
          ((((ackTaken found.2.leaves).filterMap codeTaken).getLast?).map atoi).getD prior.2))).getD stray := by
  have counted : 0 < (jsmnParse payload 100).tokens.length := List.length_pos_of_ne_nil some
  have walk := ack_handler_walk payload (jsmnParse payload 100).tokens ((jsmnParse payload 100).tokens.length + 1) 0
    (jsmnParse payload 100).tokens.length ⟨prior.1, prior.2, 0⟩ (by simp) (by simp) counted
  simp only [parseHttpAck, walk]
  cases readTree payload (jsmnParse payload 100).tokens ((jsmnParse payload 100).tokens.length + 1) 0 with
  | none => rfl
  | some found =>
      obtain ⟨context, code⟩ := ack_taken_read found.2.leaves ⟨prior.1, prior.2, 0⟩ rfl
      simp only [Option.map_some, Option.getD_some, ack_value_leaves, context, code]

theorem nothing_taken (leaves : List Leaf) :
    (∀ taken ∈ ackTaken leaves, contextTaken taken = none ∧ codeTaken taken = none) ↔
      (ackTaken leaves).filterMap contextTaken = [] ∧ (ackTaken leaves).filterMap codeTaken = [] := by
  simp only [List.filterMap_eq_nil_iff, forall_and]

theorem outputs_kept_iff (payload : Bytes) :
    (∀ prior stray, parseHttpAck payload prior stray = prior) ↔ TakesNothing payload (jsmnParse payload 100).tokens := by
  by_cases empty : (jsmnParse payload 100).tokens = []
  · refine iff_of_true (fun prior stray => ?_) (.inl empty)
    simp only [parseHttpAck, empty]
    rfl
  simp only [tree_acked payload _ _ empty, TakesNothing, or_iff_right empty, nothing_taken]
  constructor
  · intro kept
    cases read : readTree payload (jsmnParse payload 100).tokens ((jsmnParse payload 100).tokens.length + 1) 0 with
    | none =>
        have moved := kept ([], 0) ([], 1)
        rw [read] at moved
        cases moved
    | some found =>
        obtain ⟨toks, after, here, _, filled, leaves⟩ := tree_spanned _ _ _ _ _ _ read
        rw [List.drop_zero] at here
        simp only [read, Option.map_some, Option.getD_some, Prod.ext_iff] at kept
        have contexts := (last_kept _).mp (fun context => (kept (context, 0) ([], 0)).1)
        have codes := (last_kept _).mp (fun code => (kept ([], code) ([], 0)).2)
        refine ⟨toks.length, by rw [here, List.length_append]; omega, ?_⟩
        rw [here, List.take_left, leaves]
        exact ⟨filled, List.getLast?_eq_none_iff.mp contexts, List.getLast?_eq_none_iff.mp (Option.map_eq_none_iff.mp codes)⟩
  · rintro ⟨k, within, filled, noContext, noCode⟩ prior stray
    have short : ((jsmnParse payload 100).tokens.take k).length ≤ (jsmnParse payload 100).tokens.length + 1 := by
      rw [List.length_take]
      omega
    obtain ⟨value, read⟩ := tree_complete payload _ _ 0 _ ((jsmnParse payload 100).tokens.drop k)
      (by rw [List.drop_zero, List.take_append_drop]) filled short
    obtain ⟨toks, after, here, used, _, leaves⟩ := tree_spanned _ _ _ _ _ _ read
    rw [List.drop_zero] at here
    have same : toks = (jsmnParse payload 100).tokens.take k := by
      have front := congrArg (List.take toks.length) here
      rw [List.take_left, show toks.length = k by rw [List.length_take] at used; omega] at front
      exact front.symm
    rw [read, Option.map_some, Option.getD_some]
    simp only [← leaves, same, noContext, noCode]
    rfl

theorem broken_ack_ignored_iff (payload : Bytes) : BrokenAckIgnored payload ↔
    ((jsmnParse payload 100).rc < 0 → TakesNothing payload (jsmnParse payload 100).tokens) := by
  rw [BrokenAckIgnored, outputs_kept_iff payload]

-- {"context":"5f70","http_code":200 lacks its closing bracket, and both outputs are set from it.
def cutOffAck : Bytes := ascii "\x7b\"context\":\"5f70\",\"http_code\":200"

theorem cut_off_ack_read : ¬ BrokenAckIgnored cutOffAck := by
  intro ignored
  have kept := ignored (by decide +kernel) ([], 408) ([], 0)
  revert kept
  decide +kernel

end Aliot
