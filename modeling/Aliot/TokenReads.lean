import Aliot.Ack
import Aliot.JsonFields
import Aliot.JsonHandler

set_option autoImplicit false

namespace Aliot

open Json (Value Members Items Leaf)

-- The values that the handlers look for behind a token: a key and a value for every one that an object counts.
def sought (tok : JsmnTok) : Nat :=
  match tok.type with
  | .object => 2 * tok.size
  | .array => tok.size
  | _ => 0

def soughtBy : List JsmnTok → Nat
  | [] => 0
  | tok :: rest => sought tok + soughtBy rest

-- These tokens are so many values and all that is sought behind them.
def Fills : Nat → List JsmnTok → Prop
  | 0, toks => toks = []
  | _ + 1, [] => False
  | values + 1, tok :: rest => Fills (values + sought tok) rest

def tokenLeaf (js : Bytes) (tok : JsmnTok) : Option Leaf :=
  match tok.type with
  | .primitive => some (.primitive (tokenText js tok))
  | .string => some (.string (tokenText js tok))
  | _ => none

def tokenLeaves (js : Bytes) (toks : List JsmnTok) : List Leaf := toks.filterMap (tokenLeaf js)

-- Some of the first tokens are exactly as many as they call for.
def SizesFit (tokens : List JsmnTok) : Prop :=
  tokens = [] ∨ ∃ k ≤ tokens.length, 1 + soughtBy (tokens.take k) = k

instance (tokens : List JsmnTok) : Decidable (SizesFit tokens) := inferInstanceAs (Decidable (_ ∨ _))

-- No token outside the written ones is read: with fuel for one level more than there are tokens, a walk only comes to
-- nothing where it reads such a token.
structure ReadsWithin (js : Bytes) : Prop where
  json : ∀ fuel w, (jsmnParse js 100).tokens.length < fuel →
    (jsonHandler js (jsmnParse js 100).tokens fuel 0 (jsmnParse js 100).tokens.length w).isSome
  ack : ∀ fuel w, (jsmnParse js 100).tokens.length < fuel →
    (ackHandler js (jsmnParse js 100).tokens fuel 0 (jsmnParse js 100).tokens.length w).isSome

theorem fills_zero (toks : List JsmnTok) : Fills 0 toks ↔ toks = [] := by
  rw [Fills]

theorem fills_append (n m : Nat) (first second : List JsmnTok) (filled : Fills n first) (more : Fills m second) :
    Fills (n + m) (first ++ second) := by
  fun_induction Fills n first with
  | case1 toks =>
      subst filled
      simpa using more
  | case2 => cases filled
  | case3 values tok rest ih =>
      have inner := ih filled
      rw [Nat.add_right_comm] at inner
      rw [Nat.succ_add]
      exact inner

theorem fills_split (n m : Nat) (toks : List JsmnTok) (filled : Fills (n + m) toks) :
    ∃ first second, toks = first ++ second ∧ Fills n first ∧ Fills m second := by
  induction toks generalizing n with
  | nil =>
      cases n with
      | zero => exact ⟨[], [], rfl, rfl, by simpa using filled⟩
      | succ n =>
          rw [Nat.add_right_comm] at filled
          cases filled
  | cons tok rest ih =>
      cases n with
      | zero => exact ⟨[], tok :: rest, rfl, rfl, by simpa using filled⟩
      | succ n =>
          rw [Nat.add_right_comm] at filled
          have inner : Fills (n + sought tok + m) rest := by
            rw [Nat.add_right_comm]
            exact filled
          obtain ⟨first, second, rfl, front, back⟩ := ih _ inner
          exact ⟨tok :: first, second, rfl, front, back⟩

-- The values still sought go down by one at most with each token, so that a balance in the end has a first one.
theorem fills_iff_sought (n : Nat) (toks : List JsmnTok) :
    (∃ k ≤ toks.length, Fills n (toks.take k)) ↔ ∃ k ≤ toks.length, n + soughtBy (toks.take k) = k := by
  induction toks generalizing n with
  | nil =>
      cases n with
      | zero => exact ⟨fun _ => ⟨0, Nat.le_refl _, rfl⟩, fun _ => ⟨0, Nat.le_refl _, rfl⟩⟩
      | succ n =>
          constructor
          · rintro ⟨k, _, filled⟩
            rw [List.take_nil] at filled
            cases filled
          · rintro ⟨k, none, balance⟩
            simp only [List.length_nil, Nat.le_zero] at none
            rw [List.take_nil, soughtBy] at balance
            omega
  | cons tok rest ih =>
      cases n with
      | zero => exact ⟨fun _ => ⟨0, Nat.zero_le _, rfl⟩, fun _ => ⟨0, Nat.zero_le _, rfl⟩⟩
      | succ n =>
          have inner := ih (n + sought tok)
          constructor
          · rintro ⟨k, within, filled⟩
            cases k with
            | zero => cases filled
            | succ k =>
                obtain ⟨k, within, balance⟩ := inner.mp ⟨k, Nat.le_of_succ_le_succ within, filled⟩
                refine ⟨k + 1, Nat.succ_le_succ within, ?_⟩
                simp only [List.take_succ_cons, soughtBy]
                omega
          · rintro ⟨k, within, balance⟩
            cases k with
            | zero => omega
            | succ k =>
                simp only [List.take_succ_cons, soughtBy] at balance
                obtain ⟨k, within, filled⟩ := inner.mpr ⟨k, Nat.le_of_succ_le_succ within, by omega⟩
                exact ⟨k + 1, Nat.succ_le_succ within, filled⟩

section Read

variable (js : Bytes) (tokens : List JsmnTok)

-- What is read between two places of the tokens.
def Spanned (start stop values : Nat) (leaves : List Leaf) : Prop :=
  ∃ toks after, tokens.drop start = toks ++ after ∧ stop = start + toks.length ∧ Fills values toks ∧
    tokenLeaves js toks = leaves

theorem spanned_none (start : Nat) : Spanned js tokens start start 0 [] :=
  ⟨[], tokens.drop start, rfl, rfl, rfl, rfl⟩

theorem spanned_trans (start middle stop n m : Nat) (leaves more : List Leaf) (first : Spanned js tokens start middle n leaves)
    (second : Spanned js tokens middle stop m more) : Spanned js tokens start stop (n + m) (leaves ++ more) := by
  obtain ⟨front, after, here, rfl, filled, rfl⟩ := first
  obtain ⟨back, rest, there, rfl, filledToo, rfl⟩ := second
  rw [drop_past tokens start front after here] at there
  refine ⟨front ++ back, rest, by rw [here, there, List.append_assoc], ?_, fills_append n m front back filled filledToo, ?_⟩
  · rw [List.length_append, Nat.add_assoc]
  · exact List.filterMap_append

theorem members_spanned (child : Nat → Option (Nat × Value)) (base size j used : Nat) (members : Members)
    (spanned : ∀ j used value, child j = some (used, value) →
      Spanned js tokens (base + j) (base + j + used) 1 value.leaves)
    (read : readMembers child size j = some (used, members)) :
    Spanned js tokens (base + j) (base + used) (2 * size) members.leaves := by
  induction size generalizing j members with
  | zero =>
      obtain ⟨rfl, rfl⟩ := Prod.mk.inj (Option.some.inj read)
      exact spanned_none js tokens (base + j)
  | succ size ih =>
      simp only [readMembers, Option.bind_eq_bind, Option.bind_eq_some_iff] at read
      obtain ⟨⟨keyUsed, key⟩, keyRead, ⟨valueUsed, value⟩, valueRead, ⟨last, rest⟩, restRead, result⟩ := read
      obtain ⟨rfl, rfl⟩ := Prod.mk.inj (Option.some.inj result)
      have keySpan := spanned _ _ _ keyRead
      have valueSpan := spanned _ _ _ valueRead
      have restSpan := ih _ _ restRead
      simp only [← Nat.add_assoc] at valueSpan restSpan
      have whole := spanned_trans js tokens _ _ _ _ _ _ _ keySpan (spanned_trans js tokens _ _ _ _ _ _ _ valueSpan restSpan)
      rw [show 2 * (size + 1) = 1 + (1 + 2 * size) by omega]
      exact whole

theorem items_spanned (child : Nat → Option (Nat × Value)) (base size j used : Nat) (items : Items)
    (spanned : ∀ j used value, child j = some (used, value) →
      Spanned js tokens (base + j) (base + j + used) 1 value.leaves)
    (read : readItems child size j = some (used, items)) :
    Spanned js tokens (base + j) (base + used) size items.leaves := by
  induction size generalizing j items with
  | zero =>
      obtain ⟨rfl, rfl⟩ := Prod.mk.inj (Option.some.inj read)
      exact spanned_none js tokens (base + j)
  | succ size ih =>
      simp only [readItems, Option.bind_eq_bind, Option.bind_eq_some_iff] at read
      obtain ⟨⟨valueUsed, value⟩, valueRead, ⟨last, rest⟩, restRead, result⟩ := read
      obtain ⟨rfl, rfl⟩ := Prod.mk.inj (Option.some.inj result)
      have valueSpan := spanned _ _ _ valueRead
      have restSpan := ih _ _ restRead
      simp only [← Nat.add_assoc] at restSpan
      rw [Nat.add_comm size]
      exact spanned_trans js tokens _ _ _ _ _ _ _ valueSpan restSpan

theorem token_spanned (t stop values : Nat) (tok : JsmnTok) (leaves : List Leaf) (found : tokens[t]? = some tok)
    (calls : sought tok = values) (noLeaf : tokenLeaf js tok = none) (inner : Spanned js tokens (t + 1) stop values leaves) :
    Spanned js tokens t stop 1 leaves := by
  obtain ⟨toks, after, here, rfl, filled, rfl⟩ := inner
  have first : tokens.drop t = tok :: tokens.drop (t + 1) := by
    obtain ⟨within, rfl⟩ := List.getElem?_eq_some_iff.mp found
    exact List.drop_eq_getElem_cons within
  refine ⟨tok :: toks, after, by rw [first, here]; rfl, ?_, ?_, ?_⟩
  · rw [List.length_cons]
    omega
  · rw [Fills, Nat.zero_add, calls]
    exact filled
  · exact List.filterMap_cons_none noLeaf

theorem tree_spanned (fuel t used : Nat) (value : Value) (read : readTree js tokens fuel t = some (used, value)) :
    Spanned js tokens t (t + used) 1 value.leaves := by
  induction fuel generalizing t used value with
  | zero => cases read
  | succ fuel ih =>
      simp only [readTree] at read
      split at read
      · cases read
      · rename_i tok found
        have first : tokens.drop t = tok :: tokens.drop (t + 1) := by
          obtain ⟨within, rfl⟩ := List.getElem?_eq_some_iff.mp found
          exact List.drop_eq_getElem_cons within
        have inner : ∀ j used value, readTree js tokens fuel (t + 1 + j) = some (used, value) →
            Spanned js tokens (t + 1 + j) (t + 1 + j + used) 1 value.leaves := fun j => ih (t + 1 + j)
        split at read
        · rename_i type
          obtain ⟨rfl, rfl⟩ := Prod.mk.inj (Option.some.inj read)
          exact ⟨[tok], _, first, rfl, by simp [Fills, sought, type], by simp [tokenLeaves, tokenLeaf, type, Value.leaves]⟩
        · rename_i type
          obtain ⟨rfl, rfl⟩ := Prod.mk.inj (Option.some.inj read)
          exact ⟨[tok], _, first, rfl, by simp [Fills, sought, type], by simp [tokenLeaves, tokenLeaf, type, Value.leaves]⟩
        · rename_i type
          obtain ⟨⟨j, members⟩, found', result⟩ := Option.map_eq_some_iff.mp read
          obtain ⟨rfl, rfl⟩ := Prod.mk.inj result
          have spanned := members_spanned js tokens _ (t + 1) _ 0 j members inner found'
          rw [Nat.add_zero, Nat.add_assoc t 1 j, Nat.add_comm 1 j] at spanned
          exact token_spanned js tokens t _ _ tok _ found (by simp [sought, type]) (by simp [tokenLeaf, type]) spanned
        · rename_i type
          obtain ⟨⟨j, items⟩, found', result⟩ := Option.map_eq_some_iff.mp read
          obtain ⟨rfl, rfl⟩ := Prod.mk.inj result
          have spanned := items_spanned js tokens _ (t + 1) _ 0 j items inner found'
          rw [Nat.add_zero, Nat.add_assoc t 1 j, Nat.add_comm 1 j] at spanned
          exact token_spanned js tokens t _ _ tok _ found (by simp [sought, type]) (by simp [tokenLeaf, type]) spanned

theorem members_complete (child : Nat → Option (Nat × Value)) (base size j : Nat) (toks after : List JsmnTok) (room : Nat)
    (complete : ∀ j toks after, tokens.drop (base + j) = toks ++ after → Fills 1 toks → toks.length ≤ room →
      ∃ value, child j = some (toks.length, value))
    (here : tokens.drop (base + j) = toks ++ after) (filled : Fills (2 * size) toks) (enough : toks.length ≤ room) :
    ∃ members, readMembers child size j = some (j + toks.length, members) := by
  induction size generalizing j toks with
  | zero =>
      obtain rfl := (fills_zero toks).mp filled
      exact ⟨.nil, rfl⟩
  | succ size ih =>
      rw [show 2 * (size + 1) = 1 + (1 + 2 * size) by omega] at filled
      obtain ⟨keyToks, _, rfl, keyFilled, filled⟩ := fills_split _ _ _ filled
      obtain ⟨valueToks, more, rfl, valueFilled, filled⟩ := fills_split _ _ _ filled
      simp only [List.append_assoc, List.length_append] at here enough
      have there := drop_past_from tokens base j _ keyToks _ here rfl
      have past := drop_past_from tokens base _ _ valueToks _ there rfl
      obtain ⟨key, keyRead⟩ := complete j keyToks _ here keyFilled (by omega)
      obtain ⟨value, valueRead⟩ := complete _ valueToks _ there valueFilled (by omega)
      obtain ⟨rest, restRead⟩ := ih _ more past filled (by omega)
      refine ⟨.cons key value rest, ?_⟩
      simp only [readMembers, keyRead, valueRead, restRead, Option.bind_eq_bind, Option.bind_some, List.length_append,
        ← Nat.add_assoc]
      rfl

theorem items_complete (child : Nat → Option (Nat × Value)) (base size j : Nat) (toks after : List JsmnTok) (room : Nat)
    (complete : ∀ j toks after, tokens.drop (base + j) = toks ++ after → Fills 1 toks → toks.length ≤ room →
      ∃ value, child j = some (toks.length, value))
    (here : tokens.drop (base + j) = toks ++ after) (filled : Fills size toks) (enough : toks.length ≤ room) :
    ∃ items, readItems child size j = some (j + toks.length, items) := by
  induction size generalizing j toks with
  | zero =>
      obtain rfl := (fills_zero toks).mp filled
      exact ⟨.nil, rfl⟩
  | succ size ih =>
      rw [Nat.add_comm] at filled
      obtain ⟨valueToks, more, rfl, valueFilled, filled⟩ := fills_split _ _ _ filled
      simp only [List.append_assoc, List.length_append] at here enough
      have past := drop_past_from tokens base j _ valueToks _ here rfl
      obtain ⟨value, valueRead⟩ := complete j valueToks _ here valueFilled (by omega)
      obtain ⟨rest, restRead⟩ := ih _ more past filled (by omega)
      refine ⟨.cons value rest, ?_⟩
      simp only [readItems, valueRead, restRead, Option.bind_eq_bind, Option.bind_some, List.length_append, ← Nat.add_assoc]
      rfl

theorem tree_complete (fuel t : Nat) (toks after : List JsmnTok) (here : tokens.drop t = toks ++ after) (filled : Fills 1 toks)
    (enough : toks.length ≤ fuel) : ∃ value, readTree js tokens fuel t = some (toks.length, value) := by
  induction fuel generalizing t toks after with
  | zero =>
      rw [List.length_eq_zero_iff.mp (Nat.le_zero.mp enough)] at filled
      cases filled
  | succ fuel ih =>
      cases toks with
      | nil => cases filled
      | cons tok inner =>
          rw [Fills, Nat.zero_add] at filled
          have found := at_drop tokens t tok (inner ++ after) here
          have next := drop_past tokens t [tok] (inner ++ after) here
          have room : inner.length ≤ fuel := Nat.le_of_succ_le_succ enough
          cases type : tok.type with
          | primitive =>
              simp only [sought, type] at filled
              obtain rfl := (fills_zero inner).mp filled
              exact ⟨.primitive (tokenText js tok), by simp only [readTree, found, type]; rfl⟩
          | string =>
              simp only [sought, type] at filled
              obtain rfl := (fills_zero inner).mp filled
              exact ⟨.string (tokenText js tok), by simp only [readTree, found, type]; rfl⟩
          | object =>
              simp only [sought, type] at filled
              obtain ⟨members, read⟩ := members_complete tokens (fun j => readTree js tokens fuel (t + 1 + j)) (t + 1) tok.size 0
                inner after fuel (fun j toks after => ih (t + 1 + j) toks after) next filled room
              exact ⟨.object members, by simp only [readTree, found, type, read, Option.map_some, Nat.zero_add]; rfl⟩
          | array =>
              simp only [sought, type] at filled
              obtain ⟨items, read⟩ := items_complete tokens (fun j => readTree js tokens fuel (t + 1 + j)) (t + 1) tok.size 0
                inner after fuel (fun j toks after => ih (t + 1 + j) toks after) next filled room
              exact ⟨.array items, by simp only [readTree, found, type, read, Option.map_some, Nat.zero_add]; rfl⟩

theorem tree_found_iff (fuel : Nat) (enough : tokens.length < fuel) :
    (readTree js tokens fuel 0).isSome ↔ ∃ k ≤ tokens.length, Fills 1 (tokens.take k) := by
  constructor
  · intro found
    obtain ⟨⟨used, value⟩, read⟩ := Option.isSome_iff_exists.mp found
    obtain ⟨toks, after, here, _, filled, _⟩ := tree_spanned js tokens fuel 0 used value read
    rw [List.drop_zero] at here
    refine ⟨toks.length, by rw [here, List.length_append]; omega, ?_⟩
    rw [here, List.take_left]
    exact filled
  · rintro ⟨k, _, filled⟩
    have short : (tokens.take k).length ≤ fuel := by
      rw [List.length_take]
      omega
    obtain ⟨value, read⟩ := tree_complete js tokens fuel 0 (tokens.take k) (tokens.drop k)
      (by rw [List.drop_zero, List.take_append_drop]) filled short
    exact Option.isSome_iff_exists.mpr ⟨_, read⟩

theorem handlers_found (fuel : Nat) (enough : tokens.length < fuel) :
    (∀ w, (jsonHandler js tokens fuel 0 tokens.length w).isSome ↔ SizesFit tokens) ∧
      ∀ w, (ackHandler js tokens fuel 0 tokens.length w).isSome ↔ SizesFit tokens := by
  cases tokens with
  | nil =>
      obtain ⟨fuel, rfl⟩ := Nat.exists_eq_add_of_lt enough
      simp only [List.length_nil, Nat.zero_add, SizesFit, true_or, iff_true]
      exact ⟨fun _ => rfl, fun _ => rfl⟩
  | cons tok rest =>
      have counted : 0 < (tok :: rest).length := Nat.succ_pos _
      have fit : (readTree js (tok :: rest) fuel 0).isSome ↔ SizesFit (tok :: rest) := by
        rw [tree_found_iff js _ fuel enough, fills_iff_sought, SizesFit, or_iff_right (List.cons_ne_nil tok rest)]
      constructor
      · intro w
        rw [json_handler_walk js (tok :: rest) fuel 0 _ w (by omega) (Nat.zero_le _) counted, Option.isSome_map, fit]
      · intro w
        rw [ack_handler_walk js (tok :: rest) fuel 0 _ w (by omega) (Nat.zero_le _) counted, Option.isSome_map, fit]

end Read

theorem handlers_read_within_iff (js : Bytes) : ReadsWithin js ↔ SizesFit (jsmnParse js 100).tokens := by
  constructor
  · intro within
    have first := within.json _ ⟨[], ⟨[], [], [], []⟩, 0⟩ (Nat.lt_succ_self _)
    exact ((handlers_found js _ _ (Nat.lt_succ_self _)).1 _).mp first
  · intro fit
    refine ⟨fun fuel w enough => ?_, fun fuel w enough => ?_⟩
    · exact ((handlers_found js _ fuel enough).1 w).mpr fit
    · exact ((handlers_found js _ fuel enough).2 w).mpr fit

-- The sizes of a JSON text fit whatever it says.
theorem document_sizes_fit (js : Bytes) (value : Value) (text : Json.Padded value js) (valid : value.wellFormed = true)
    (fits : value.nodes ≤ 100) : SizesFit (jsmnParse js 100).tokens := by
  obtain ⟨space, text, after, same, blank, blankAfter, spells⟩ := text
  obtain ⟨read, _⟩ := jsmn_document js 100 value space text after valid spells same blank blankAfter fits
  obtain ⟨found, tree, _⟩ := Option.map_eq_some_iff.mp read
  refine .inr ((fills_iff_sought _ _).mp ?_)
  rw [← tree_found_iff js _ _ (Nat.lt_succ_self _), tree]
  rfl

-- {"a"} is accepted, and the value of its key is looked for behind the last token.
theorem lone_key_overread : 0 ≤ (jsmnParse (ascii "\x7b\"a\"\x7d") 100).rc ∧ ¬ ReadsWithin (ascii "\x7b\"a\"\x7d") := by
  refine ⟨by decide +kernel, fun within => ?_⟩
  have read := within.json 3 ⟨[], ⟨[], [], [], []⟩, 0⟩ (by decide +kernel)
  revert read
  decide +kernel

end Aliot
