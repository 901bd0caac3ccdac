import Aliot.JsmnParse
import Aliot.JsonHandler

set_option autoImplicit false

namespace Aliot

open Json (Value Members Items)

def isSigning (name : Bytes) : Bool := name = ascii "hash" || name = ascii "access_key"

def signingKey : Value → Bool
  | .string name => isSigning name
  | _ => false

def isString : Value → Bool
  | .string _ => true
  | _ => false

-- String members named "hash" or "access_key" are deleted at every depth.
mutual
def unsignedValue : Value → Value
  | .primitive text => .primitive text
  | .string body => .string body
  | .object members => .object (unsignedMembers members)
  | .array items => .array (unsignedItems items)

def unsignedMembers : Members → Members
  | .nil => .nil
  | .cons key value rest =>
      if signingKey key && isString value then unsignedMembers rest
      else .cons (unsignedValue key) (unsignedValue value) (unsignedMembers rest)

def unsignedItems : Items → Items
  | .nil => .nil
  | .cons value rest => .cons (unsignedValue value) (unsignedItems rest)
end

-- Containers that keep an entry, signing words only as keys, and strings behind them.
mutual
def clean : Value → Bool
  | .primitive _ => true
  | .string body => !isSigning body
  | .object members => cleanMembers members && !(unsignedMembers members).isNil
  | .array items => cleanItems items && !items.isNil

def cleanMembers : Members → Bool
  | .nil => true
  | .cons key value rest => (if signingKey key then isString value else clean value) && cleanMembers rest

def cleanItems : Items → Bool
  | .nil => true
  | .cons value rest => clean value && cleanItems rest
end

def trailedMembers : Members → Bytes
  | .nil => []
  | .cons key value rest => key.text ++ Json.colon :: (value.text ++ Json.comma :: trailedMembers rest)

def trailedItems : Items → Bytes
  | .nil => []
  | .cons value rest => value.text ++ Json.comma :: trailedItems rest

theorem listed_trailed (members : Members) : members.listed ++ [Json.comma] = Json.comma :: trailedMembers members := by
  induction members using Members.spine_induction with
  | nil => rfl
  | cons key value rest ih => simp [Members.listed, trailedMembers, ih]

theorem listed_trailed_items (items : Items) : items.listed ++ [Json.comma] = Json.comma :: trailedItems items := by
  induction items using Items.spine_induction with
  | nil => rfl
  | cons value rest ih => simp [Items.listed, trailedItems, ih]

theorem close_trailed (opening closing : UInt8) (body : Bytes) :
    opening :: (body ++ [closing]) = (opening :: (body ++ [Json.comma])).dropLast ++ [closing] := by
  have shape : opening :: (body ++ [Json.comma]) = opening :: body ++ [Json.comma] := rfl
  rw [shape, List.dropLast_concat, List.cons_append]

-- The code drops the last of the trailing commas and closes.
theorem object_text_trailed (members : Members) (some : members.isNil = false) :
    (Value.object members).text = (Json.openBrace :: trailedMembers members).dropLast ++ [Json.closeBrace] := by
  have listed := listed_trailed members
  cases members with
  | nil => cases some
  | cons key value rest =>
      simp only [Members.listed, List.cons_append, List.cons.injEq, true_and] at listed
      simp only [Value.text, Members.listed, List.tail_cons, ← listed]
      exact close_trailed _ _ _

theorem array_text_trailed (items : Items) (some : items.isNil = false) :
    (Value.array items).text = (Json.openBracket :: trailedItems items).dropLast ++ [Json.closeBracket] := by
  have listed := listed_trailed_items items
  cases items with
  | nil => cases some
  | cons value rest =>
      simp only [Items.listed, List.cons_append, List.cons.injEq, true_and] at listed
      simp only [Value.text, Items.listed, List.tail_cons, ← listed]
      exact close_trailed _ _ _

-- Two texts that part inside an entry of the second one, where no later append brings them together.
def Diverge (left right : Bytes) : Prop :=
  ∃ common a leftRest b rightRest, left = common ++ a :: leftRest ∧ right = common ++ b :: rightRest ∧
    a ≠ b ∧ b ≠ Json.closeBrace ∧ b ≠ Json.closeBracket ∧ rightRest ≠ []

theorem diverge_append (left right leftMore rightMore : Bytes) (diverge : Diverge left right) :
    Diverge (left ++ leftMore) (right ++ rightMore) := by
  obtain ⟨common, a, leftRest, b, rightRest, rfl, rfl, different, notBrace, notBracket, more⟩ := diverge
  exact ⟨common, a, leftRest ++ leftMore, b, rightRest ++ rightMore, by simp, by simp, different, notBrace, notBracket,
    by simp [more]⟩

theorem diverge_behind (front left right : Bytes) (diverge : Diverge left right) :
    Diverge (front ++ left) (front ++ right) := by
  obtain ⟨common, a, leftRest, b, rightRest, rfl, rfl, rest⟩ := diverge
  exact ⟨front ++ common, a, leftRest, b, rightRest, by simp, by simp, rest⟩

theorem diverge_close (left right : Bytes) (closing : UInt8) (diverge : Diverge left right)
    (closes : closing = Json.closeBrace ∨ closing = Json.closeBracket) :
    Diverge (left.dropLast ++ [closing]) (right.dropLast ++ [closing]) := by
  obtain ⟨common, a, leftRest, b, rightRest, rfl, rfl, different, notBrace, notBracket, more⟩ := diverge
  have rightEq : (common ++ b :: rightRest).dropLast ++ [closing] = common ++ b :: (rightRest.dropLast ++ [closing]) := by
    rw [List.dropLast_append_of_ne_nil (by simp), List.dropLast_cons_of_ne_nil more]
    simp
  rw [rightEq]
  cases leftRest with
  | nil =>
      have closingNe : closing ≠ b := by
        rcases closes with rfl | rfl
        · exact notBrace.symm
        · exact notBracket.symm
      refine ⟨common, closing, [], b, _, ?_, rfl, closingNe, notBrace, notBracket, by simp⟩
      rw [List.dropLast_concat]
  | cons c leftRest =>
      refine ⟨common, a, (c :: leftRest).dropLast ++ [closing], b, _, ?_, rfl, different, notBrace, notBracket, by simp⟩
      rw [List.dropLast_append_of_ne_nil (by simp), List.dropLast_cons_of_ne_nil (by simp)]
      simp

theorem diverge_ne (left right : Bytes) (diverge : Diverge left right) : left ≠ right := by
  obtain ⟨common, a, leftRest, b, rightRest, rfl, rfl, different, _⟩ := diverge
  intro same
  have tails := List.append_cancel_left same
  exact different (List.cons.inj tails).1

theorem string_read_extends (body : Bytes) (w : Walk) : ∃ more, (stringRead body w).current = w.current ++ more := by
  unfold stringRead
  dsimp only
  split
  · exact ⟨[], (List.append_nil _).symm⟩
  · split
    · exact ⟨[], (List.append_nil _).symm⟩
    · split
      · exact ⟨[], (List.append_nil _).symm⟩
      · exact ⟨_, rfl⟩

theorem separate_extends (w : Walk) (skipped : Prop) [Decidable skipped] (byte : UInt8) :
    ∃ more, (separate w skipped byte).current = w.current ++ more := by
  unfold separate
  split
  · exact ⟨[], (List.append_nil _).symm⟩
  · exact ⟨[byte], rfl⟩

theorem value_extends (value : Value) (w : Walk) : ∃ more, (walkValue value w).current = w.current ++ more := by
  cases value with
  | primitive text => exact ⟨text, rfl⟩
  | string body => exact string_read_extends body w
  | object members => exact ⟨_, rfl⟩
  | array items => exact ⟨_, rfl⟩

theorem members_extend (members : Members) (w : Walk) :
    ∃ more, (walkMembers members w).current = w.current ++ more := by
  induction members using Members.spine_induction generalizing w with
  | nil => exact ⟨[], (List.append_nil _).symm⟩
  | cons key value rest ih =>
      obtain ⟨keyMore, keyEq⟩ := value_extends key w
      obtain ⟨colonMore, colonEq⟩ := separate_extends (walkValue key w) (keySkipped (walkValue key w)) 0x3a
      obtain ⟨valueMore, valueEq⟩ := value_extends value
        (separate (walkValue key w) (keySkipped (walkValue key w)) 0x3a)
      obtain ⟨commaMore, commaEq⟩ := separate_extends
        (walkValue value (separate (walkValue key w) (keySkipped (walkValue key w)) 0x3a))
        (keySkipped (walkValue key w)) 0x2c
      obtain ⟨restMore, restEq⟩ := ih (separate
        (walkValue value (separate (walkValue key w) (keySkipped (walkValue key w)) 0x3a))
        (keySkipped (walkValue key w)) 0x2c)
      refine ⟨keyMore ++ colonMore ++ valueMore ++ commaMore ++ restMore, ?_⟩
      rw [walkMembers, restEq, commaEq, valueEq, colonEq, keyEq]
      simp only [List.append_assoc]

theorem items_extend (items : Items) (w : Walk) : ∃ more, (walkItems items w).current = w.current ++ more := by
  induction items using Items.spine_induction generalizing w with
  | nil => exact ⟨[], (List.append_nil _).symm⟩
  | cons value rest ih =>
      obtain ⟨valueMore, valueEq⟩ := value_extends value w
      obtain ⟨restMore, restEq⟩ := ih ((walkValue value w).strcat 0x2c)
      refine ⟨valueMore ++ [0x2c] ++ restMore, ?_⟩
      rw [walkItems, restEq, Walk.strcat, valueEq]
      simp only [List.append_assoc]

def Neutral (w : Walk) : Prop := ¬ keySkipped w

theorem neutral_iff (w : Walk) : Neutral w ↔ w.state ≠ 1 ∧ w.state ≠ 2 := by
  simp only [Neutral, keySkipped, not_or]

theorem state_after_signing (body : Bytes) :
    (stateAfter body = 1 ∨ stateAfter body = 2) ↔ isSigning body = true := by
  by_cases hash : body = ascii "hash"
  · subst hash
    decide
  · by_cases access : body = ascii "access_key"
    · subst access
      decide
    · obtain ⟨one, two⟩ := state_after_other body hash access
      simp [one, two, isSigning, hash, access]

theorem string_read_neutral (body : Bytes) (w : Walk) (neutral : Neutral w) :
    if isSigning body then (stringRead body w).current = w.current ∧ keySkipped (stringRead body w)
    else (stringRead body w).current = w.current ++ Json.quoted body ∧ Neutral (stringRead body w) := by
  obtain ⟨one, two⟩ := (neutral_iff w).mp neutral
  unfold stringRead
  rw [if_neg one, if_neg two]
  dsimp only
  by_cases signing : isSigning body = true
  · have state := (state_after_signing body).mpr signing
    rw [if_pos signing, if_pos state]
    exact ⟨rfl, state⟩
  · have state := (state_after_signing body).not.mpr signing
    rw [if_neg signing, if_neg state]
    exact ⟨rfl, state⟩

theorem string_read_skipped (body : Bytes) (w : Walk) (skipped : keySkipped w) :
    (stringRead body w).current = w.current ∧ Neutral (stringRead body w) := by
  unfold stringRead
  rcases skipped with one | two
  · rw [if_pos one]
    exact ⟨rfl, by simp [neutral_iff]⟩
  · rw [if_neg (by omega), if_pos two]
    exact ⟨rfl, by simp [neutral_iff]⟩

theorem close_current (outer w : Walk) (closing : UInt8) :
    (closeContainer outer w closing).current = outer.current ++ (w.current.dropLast ++ [closing]) := rfl

theorem close_neutral (outer w : Walk) (closing : UInt8) (neutral : Neutral w) :
    Neutral (closeContainer outer w closing) := neutral

-- A value other than a string never starts with a quote, whatever the state.
theorem value_first (value : Value) (w : Walk) (valid : value.wellFormed = true) (notString : isString value = false) :
    ∃ a more, (walkValue value w).current = w.current ++ a :: more ∧ a ≠ Json.quote := by
  have closes : ∀ (inner rest : Bytes) (opening closing : UInt8), inner = [opening] ++ rest → opening ≠ Json.quote →
      closing ≠ Json.quote → ∃ a more, w.current ++ (inner.dropLast ++ [closing]) = w.current ++ a :: more ∧
        a ≠ Json.quote := by
    intro inner rest opening closing shape openingNe closingNe
    cases rest with
    | nil => exact ⟨closing, [], by rw [shape]; rfl, closingNe⟩
    | cons c rest =>
        refine ⟨opening, (c :: rest).dropLast ++ [closing], ?_, openingNe⟩
        rw [shape, List.dropLast_append_of_ne_nil (by simp), List.append_assoc]
        rfl
  cases value with
  | primitive text =>
      cases shape : text with
      | nil => exact absurd shape (primitive_text_nonempty text valid)
      | cons c rest =>
          have byte := primitive_text_bytes text valid c (by rw [shape]; exact List.mem_cons_self ..)
          exact ⟨c, rest, rfl, primitive_byte_ne c _ byte (by decide)⟩
  | string body => cases notString
  | object members =>
      obtain ⟨rest, shape⟩ := members_extend members { w with current := [0x7b] }
      exact closes _ rest _ _ shape (by decide) (by decide)
  | array items =>
      obtain ⟨rest, shape⟩ := items_extend items { w with current := [0x5b] }
      exact closes _ rest _ _ shape (by decide) (by decide)

def Faithful (isClean : Bool) (w after : Walk) (expected : Bytes) : Prop :=
  (isClean = true ∧ after.current = w.current ++ expected ∧ Neutral after) ∨
    (isClean = false ∧ Diverge after.current (w.current ++ expected))

theorem faithful_after (isClean : Bool) (w middle after : Walk) (front expected : Bytes)
    (here : middle.current = w.current ++ front) (rest : Faithful isClean middle after expected) :
    Faithful isClean w after (front ++ expected) := by
  unfold Faithful at rest ⊢
  rw [here, List.append_assoc] at rest
  exact rest

theorem faithful_diverged (w after : Walk) (left right leftMore rightMore expected : Bytes)
    (diverge : Diverge left right) (current : after.current = left ++ leftMore)
    (shape : w.current ++ expected = right ++ rightMore) : Faithful false w after expected := by
  refine Or.inr ⟨rfl, ?_⟩
  rw [current, shape]
  exact diverge_append _ _ _ _ diverge

theorem object_faithful (members : Members) (w : Walk)
    (inside : Faithful (cleanMembers members) { w with current := [0x7b] }
      (walkMembers members { w with current := [0x7b] }) (trailedMembers (unsignedMembers members))) :
    Faithful (clean (.object members)) w (walkValue (.object members) w) (unsignedValue (.object members)).text := by
  unfold Faithful
  rw [walkValue, close_current, unsignedValue, clean]
  rcases inside with ⟨isClean, text, neutral⟩ | ⟨notClean, diverge⟩
  · cases empty : (unsignedMembers members).isNil with
    | false =>
        refine Or.inl ⟨by rw [isClean]; rfl, ?_, close_neutral _ _ _ neutral⟩
        rw [object_text_trailed _ empty, text]
        rfl
    | true =>
        cases kept : unsignedMembers members with
        | cons => rw [kept] at empty; cases empty
        | nil =>
            refine Or.inr ⟨by simp, diverge_behind _ _ _ ?_⟩
            rw [text, kept]
            exact ⟨[], Json.closeBrace, [], Json.openBrace, [Json.closeBrace], rfl, rfl, by decide, by decide, by decide,
              by simp⟩
  · have some : (unsignedMembers members).isNil = false := by
      cases kept : unsignedMembers members with
      | cons => rfl
      | nil =>
          obtain ⟨common, _, _, b, rest, _, right, _, _, _, more⟩ := diverge
          rw [kept] at right
          have lengths := congrArg List.length right
          have positive := List.length_pos_of_ne_nil more
          simp only [trailedMembers, List.append_nil, List.length_append, List.length_cons, List.length_nil] at lengths
          omega
    refine Or.inr ⟨by rw [notClean]; rfl, diverge_behind _ _ _ ?_⟩
    rw [object_text_trailed _ some]
    exact diverge_close _ _ _ diverge (Or.inl rfl)

theorem array_faithful (items : Items) (w : Walk)
    (inside : Faithful (cleanItems items) { w with current := [0x5b] }
      (walkItems items { w with current := [0x5b] }) (trailedItems (unsignedItems items))) :
    Faithful (clean (.array items)) w (walkValue (.array items) w) (unsignedValue (.array items)).text := by
  unfold Faithful
  rw [walkValue, close_current, unsignedValue, clean]
  cases items with
  | nil =>
      refine Or.inr ⟨rfl, diverge_behind _ _ _ ?_⟩
      exact ⟨[], Json.closeBracket, [], Json.openBracket, [Json.closeBracket], rfl, rfl, by decide, by decide, by decide,
        by simp⟩
  | cons value rest =>
      have some : (unsignedItems (.cons value rest)).isNil = false := rfl
      rw [array_text_trailed _ some]
      rcases inside with ⟨isClean, text, neutral⟩ | ⟨notClean, diverge⟩
      · refine Or.inl ⟨by rw [isClean]; rfl, ?_, close_neutral _ _ _ neutral⟩
        rw [text]
        rfl
      · refine Or.inr ⟨by rw [notClean]; rfl, diverge_behind _ _ _ ?_⟩
        exact diverge_close _ _ _ diverge (Or.inr rfl)

mutual
-- A signing word as a value writes nothing, so that the parting byte is the comma after it.
theorem value_faithful : ∀ (value : Value) (w : Walk), value.wellFormed = true → Neutral w →
    (clean value = true ∧ (walkValue value w).current = w.current ++ (unsignedValue value).text ∧
      Neutral (walkValue value w)) ∨
    (clean value = false ∧ Diverge ((walkValue value w).current ++ [Json.comma])
      (w.current ++ (unsignedValue value).text ++ [Json.comma]))
  | .primitive text, w, _, neutral => Or.inl ⟨rfl, rfl, neutral⟩
  | .string body, w, _, neutral => by
      have read := string_read_neutral body w neutral
      simp only [walkValue, unsignedValue, clean, Value.text]
      by_cases signing : isSigning body = true
      · rw [if_pos signing] at read
        refine Or.inr ⟨by rw [signing]; rfl, ?_⟩
        rw [read.1]
        exact ⟨w.current, Json.comma, [], Json.quote, body ++ [Json.quote] ++ [Json.comma], rfl, by simp [Json.quoted],
          by decide, by decide, by decide, by simp⟩
      · rw [if_neg signing] at read
        exact Or.inl ⟨by simpa using signing, read⟩
  | .object members, w, valid, neutral => by
      rcases object_faithful members w (members_faithful members { w with current := [0x7b] } valid neutral) with
        kept | ⟨notClean, diverge⟩
      · exact Or.inl kept
      · exact Or.inr ⟨notClean, diverge_append _ _ _ _ diverge⟩
  | .array items, w, valid, neutral => by
      rcases array_faithful items w (items_faithful items { w with current := [0x5b] } valid neutral) with
        kept | ⟨notClean, diverge⟩
      · exact Or.inl kept
      · exact Or.inr ⟨notClean, diverge_append _ _ _ _ diverge⟩

theorem members_faithful : ∀ (members : Members) (w : Walk), members.wellFormed = true → Neutral w →
    Faithful (cleanMembers members) w (walkMembers members w) (trailedMembers (unsignedMembers members))
  | .nil, w, _, neutral => Or.inl ⟨rfl, (List.append_nil _).symm, neutral⟩
  | .cons key value rest, w, valid, neutral => by
      simp only [Members.wellFormed, Bool.and_eq_true] at valid
      obtain ⟨⟨keyValid, valueValid⟩, restValid⟩ := valid
      obtain ⟨name, rfl, _⟩ := is_key_string key keyValid
      have keyRead := string_read_neutral name w neutral
      simp only [walkMembers, cleanMembers, unsignedMembers, signingKey, walkValue]
      by_cases signing : isSigning name = true
      · rw [if_pos signing] at keyRead
        obtain ⟨keyText, skipped⟩ := keyRead
        simp only [signing, if_true, Bool.true_and, separate, skipped]
        cases string : isString value with
        | true =>
            cases value with
            | string body =>
                obtain ⟨valueText, neutral⟩ := string_read_skipped body _ skipped
                simp only [if_true, Bool.true_and]
                refine faithful_after _ w _ _ [] _ ?_ (members_faithful rest _ restValid neutral)
                rw [walkValue, valueText, keyText, List.append_nil]
            | _ => cases string
        | false =>
            obtain ⟨a, more, valueText, notQuote⟩ := value_first value (stringRead name w) valueValid string
            obtain ⟨restMore, restText⟩ := members_extend rest (walkValue value (stringRead name w))
            simp only [Bool.false_eq_true, if_false, Bool.false_and]
            refine faithful_diverged w _ (w.current ++ a :: more) (w.current ++ (Value.string name).text) restMore
              (Json.colon :: ((unsignedValue value).text ++ Json.comma :: trailedMembers (unsignedMembers rest))) _
              ⟨w.current, a, more, Json.quote, name ++ [Json.quote], rfl, rfl, notQuote, by decide, by decide, by simp⟩
              ?_ ?_
            · rw [restText, valueText, keyText]
            · exact (List.append_assoc _ _ _).symm
      · rw [if_neg signing] at keyRead
        obtain ⟨keyText, kept⟩ := keyRead
        have notSkipped : ¬ keySkipped (stringRead name w) := kept
        simp only [signing, Bool.false_eq_true, if_false, Bool.false_and, separate, notSkipped, trailedMembers, unsignedValue]
        have colon : ((stringRead name w).strcat 0x3a).current = w.current ++ ((Value.string name).text ++ [Json.colon]) := by
          rw [Walk.strcat, keyText, List.append_assoc]
          rfl
        rcases value_faithful value ((stringRead name w).strcat 0x3a) valueValid kept with
          ⟨isClean, valueText, neutral⟩ | ⟨notClean, diverge⟩
        · rw [isClean, Bool.true_and]
          have restFaithful := members_faithful rest
            ((walkValue value ((stringRead name w).strcat 0x3a)).strcat 0x2c) restValid neutral
          have whole := faithful_after _ w _ _
            ((Value.string name).text ++ Json.colon :: ((unsignedValue value).text ++ [Json.comma])) _
            (by rw [Walk.strcat, valueText, colon]; simp) restFaithful
          simpa using whole
        · rw [notClean, Bool.false_and]
          obtain ⟨restMore, restText⟩ := members_extend rest
            ((walkValue value ((stringRead name w).strcat 0x3a)).strcat 0x2c)
          refine faithful_diverged w _ _ _ restMore (trailedMembers (unsignedMembers rest)) _ diverge restText ?_
          rw [colon]
          simp

theorem items_faithful : ∀ (items : Items) (w : Walk), items.wellFormed = true → Neutral w →
    Faithful (cleanItems items) w (walkItems items w) (trailedItems (unsignedItems items))
  | .nil, w, _, neutral => Or.inl ⟨rfl, (List.append_nil _).symm, neutral⟩
  | .cons value rest, w, valid, neutral => by
      simp only [Items.wellFormed, Bool.and_eq_true] at valid
      simp only [walkItems, cleanItems, unsignedItems, trailedItems]
      rcases value_faithful value w valid.1 neutral with ⟨isClean, valueText, neutral⟩ | ⟨notClean, diverge⟩
      · rw [isClean, Bool.true_and]
        have restFaithful := items_faithful rest ((walkValue value w).strcat 0x2c) valid.2 neutral
        have whole := faithful_after _ w _ _ ((unsignedValue value).text ++ [Json.comma]) _
          (by rw [Walk.strcat, valueText, List.append_assoc]) restFaithful
        simpa using whole
      · rw [notClean, Bool.false_and]
        obtain ⟨restMore, restText⟩ := items_extend rest ((walkValue value w).strcat 0x2c)
        refine faithful_diverged w _ _ _ restMore (trailedItems (unsignedItems rest)) _ diverge restText ?_
        simp
end

def RebuildsSigned (json : Bytes) (value : Value) : Prop :=
  ∀ prior stray : Bytes × Outputs, (parseInstructionJson json prior stray).rc = 0 ∧
    (parseInstructionJson json prior stray).originalJson = (unsignedValue value).text

theorem compact_document (value : Value) (valid : value.wellFormed = true) (fits : value.nodes ≤ 100) :
    document value.text = some value := by
  obtain ⟨read, rc⟩ := jsmn_document value.text 100 value [] value.text [] valid (Json.text_spells value) (by simp)
    Json.blank_nil Json.blank_nil fits
  have accepted : ¬ (jsmnParse value.text 100).rc < 0 := by rw [rc]; omega
  simp only [document, accepted, if_false, read]

theorem start_neutral (out : Outputs) : Neutral ⟨[], out, 0⟩ := by
  simp [neutral_iff]

theorem object_walk_faithful (members : Members) (valid : (Value.object members).wellFormed = true) (out : Outputs) :
    Faithful (clean (.object members)) ⟨[], out, 0⟩ (walkValue (.object members) ⟨[], out, 0⟩)
      (unsignedValue (.object members)).text :=
  object_faithful members ⟨[], out, 0⟩
    (members_faithful members { (⟨[], out, 0⟩ : Walk) with current := [0x7b] } valid (start_neutral out))

theorem clean_rebuilt (members : Members) (valid : (Value.object members).wellFormed = true)
    (fits : (Value.object members).nodes ≤ 100) (isClean : clean (.object members) = true) :
    RebuildsSigned (Value.object members).text (.object members) := by
  intro prior stray
  rw [parse_document (Value.object members).text prior stray (.object members) (compact_document _ valid fits)]
  refine ⟨rfl, ?_⟩
  rcases object_walk_faithful members valid prior.2 with ⟨_, text, _⟩ | ⟨notClean, _⟩
  · exact text
  · rw [isClean] at notClean
    cases notClean

theorem rebuilds_signed_iff (members : Members) (valid : (Value.object members).wellFormed = true)
    (fits : (Value.object members).nodes ≤ 100) :
    RebuildsSigned (Value.object members).text (.object members) ↔ clean (.object members) = true := by
  refine ⟨fun rebuilds => ?_, clean_rebuilt members valid fits⟩
  obtain ⟨_, text⟩ := rebuilds ([], ⟨[], [], [], []⟩) ([], ⟨[], [], [], []⟩)
  rw [parse_document _ _ _ (.object members) (compact_document _ valid fits)] at text
  rcases object_walk_faithful members valid ⟨[], [], [], []⟩ with ⟨isClean, _⟩ | ⟨_, diverge⟩
  · exact isClean
  · exact absurd text (diverge_ne _ _ diverge)

-- {"a":1,"hash":"5f"} becomes {"a":1}.
theorem signed_member_rebuilt :
    RebuildsSigned (ascii "\x7b\"a\":1,\"hash\":\"5f\"\x7d")
      (.object (.cons (.string (ascii "a")) (.primitive (ascii "1"))
        (.cons (.string (ascii "hash")) (.string (ascii "5f")) .nil))) := by
  have rebuilt := (rebuilds_signed_iff (.cons (.string (ascii "a")) (.primitive (ascii "1"))
    (.cons (.string (ascii "hash")) (.string (ascii "5f")) .nil)) (by decide) (by decide)).mpr (by decide)
  have text : ascii "\x7b\"a\":1,\"hash\":\"5f\"\x7d" = (Value.object (.cons (.string (ascii "a"))
    (.primitive (ascii "1")) (.cons (.string (ascii "hash")) (.string (ascii "5f")) .nil))).text := by decide
  rw [text]
  exact rebuilt

-- {"a":{}} becomes {"a":}}.
theorem empty_object_lost : (Value.object (.cons (.string (ascii "a")) (.object .nil) .nil)).wellFormed = true ∧
    (Value.object (.cons (.string (ascii "a")) (.object .nil) .nil)).text = ascii "\x7b\"a\":\x7b\x7d\x7d" ∧
    ¬ RebuildsSigned (ascii "\x7b\"a\":\x7b\x7d\x7d") (.object (.cons (.string (ascii "a")) (.object .nil) .nil)) := by
  refine ⟨by decide, by decide, ?_⟩
  intro rebuilds
  obtain ⟨_, text⟩ := rebuilds ([], ⟨[], [], [], []⟩) ([], ⟨[], [], [], []⟩)
  revert text
  decide +kernel

end Aliot
