import Mathlib.Data.Fintype.EquivFin
import Aliot.InstructionMembers
import Aliot.JsmnSteps
import Aliot.RebuiltText

set_option autoImplicit false

namespace Aliot

open Json (Value Members Items)

-- Signing words only as keys of string members.
mutual
def orderly : Value → Bool
  | .primitive _ => true
  | .string body => !isSigning body
  | .object members => orderlyMembers members
  | .array items => orderlyItems items

def orderlyMembers : Members → Bool
  | .nil => true
  | .cons key value rest => (if signingKey key then isString value else orderly key && orderly value) && orderlyMembers rest

def orderlyItems : Items → Bool
  | .nil => true
  | .cons value rest => orderly value && orderlyItems rest
end

-- The last string behind a word, and the last object or array behind an "instruction" as it is signed.
def lastBehind (word : Bytes) (value : Value) : Option Bytes := ((followers [] value.strings).filterMap (behind word)).getLast?

def lastInstruction (value : Value) : Option Value := (instructionsIn [] value).getLast?.map unsignedValue

theorem walk_keys (value : Value) (out : Outputs) :
    (walkValue value ⟨[], out, 0⟩).out.thingKey = (lastBehind (ascii "thing_key") value).getD out.thingKey ∧
      (walkValue value ⟨[], out, 0⟩).out.alertKey = (lastBehind (ascii "alert_key") value).getD out.alertKey := by
  have scan := (scan_value value ⟨[], out, 0⟩).trans (scan_followers [] value.strings _ rfl)
  exact ⟨congrArg Scan.thingKey scan, congrArg Scan.alertKey scan⟩

theorem last_word_append (word : Bytes) (strings more : List Bytes) :
    lastWord word (strings ++ more) = lastWord (lastWord word strings) more := by
  induction strings generalizing word with
  | nil => rfl
  | cons next rest ih => exact ih _

-- An orderly text loses its signing members, and nothing else.
mutual
theorem value_copied_as : ∀ (value : Value) (word : Bytes), orderly value = true → isSigning word = false →
    copiedText word value = rebuilt (unsignedValue value) ∧ isSigning (lastWord word value.strings) = false
  | .primitive _, _, _, plain => ⟨rfl, plain⟩
  | .string body, word, isOrderly, plain => by
      have unsigned : isSigning body = false := by simpa [orderly] using isOrderly
      have last : lastWord word (Value.string body).strings = if isSigning word then [] else body := rfl
      rw [copiedText, plain, unsigned, last, plain]
      exact ⟨rfl, unsigned⟩
  | .object members, word, isOrderly, plain => by
      obtain ⟨text, last⟩ := members_copied_as members word isOrderly plain
      rw [copiedText, text]
      exact ⟨rebuilt_object _, last⟩
  | .array items, word, isOrderly, plain => by
      obtain ⟨text, last⟩ := items_copied_as items word isOrderly plain
      rw [copiedText, text]
      exact ⟨rebuilt_array _, last⟩

theorem members_copied_as : ∀ (members : Members) (word : Bytes), orderlyMembers members = true → isSigning word = false →
    copiedMembers word members = rebuiltEntries (unsignedMembers members) ∧ isSigning (lastWord word members.strings) = false
  | .nil, _, _, plain => ⟨rfl, plain⟩
  | .cons key value rest, word, isOrderly, plain => by
      simp only [orderlyMembers, Bool.and_eq_true] at isOrderly
      obtain ⟨entry, others⟩ := isOrderly
      simp only [copiedMembers, Members.strings, last_word_append]
      cases signing : signingKey key with
      | true =>
          rw [signing, if_pos rfl] at entry
          cases key with
          | string name =>
              cases value with
              | string body =>
                  have named : lastWord word (Value.string name).strings = name := by
                    have last : lastWord word (Value.string name).strings = if isSigning word then [] else name := rfl
                    rw [last, plain, if_neg Bool.false_ne_true]
                  have isName : isSigning name = true := signing
                  have past : lastWord name (Value.string body).strings = [] := by
                    have last : lastWord name (Value.string body).strings = if isSigning name then [] else body := rfl
                    rw [last, isName, if_pos rfl]
                  obtain ⟨text, last⟩ := members_copied_as rest [] others rfl
                  rw [named, past, text]
                  refine ⟨?_, last⟩
                  simp [copiedText, plain, isName, unsignedMembers, signing, isString]
              | _ => cases entry
          | _ => cases signing
      | false =>
          rw [signing, if_neg Bool.false_ne_true, Bool.and_eq_true] at entry
          obtain ⟨name, past⟩ := value_copied_as key word entry.1 plain
          obtain ⟨content, after⟩ := value_copied_as value _ entry.2 past
          obtain ⟨text, last⟩ := members_copied_as rest _ others after
          refine ⟨?_, last⟩
          rw [name, content, text]
          simp [past, unsignedMembers, signing, rebuiltEntries]

theorem items_copied_as : ∀ (items : Items) (word : Bytes), orderlyItems items = true → isSigning word = false →
    copiedItems word items = rebuiltElements (unsignedItems items) ∧ isSigning (lastWord word items.strings) = false
  | .nil, _, _, plain => ⟨rfl, plain⟩
  | .cons value rest, word, isOrderly, plain => by
      simp only [orderlyItems, Bool.and_eq_true] at isOrderly
      simp only [copiedItems, Items.strings, last_word_append]
      obtain ⟨content, after⟩ := value_copied_as value word isOrderly.1 plain
      obtain ⟨text, last⟩ := items_copied_as rest _ isOrderly.2 after
      refine ⟨?_, last⟩
      rw [content, text]
      simp [unsignedItems, rebuiltElements]
end

-- The strings of a signing member come in an orderly text too, and are never copied as containers.
def Part (value : Value) : Prop := LexicalValue value ∧ (isString value = true ∨ orderly value = true)

def PartMembers (members : Members) : Prop := LexicalMembers members ∧ orderlyMembers members = true

theorem part_members (key value : Value) (rest : Members) (part : PartMembers (.cons key value rest)) :
    Part key ∧ Part value ∧ PartMembers rest := by
  obtain ⟨⟨nameLexical, contentLexical, restLexical⟩, isOrderly⟩ := part
  simp only [orderlyMembers, Bool.and_eq_true] at isOrderly
  obtain ⟨entry, others⟩ := isOrderly
  cases signing : signingKey key with
  | true =>
      rw [signing, if_pos rfl] at entry
      have name : isString key = true := by
        cases key with
        | string => rfl
        | _ => cases signing
      exact ⟨⟨nameLexical, .inl name⟩, ⟨contentLexical, .inl entry⟩, restLexical, others⟩
  | false =>
      rw [signing, if_neg Bool.false_ne_true, Bool.and_eq_true] at entry
      exact ⟨⟨nameLexical, .inr entry.1⟩, ⟨contentLexical, .inr entry.2⟩, restLexical, others⟩

mutual
theorem instructions_parts : ∀ (value : Value) (word : Bytes), Part value →
    ∀ container ∈ instructionsIn word value, LexicalValue container ∧ orderly container = true
  | .primitive _, _, _ => fun _ listed => nomatch listed
  | .string _, _, _ => fun _ listed => nomatch listed
  | .object members, word, ⟨lexical, isPart⟩ => by
      have isOrderly : orderly (.object members) = true := isPart.resolve_left Bool.false_ne_true
      intro container listed
      rcases List.mem_append.mp listed with inside | self
      · exact members_instructions_parts members word ⟨lexical, isOrderly⟩ container inside
      · split at self
        · rw [List.mem_singleton.mp self]
          exact ⟨lexical, isOrderly⟩
        · cases self
  | .array items, word, ⟨lexical, isPart⟩ => by
      have isOrderly : orderly (.array items) = true := isPart.resolve_left Bool.false_ne_true
      intro container listed
      rcases List.mem_append.mp listed with inside | self
      · exact items_instructions_parts items word lexical isOrderly container inside
      · split at self
        · rw [List.mem_singleton.mp self]
          exact ⟨lexical, isOrderly⟩
        · cases self

theorem members_instructions_parts : ∀ (members : Members) (word : Bytes), PartMembers members →
    ∀ container ∈ instructionsInMembers word members, LexicalValue container ∧ orderly container = true
  | .nil, _, _ => fun _ listed => nomatch listed
  | .cons key value rest, word, part => by
      obtain ⟨name, content, others⟩ := part_members key value rest part
      simp only [instructionsInMembers, List.mem_append]
      rintro container (inKey | inValue | behind)
      · exact instructions_parts key _ name container inKey
      · exact instructions_parts value _ content container inValue
      · exact members_instructions_parts rest _ others container behind

theorem items_instructions_parts : ∀ (items : Items) (word : Bytes), LexicalItems items → orderlyItems items = true →
    ∀ container ∈ instructionsInItems word items, LexicalValue container ∧ orderly container = true
  | .nil, _, _, _ => fun _ listed => nomatch listed
  | .cons value rest, word, ⟨lexical, others⟩, isOrderly => by
      simp only [orderlyItems, Bool.and_eq_true] at isOrderly
      simp only [instructionsInItems, List.mem_append]
      rintro container (inside | behind)
      · exact instructions_parts value _ ⟨lexical, .inr isOrderly.1⟩ container inside
      · exact items_instructions_parts rest _ others isOrderly.2 container behind
end

-- The walk over an orderly text.
theorem orderly_walk (value : Value) (out : Outputs) (lexical : LexicalValue value) (isOrderly : orderly value = true) :
    (walkValue value ⟨[], out, 0⟩).current = rebuilt (unsignedValue value) ∧
      (walkValue value ⟨[], out, 0⟩).out.instruction = ((lastInstruction value).map rebuilt).getD out.instruction := by
  constructor
  · rw [value_copied value [] ⟨[], out, 0⟩ rfl, (value_copied_as value [] isOrderly rfl).1]
    rfl
  · rw [instruction_read value [] ⟨[], out, 0⟩ rfl, lastInstruction, Option.map_map]
    cases found : (instructionsIn [] value).getLast? with
    | none => rfl
    | some container =>
        obtain ⟨_, isPart⟩ := instructions_parts value [] ⟨lexical, .inr isOrderly⟩ container (List.mem_of_getLast? found)
        exact (value_copied_as container (ascii "instruction") isPart (by decide)).1

theorem last_instruction_lexical (value : Value) (lexical : LexicalValue value) (isOrderly : orderly value = true) :
    ∀ container ∈ lastInstruction value, LexicalValue container := by
  intro container listed
  obtain ⟨inner, found, rfl⟩ := Option.map_eq_some_iff.mp listed
  exact lexical_unsigned inner
    (instructions_parts value [] ⟨lexical, .inr isOrderly⟩ inner (List.mem_of_getLast? found)).1

mutual
theorem unsigned_twice : ∀ value : Value, unsignedValue (unsignedValue value) = unsignedValue value
  | .primitive _ => rfl
  | .string _ => rfl
  | .object members => congrArg Value.object (unsigned_members_twice members)
  | .array items => congrArg Value.array (unsigned_items_twice items)

theorem unsigned_members_twice : ∀ members : Members, unsignedMembers (unsignedMembers members) = unsignedMembers members
  | .nil => rfl
  | .cons key value rest => by
      cases dropped : signingKey key && isString value with
      | true =>
          simp only [unsignedMembers, dropped, if_true]
          exact unsigned_members_twice rest
      | false =>
          have kept : (signingKey (unsignedValue key) && isString (unsignedValue value)) = false := by
            rw [← dropped]
            cases key <;> cases value <;> rfl
          simp only [unsignedMembers, dropped, kept, Bool.false_eq_true, if_false, unsigned_twice key, unsigned_twice value,
            unsigned_members_twice rest]

theorem unsigned_items_twice : ∀ items : Items, unsignedItems (unsignedItems items) = unsignedItems items
  | .nil => rfl
  | .cons value rest => congrArg₂ Items.cons (unsigned_twice value) (unsigned_items_twice rest)
end

-- No signing word is left in the signed part.
structure SignedPart (value : Value) : Prop where
  isOrderly : orderly value = true
  unsigned : ∀ body ∈ value.strings, isSigning body = false

structure SignedMembers (members : Members) : Prop where
  isOrderly : orderlyMembers members = true
  unsigned : ∀ body ∈ members.strings, isSigning body = false

structure SignedItems (items : Items) : Prop where
  isOrderly : orderlyItems items = true
  unsigned : ∀ body ∈ items.strings, isSigning body = false

theorem signing_key_string (key : Value) (plain : ∀ body ∈ key.strings, isSigning body = false) : signingKey key = false := by
  cases key with
  | string name => exact plain name List.mem_cons_self
  | _ => rfl

mutual
theorem signed_part : ∀ value : Value, orderly value = true → SignedPart (unsignedValue value)
  | .primitive _, _ => ⟨rfl, fun body listed => nomatch listed⟩
  | .string body, isOrderly => by
      refine ⟨isOrderly, fun other listed => ?_⟩
      obtain rfl := List.mem_singleton.mp listed
      simpa [orderly] using isOrderly
  | .object members, isOrderly =>
      have inside := signed_members members isOrderly
      ⟨inside.isOrderly, inside.unsigned⟩
  | .array items, isOrderly =>
      have inside := signed_items items isOrderly
      ⟨inside.isOrderly, inside.unsigned⟩

theorem signed_members : ∀ members : Members, orderlyMembers members = true → SignedMembers (unsignedMembers members)
  | .nil, _ => ⟨rfl, fun body listed => nomatch listed⟩
  | .cons key value rest, isOrderly => by
      simp only [orderlyMembers, Bool.and_eq_true] at isOrderly
      obtain ⟨entry, others⟩ := isOrderly
      have later := signed_members rest others
      cases signing : signingKey key with
      | true =>
          rw [signing, if_pos rfl] at entry
          simp only [unsignedMembers, signing, entry, Bool.and_self, if_true]
          exact later
      | false =>
          rw [signing, if_neg Bool.false_ne_true, Bool.and_eq_true] at entry
          have name := signed_part key entry.1
          have content := signed_part value entry.2
          simp only [unsignedMembers, signing, Bool.false_and, Bool.false_eq_true, if_false]
          refine ⟨?_, ?_⟩
          · rw [orderlyMembers, signing_key_string _ name.unsigned, if_neg Bool.false_ne_true, name.isOrderly, content.isOrderly,
              later.isOrderly]
            rfl
          · simp only [Members.strings, List.mem_append]
            rintro body (named | contained | behind)
            · exact name.unsigned body named
            · exact content.unsigned body contained
            · exact later.unsigned body behind

theorem signed_items : ∀ items : Items, orderlyItems items = true → SignedItems (unsignedItems items)
  | .nil, _ => ⟨rfl, fun body listed => nomatch listed⟩
  | .cons value rest, isOrderly => by
      simp only [orderlyItems, Bool.and_eq_true] at isOrderly
      have content := signed_part value isOrderly.1
      have later := signed_items rest isOrderly.2
      refine ⟨?_, ?_⟩
      · rw [unsignedItems, orderlyItems, content.isOrderly, later.isOrderly]
        rfl
      · simp only [unsignedItems, Items.strings, List.mem_append]
        rintro body (contained | behind)
        · exact content.unsigned body contained
        · exact later.unsigned body behind
end

mutual
theorem unsigned_formed : ∀ value : Value, value.wellFormed = true →
    (unsignedValue value).wellFormed = true ∧ (unsignedValue value).nodes ≤ value.nodes
  | .primitive _, valid => ⟨valid, Nat.le_refl _⟩
  | .string _, valid => ⟨valid, Nat.le_refl _⟩
  | .object members, valid =>
      have inside := unsigned_members_formed members valid
      ⟨inside.1, Nat.succ_le_succ inside.2⟩
  | .array items, valid =>
      have inside := unsigned_items_formed items valid
      ⟨inside.1, Nat.succ_le_succ inside.2⟩

theorem unsigned_members_formed : ∀ members : Members, members.wellFormed = true →
    (unsignedMembers members).wellFormed = true ∧ (unsignedMembers members).nodes ≤ members.nodes
  | .nil, _ => ⟨rfl, Nat.le_refl _⟩
  | .cons key value rest, valid => by
      simp only [Members.wellFormed, Bool.and_eq_true] at valid
      have later := unsigned_members_formed rest valid.2
      have content := unsigned_formed value valid.1.2
      cases dropped : signingKey key && isString value with
      | true =>
          simp only [unsignedMembers, dropped, if_true, Members.nodes]
          exact ⟨later.1, by omega⟩
      | false =>
          obtain ⟨name, rfl, _⟩ := is_key_string key valid.1.1
          simp only [unsignedMembers, dropped, Bool.false_eq_true, if_false, Members.wellFormed, Members.nodes, unsignedValue,
            valid.1.1, content.1, later.1, Bool.and_self, true_and]
          omega

theorem unsigned_items_formed : ∀ items : Items, items.wellFormed = true →
    (unsignedItems items).wellFormed = true ∧ (unsignedItems items).nodes ≤ items.nodes
  | .nil, _ => ⟨rfl, Nat.le_refl _⟩
  | .cons value rest, valid => by
      simp only [Items.wellFormed, Bool.and_eq_true] at valid
      have content := unsigned_formed value valid.1
      have later := unsigned_items_formed rest valid.2
      refine ⟨?_, ?_⟩
      · simp only [unsignedItems, Items.wellFormed, content.1, later.1, Bool.and_self]
      · simp only [unsignedItems, Items.nodes]
        omega
end

theorem signatures_unsigned (strings : List Bytes) (plain : ∀ body ∈ strings, isSigning body = false) : signatures strings = [] := by
  fun_induction signatures strings with
  | case1 => rfl
  | case2 => rfl
  | case3 next rest => exact absurd (plain _ List.mem_cons_self) (by decide)
  | case4 next rest => exact absurd (plain _ List.mem_cons_self) (by decide)
  | case5 word next rest _ _ ih => exact ih (fun body listed => plain body (List.mem_cons_of_mem _ listed))

theorem handler_arguments (getHmac : GetHmac) (secretKey : Bytes) (registeredThings : List Thing)
    (prior stray : Bytes × Outputs) (topic payload : Bytes) (call : HandlerCall)
    (called : call ∈ handleInstruction getHmac secretKey registeredThings prior stray topic payload) :
    call.thingKey = (parseInstructionJson (printed payload) prior stray).out.thingKey ∧
      call.alertKey = (parseInstructionJson (printed payload) prior stray).out.alertKey ∧
      call.instruction = (parseInstructionJson (printed payload) prior stray).out.instruction := by
  obtain ⟨accepted, same⟩ := handler_called _ _ _ _ _ _ _ call called
  simp only [handleInstruction, accepted, same, if_true, List.mem_map] at called
  obtain ⟨thing, _, rfl⟩ := called
  exact ⟨rfl, rfl, rfl⟩

-- Two runs hand the same to handlers as soon as the rebuilt texts are the same.
def DeterminedBySignedText (first second : Bytes) : Prop :=
  ∀ (getHmac : GetHmac) (secretKey : Bytes) (things otherThings : List Thing) (prior stray otherStray : Bytes × Outputs)
    (topic otherTopic : Bytes),
    (parseInstructionJson (printed first) prior stray).originalJson =
      (parseInstructionJson (printed second) prior otherStray).originalJson →
    ∀ call ∈ handleInstruction getHmac secretKey things prior stray topic first,
    ∀ other ∈ handleInstruction getHmac secretKey otherThings prior otherStray otherTopic second,
      call.thingKey = other.thingKey ∧ call.alertKey = other.alertKey ∧ call.instruction = other.instruction

-- Without the signing members the same stands behind the last word of each kind.
structure Unmoved (value : Value) : Prop where
  isOrderly : orderly value = true
  thingKey : lastBehind (ascii "thing_key") value = lastBehind (ascii "thing_key") (unsignedValue value)
  alertKey : lastBehind (ascii "alert_key") value = lastBehind (ascii "alert_key") (unsignedValue value)
  instruction : lastInstruction value = lastInstruction (unsignedValue value)

def Undisturbed (payload : Bytes) : Prop := ∃ value, document (printed payload) = some value ∧ Unmoved value

theorem rebuilt_same (x y : Option Value) (left : ∀ value ∈ x, LexicalValue value) (right : ∀ value ∈ y, LexicalValue value)
    (same : x.map rebuilt = y.map rebuilt) : x = y := by
  cases x with
  | none => exact (Option.map_eq_none_iff.mp same.symm).symm
  | some a =>
      obtain ⟨b, rfl, texts⟩ := Option.map_eq_some_iff.mp same.symm
      have unique := rebuilt_unique a b [] [] (left a rfl) (right b rfl) (by simp [Delimited]) (by simp [Delimited])
        (by rw [texts])
      rw [unique.1]

theorem signed_unmoved (value : Value) (isOrderly : orderly value = true) : Unmoved (unsignedValue value) := by
  refine ⟨(signed_part value isOrderly).isOrderly, ?_, ?_, ?_⟩
  · rw [unsigned_twice]
  · rw [unsigned_twice]
  · rw [unsigned_twice]

-- What an undisturbed payload makes of the buffers can be read off its signed part.
theorem undisturbed_outputs (value : Value) (out : Outputs) (lexical : LexicalValue value) (unmoved : Unmoved value) :
    (walkValue value ⟨[], out, 0⟩).out.thingKey = (lastBehind (ascii "thing_key") (unsignedValue value)).getD out.thingKey ∧
      (walkValue value ⟨[], out, 0⟩).out.alertKey = (lastBehind (ascii "alert_key") (unsignedValue value)).getD out.alertKey ∧
      (walkValue value ⟨[], out, 0⟩).out.instruction =
        ((lastInstruction (unsignedValue value)).map rebuilt).getD out.instruction := by
  obtain ⟨thingKey, alertKey⟩ := walk_keys value out
  have instruction := (orderly_walk value out lexical unmoved.isOrderly).2
  rw [unmoved.thingKey] at thingKey
  rw [unmoved.alertKey] at alertKey
  rw [unmoved.instruction] at instruction
  exact ⟨thingKey, alertKey, instruction⟩

theorem undisturbed_determined (first second : Bytes) (undisturbed : Undisturbed first) (alsoUndisturbed : Undisturbed second) :
    DeterminedBySignedText first second := by
  intro getHmac secretKey things otherThings prior stray otherStray topic otherTopic sameText call called other otherCalled
  obtain ⟨value, read, unmoved⟩ := undisturbed
  obtain ⟨value', read', unmoved'⟩ := alsoUndisturbed
  obtain ⟨thingKey, alertKey, instruction⟩ := handler_arguments _ _ _ _ _ _ _ call called
  obtain ⟨thingKey', alertKey', instruction'⟩ := handler_arguments _ _ _ _ _ _ _ other otherCalled
  rw [parse_document _ prior stray value read] at sameText thingKey alertKey instruction
  rw [parse_document _ prior otherStray value' read'] at sameText thingKey' alertKey' instruction'
  have lexical := document_lexical _ value read
  have lexical' := document_lexical _ value' read'
  have text := (orderly_walk value prior.2 lexical unmoved.isOrderly).1
  have text' := (orderly_walk value' prior.2 lexical' unmoved'.isOrderly).1
  obtain ⟨signed, _⟩ := rebuilt_unique (unsignedValue value) (unsignedValue value') [] [] (lexical_unsigned value lexical)
    (lexical_unsigned value' lexical') (by simp [Delimited]) (by simp [Delimited])
    (congrArg (· ++ []) ((text.symm.trans sameText).trans text'))
  have out := undisturbed_outputs value prior.2 lexical unmoved
  have out' := undisturbed_outputs value' prior.2 lexical' unmoved'
  rw [← signed] at out'
  exact ⟨thingKey.trans (out.1.trans (out'.1.symm.trans thingKey'.symm)),
    alertKey.trans (out.2.1.trans (out'.2.1.symm.trans alertKey'.symm)),
    instruction.trans (out.2.2.trans (out'.2.2.symm.trans instruction'.symm))⟩

theorem handler_called_with (hash : Bytes) (prior stray : Bytes × Outputs) (payload : Bytes)
    (accepted : (parseInstructionJson (printed payload) prior stray).rc ≥ 0)
    (same : (parseInstructionJson (printed payload) prior stray).out.hash = hash) :
    ∃ call ∈ handleInstruction (fun _ _ => hash) [] [⟨0, [], none⟩] prior stray [] payload,
      call.thingKey = (parseInstructionJson (printed payload) prior stray).out.thingKey ∧
        call.alertKey = (parseInstructionJson (printed payload) prior stray).out.alertKey ∧
        call.instruction = (parseInstructionJson (printed payload) prior stray).out.instruction := by
  obtain ⟨call, called⟩ := handler_reached hash prior stray payload accepted same
  exact ⟨call, called, handler_arguments _ _ _ _ _ _ _ call called⟩

theorem document_nodes (json : Bytes) (value : Value) (read : document json = some value) : value.nodes ≤ 100 := by
  obtain ⟨accepted, used, tree⟩ := document_read json value read
  have bound := read_tree_bound json _ _ 0 used value tree
  have counted := read_tree_nodes json _ _ 0 used value tree
  have within := parse_within json 100 (Int.not_lt.mp accepted)
  omega

-- The signed part of a well formed text is a payload too.
theorem signed_payload (value : Value) (valid : value.wellFormed = true) (fits : value.nodes ≤ 100) :
    document (printed (unsignedValue value).text) = some (unsignedValue value) := by
  obtain ⟨formed, fewer⟩ := unsigned_formed value valid
  rw [printed_of_nul_free _ (spelled_nul_free _ _ formed (Json.text_spells _))]
  exact compact_document _ formed (fewer.trans fits)

theorem getD_all {α : Type} [Infinite α] (x y : Option α) (same : ∀ default, x.getD default = y.getD default) : x = y := by
  classical
  obtain ⟨default, outside⟩ := Infinite.exists_notMem_finset (x.toList ++ y.toList).toFinset
  simp only [List.mem_toFinset, List.mem_append, not_or] at outside
  have found := same default
  cases x with
  | none =>
      cases y with
      | none => rfl
      | some b =>
          obtain rfl : default = b := found
          exact absurd List.mem_cons_self outside.2
  | some a =>
      cases y with
      | none =>
          obtain rfl : a = default := found
          exact absurd List.mem_cons_self outside.1
      | some b => exact congrArg some found

section Exact

variable (payload : Bytes) (value : Value) (read : document (printed payload) = some value) (valid : value.wellFormed = true)
  (isOrderly : orderly value = true)

include read valid isOrderly in
-- Against the payload that is left without the signing members, with a server_hash that passes in both.
theorem determined_outputs (determined : DeterminedBySignedText payload (unsignedValue value).text) (out : Outputs) :
    (walkValue value ⟨[], { out with hash := (signatures value.strings).getLast?.getD [] }, 0⟩).out.thingKey =
        (lastBehind (ascii "thing_key") (unsignedValue value)).getD out.thingKey ∧
      (walkValue value ⟨[], { out with hash := (signatures value.strings).getLast?.getD [] }, 0⟩).out.alertKey =
        (lastBehind (ascii "alert_key") (unsignedValue value)).getD out.alertKey ∧
      (walkValue value ⟨[], { out with hash := (signatures value.strings).getLast?.getD [] }, 0⟩).out.instruction =
        ((lastInstruction (unsignedValue value)).map rebuilt).getD out.instruction := by
  generalize hash : (signatures value.strings).getLast?.getD [] = server
  have signed := signed_payload value valid (document_nodes _ value read)
  have parsed := parse_document _ ([], { out with hash := server }) ([], ⟨[], [], [], []⟩) value read
  have parsed' := parse_document _ ([], { out with hash := server }) ([], ⟨[], [], [], []⟩) _ signed
  have passes := walk_hash value { out with hash := server }
  have passes' := walk_hash (unsignedValue value) { out with hash := server }
  rw [signatures_unsigned _ (signed_part value isOrderly).unsigned] at passes'
  have own : ((signatures value.strings).getLast?).getD server = server := by
    rw [← hash]
    cases (signatures value.strings).getLast? <;> rfl
  obtain ⟨call, called, thingKey, alertKey, instruction⟩ := handler_called_with server ([], { out with hash := server })
    ([], ⟨[], [], [], []⟩) payload (by rw [parsed]) (by rw [parsed]; exact passes.trans own)
  obtain ⟨other, otherCalled, thingKey', alertKey', instruction'⟩ := handler_called_with server ([], { out with hash := server })
    ([], ⟨[], [], [], []⟩) (unsignedValue value).text (by rw [parsed']) (by rw [parsed']; exact passes')
  have unmoved := signed_unmoved value isOrderly
  have lexical := document_lexical _ value read
  have lexical' := lexical_unsigned value lexical
  have text := (orderly_walk value { out with hash := server } lexical isOrderly).1
  have text' := (orderly_walk (unsignedValue value) { out with hash := server } lexical' unmoved.isOrderly).1
  rw [unsigned_twice] at text'
  obtain ⟨sameThing, sameAlert, sameInstruction⟩ := determined _ _ _ _ _ _ _ _ _
    (by rw [parsed, parsed']; exact text.trans text'.symm) call called other otherCalled
  have outputs := undisturbed_outputs (unsignedValue value) { out with hash := server } lexical' unmoved
  rw [unsigned_twice] at outputs
  rw [parsed] at thingKey alertKey instruction
  rw [parsed'] at thingKey' alertKey' instruction'
  exact ⟨thingKey.symm.trans (sameThing.trans (thingKey'.trans outputs.1)),
    alertKey.symm.trans (sameAlert.trans (alertKey'.trans outputs.2.1)),
    instruction.symm.trans (sameInstruction.trans (instruction'.trans outputs.2.2))⟩

include read valid isOrderly in
theorem determined_undisturbed (determined : ∀ other, Undisturbed other → DeterminedBySignedText payload other) :
    Undisturbed payload := by
  have signed := signed_payload value valid (document_nodes _ value read)
  have outputs := determined_outputs payload value read valid isOrderly
    (determined _ ⟨_, signed, signed_unmoved value isOrderly⟩)
  have keys := fun out : Outputs => walk_keys value { out with hash := (signatures value.strings).getLast?.getD [] }
  refine ⟨value, read, ⟨isOrderly, ?_, ?_, ?_⟩⟩
  · exact getD_all _ _ (fun key => (keys ⟨[], key, [], []⟩).1.symm.trans (outputs ⟨[], key, [], []⟩).1)
  · exact getD_all _ _ (fun key => (keys ⟨[], [], key, []⟩).2.symm.trans (outputs ⟨[], [], key, []⟩).2.1)
  · have lexical := document_lexical _ value read
    refine rebuilt_same _ _ (last_instruction_lexical value lexical isOrderly)
      (last_instruction_lexical _ (lexical_unsigned value lexical) (signed_part value isOrderly).isOrderly) (getD_all _ _ (fun text => ?_))
    have walked := (orderly_walk value ⟨(signatures value.strings).getLast?.getD [], [], [], text⟩ lexical isOrderly).2
    exact walked.symm.trans (outputs ⟨[], [], [], text⟩).2.2

end Exact

-- The second part says that the condition leaves out no well formed payload without need.
theorem handler_arguments_determined (payload : Bytes) :
    (Undisturbed payload → ∀ other, Undisturbed other → DeterminedBySignedText payload other) ∧
      ∀ value, document (printed payload) = some value → value.wellFormed = true → orderly value = true →
        ((∀ other, Undisturbed other → DeterminedBySignedText payload other) ↔ Undisturbed payload) :=
  have determined := fun undisturbed other alsoUndisturbed =>
    undisturbed_determined payload other undisturbed alsoUndisturbed
  ⟨determined, fun value read valid isOrderly =>
    ⟨determined_undisturbed payload value read valid isOrderly, determined⟩⟩

theorem unmoved_iff (value : Value) :
    (orderly value = true ∧ lastBehind (ascii "thing_key") value = lastBehind (ascii "thing_key") (unsignedValue value) ∧
      lastBehind (ascii "alert_key") value = lastBehind (ascii "alert_key") (unsignedValue value) ∧
      lastInstruction value = lastInstruction (unsignedValue value)) ↔ Unmoved value :=
  ⟨fun ⟨isOrderly, thingKey, alertKey, instruction⟩ => ⟨isOrderly, thingKey, alertKey, instruction⟩,
    fun same => ⟨same.isOrderly, same.thingKey, same.alertKey, same.instruction⟩⟩

instance : DecidablePred Unmoved := fun value => decidable_of_iff _ (unmoved_iff value)

theorem undisturbed_of_unmoved (payload : Bytes)
    (checked : (document (printed payload)).any (fun value => decide (Unmoved value)) = true) : Undisturbed payload := by
  obtain ⟨value, read, same⟩ := (Option.any_eq_true _ _).mp checked
  exact ⟨value, read, of_decide_eq_true same⟩

-- A hash behind a pending instruction may as well come last.
theorem hash_moved_behind : DeterminedBySignedText (ascii "\x7b\"instruction\":\x7b\"hash\":\"5f\",\"on\":1\x7d\x7d")
    (ascii "\x7b\"instruction\":\x7b\"on\":1,\"hash\":\"5f\"\x7d\x7d") :=
  (handler_arguments_determined (ascii "\x7b\"instruction\":\x7b\"hash\":\"5f\",\"on\":1\x7d\x7d")).1
    (undisturbed_of_unmoved _ (by decide +kernel)) _ (undisturbed_of_unmoved _ (by decide +kernel))

-- {"thing_key":1,"hash":"5f","a":"b"} gives the thing key hash, {"thing_key":1,"a":"b","hash":"5f"} gives a.
theorem hash_taken_for_thing_key : ¬ DeterminedBySignedText
    (ascii "\x7b\"thing_key\":1,\"hash\":\"5f\",\"a\":\"b\"\x7d")
    (ascii "\x7b\"thing_key\":1,\"a\":\"b\",\"hash\":\"5f\"\x7d") := by
  intro determined
  have same := determined (fun _ _ => ascii "5f") [] [⟨0, [], none⟩] [⟨0, [], none⟩] ([], ⟨[], [], [], []⟩) ([], ⟨[], [], [], []⟩)
    ([], ⟨[], [], [], []⟩) [] [] (by decide +kernel) ⟨⟨0, [], none⟩, ascii "hash", [], []⟩ (by decide +kernel)
    ⟨⟨0, [], none⟩, ascii "a", [], []⟩ (by decide +kernel)
  revert same
  decide

end Aliot
