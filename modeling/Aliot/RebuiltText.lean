import Aliot.SignedText

set_option autoImplicit false

namespace Aliot

open Json (Value Members Items)

mutual
def LexicalValue : Value → Prop
  | .primitive text => BareWord text
  | .string body => Quotable 0 body
  | .object members => LexicalMembers members
  | .array items => LexicalItems items

def LexicalMembers : Members → Prop
  | .nil => True
  | .cons key value rest => LexicalValue key ∧ LexicalValue value ∧ LexicalMembers rest

def LexicalItems : Items → Prop
  | .nil => True
  | .cons value rest => LexicalValue value ∧ LexicalItems rest
end

theorem lexical_inherited : Inherited LexicalValue LexicalMembers LexicalItems where
  object _ lexical := lexical
  array _ lexical := lexical
  noMember := trivial
  member _ _ _ key value rest := ⟨key, value, rest⟩
  noItem := trivial
  item _ _ value rest := ⟨value, rest⟩

theorem read_tree_lexical (js : Bytes) (tokens : List JsmnTok) (all : ∀ tok ∈ tokens, Lexical js tok)
    (fuel t used : Nat) (value : Value) (read : readTree js tokens fuel t = some (used, value)) : LexicalValue value := by
  refine read_tree_inherited lexical_inherited js tokens ?_ fuel t used value read
  intro tok listed
  exact ⟨fun type => ((all tok listed).primitive type).2, fun type => ((all tok listed).string type).2⟩

theorem document_lexical (json : Bytes) (value : Value) (read : document json = some value) : LexicalValue value := by
  obtain ⟨_, used, tree⟩ := document_read json value read
  exact read_tree_lexical json _ (jsmn_parse_lexical json 100) _ _ used value tree

mutual
theorem lexical_unsigned : ∀ value : Value, LexicalValue value → LexicalValue (unsignedValue value)
  | .primitive _, lexical => lexical
  | .string _, lexical => lexical
  | .object members, lexical => lexical_unsigned_members members lexical
  | .array items, lexical => lexical_unsigned_items items lexical

theorem lexical_unsigned_members : ∀ members : Members, LexicalMembers members →
    LexicalMembers (unsignedMembers members)
  | .nil, _ => trivial
  | .cons key value rest, ⟨keyLexical, valueLexical, restLexical⟩ => by
      unfold unsignedMembers
      split
      · exact lexical_unsigned_members rest restLexical
      · exact ⟨lexical_unsigned key keyLexical, lexical_unsigned value valueLexical,
          lexical_unsigned_members rest restLexical⟩

theorem lexical_unsigned_items : ∀ items : Items, LexicalItems items → LexicalItems (unsignedItems items)
  | .nil, _ => trivial
  | .cons value rest, ⟨valueLexical, restLexical⟩ =>
      ⟨lexical_unsigned value valueLexical, lexical_unsigned_items rest restLexical⟩
end

-- The text as the code writes it: an empty container loses its opening bracket.
mutual
def rebuilt : Value → Bytes
  | .primitive text => text
  | .string body => Json.quoted body
  | .object .nil => [Json.closeBrace]
  | .object (.cons key value rest) =>
      Json.openBrace :: (rebuilt key ++ Json.colon :: (rebuilt value ++ (rebuiltMembers rest ++ [Json.closeBrace])))
  | .array .nil => [Json.closeBracket]
  | .array (.cons value rest) =>
      Json.openBracket :: (rebuilt value ++ (rebuiltItems rest ++ [Json.closeBracket]))

def rebuiltMembers : Members → Bytes
  | .nil => []
  | .cons key value rest =>
      Json.comma :: (rebuilt key ++ Json.colon :: (rebuilt value ++ rebuiltMembers rest))

def rebuiltItems : Items → Bytes
  | .nil => []
  | .cons value rest => Json.comma :: (rebuilt value ++ rebuiltItems rest)
end

def firstByte : Value → Option UInt8
  | .primitive _ => none
  | .string _ => some Json.quote
  | .object .nil => some Json.closeBrace
  | .object (.cons ..) => some Json.openBrace
  | .array .nil => some Json.closeBracket
  | .array (.cons ..) => some Json.openBracket

theorem bare_first (text : Bytes) (word : BareWord text) : ∃ c rest, text = c :: rest ∧
    c ∉ [Json.quote, Json.openBrace, Json.closeBrace, Json.openBracket, Json.closeBracket] := by
  obtain ⟨bare, c, rest, rfl, notBrace, notBracket, notQuote⟩ := word
  have inside := bare c (List.mem_cons_self ..)
  have notCloseBrace : c ≠ Json.closeBrace := by rintro rfl; cases inside
  have notCloseBracket : c ≠ Json.closeBracket := by rintro rfl; cases inside
  refine ⟨c, rest, rfl, ?_⟩
  simp only [List.mem_cons, List.not_mem_nil, or_false, not_or]
  exact ⟨notQuote, notBrace, notCloseBrace, notBracket, notCloseBracket⟩

theorem rebuilt_first (value : Value) (lexical : LexicalValue value) : ∃ c rest, rebuilt value = c :: rest ∧
    firstByte value =
      if c ∈ [Json.quote, Json.openBrace, Json.closeBrace, Json.openBracket, Json.closeBracket] then some c else none := by
  cases value with
  | primitive text =>
      obtain ⟨c, rest, shape, outside⟩ := bare_first text lexical
      exact ⟨c, rest, shape, (if_neg outside).symm⟩
  | string body => exact ⟨_, _, rfl, rfl⟩
  | object members => cases members <;> exact ⟨_, _, rfl, rfl⟩
  | array items => cases items <;> exact ⟨_, _, rfl, rfl⟩

theorem first_byte_same (a b : Value) (left right : Bytes) (lexicalA : LexicalValue a) (lexicalB : LexicalValue b)
    (same : rebuilt a ++ left = rebuilt b ++ right) : firstByte a = firstByte b := by
  obtain ⟨c, rest, shapeA, firstA⟩ := rebuilt_first a lexicalA
  obtain ⟨d, rest', shapeB, firstB⟩ := rebuilt_first b lexicalB
  rw [shapeA, shapeB, List.cons_append, List.cons_append] at same
  obtain ⟨rfl, _⟩ := List.cons.inj same
  rw [firstA, firstB]

theorem primitive_unique (a b left right : Bytes) (wordA : BareWord a) (wordB : BareWord b) (delimitedLeft : Delimited left)
    (delimitedRight : Delimited right) (same : a ++ left = b ++ right) : a = b ∧ left = right := by
  have endA := primitive_end_complete a left 0 wordA.1 delimitedLeft
  rw [same, primitive_end_complete b right 0 wordB.1 delimitedRight] at endA
  have lengths := Except.ok.inj endA
  exact List.append_inj same (by omega)

theorem string_unique (a b left right : Bytes) (quotableA : Quotable 0 a) (quotableB : Quotable 0 b)
    (same : Json.quoted a ++ left = Json.quoted b ++ right) : a = b ∧ left = right := by
  simp only [Json.quoted, List.cons_append, List.append_assoc, List.cons.injEq, true_and, List.nil_append] at same
  have endA := string_end_complete 0 a left 0 quotableA
  rw [same, string_end_complete 0 b right 0 quotableB] at endA
  have lengths := Except.ok.inj endA
  obtain ⟨bodies, rests⟩ := List.append_inj same (by omega)
  exact ⟨bodies, (List.cons.inj rests).2⟩

theorem delimited_rebuilt_members (members : Members) (rest : Bytes) :
    Delimited (rebuiltMembers members ++ Json.closeBrace :: rest) := by
  cases members with
  | nil => exact delimited_cons _ _ rfl
  | cons => exact delimited_cons _ _ rfl

theorem delimited_rebuilt_items (items : Items) (rest : Bytes) :
    Delimited (rebuiltItems items ++ Json.closeBracket :: rest) := by
  cases items with
  | nil => exact delimited_cons _ _ rfl
  | cons => exact delimited_cons _ _ rfl

mutual
theorem rebuilt_unique : ∀ (a b : Value) (left right : Bytes), LexicalValue a → LexicalValue b → Delimited left →
    Delimited right → rebuilt a ++ left = rebuilt b ++ right → a = b ∧ left = right
  | .primitive text, b, left, right, lexicalA, lexicalB, delimitedLeft, delimitedRight, same => by
      have first := first_byte_same _ b left right lexicalA lexicalB same
      match b with
      | .primitive other =>
          obtain ⟨rfl, rest⟩ := primitive_unique text other left right lexicalA lexicalB delimitedLeft delimitedRight same
          exact ⟨rfl, rest⟩
      | .string _ | .object .nil | .object (.cons ..) | .array .nil | .array (.cons ..) => cases first
  | .string body, b, left, right, lexicalA, lexicalB, _, _, same => by
      have first := first_byte_same _ b left right lexicalA lexicalB same
      match b with
      | .string other =>
          obtain ⟨rfl, rest⟩ := string_unique body other left right lexicalA lexicalB same
          exact ⟨rfl, rest⟩
      | .primitive _ | .object .nil | .object (.cons ..) | .array .nil | .array (.cons ..) => cases first
  | .object .nil, b, left, right, lexicalA, lexicalB, _, _, same => by
      have first := first_byte_same _ b left right lexicalA lexicalB same
      match b with
      | .object .nil => exact ⟨rfl, (List.cons.inj same).2⟩
      | .primitive _ | .string _ | .object (.cons ..) | .array .nil | .array (.cons ..) => cases first
  | .array .nil, b, left, right, lexicalA, lexicalB, _, _, same => by
      have first := first_byte_same _ b left right lexicalA lexicalB same
      match b with
      | .array .nil => exact ⟨rfl, (List.cons.inj same).2⟩
      | .primitive _ | .string _ | .object .nil | .object (.cons ..) | .array (.cons ..) => cases first
  | .object (.cons key value rest), b, left, right, lexicalA, lexicalB, _, _, same => by
      have first := first_byte_same _ b left right lexicalA lexicalB same
      match b with
      | .object (.cons key' value' rest') =>
          simp only [rebuilt, List.cons_append, List.append_assoc, List.cons.injEq, true_and, List.nil_append] at same
          obtain ⟨members, after⟩ := members_unique (.cons key value rest) (.cons key' value' rest') left right lexicalA lexicalB
            (by simp only [rebuiltMembers, List.cons_append, List.append_assoc]; rw [same])
          exact ⟨congrArg Value.object members, after⟩
      | .primitive _ | .string _ | .object .nil | .array .nil | .array (.cons ..) => cases first
  | .array (.cons value rest), b, left, right, lexicalA, lexicalB, _, _, same => by
      have first := first_byte_same _ b left right lexicalA lexicalB same
      match b with
      | .array (.cons value' rest') =>
          simp only [rebuilt, List.cons_append, List.append_assoc, List.cons.injEq, true_and, List.nil_append] at same
          obtain ⟨items, after⟩ := items_unique (.cons value rest) (.cons value' rest') left right lexicalA lexicalB
            (by simp only [rebuiltItems, List.cons_append, List.append_assoc]; rw [same])
          exact ⟨congrArg Value.array items, after⟩
      | .primitive _ | .string _ | .object .nil | .object (.cons ..) | .array .nil => cases first

theorem members_unique : ∀ (a b : Members) (left right : Bytes), LexicalMembers a → LexicalMembers b →
    rebuiltMembers a ++ Json.closeBrace :: left = rebuiltMembers b ++ Json.closeBrace :: right → a = b ∧ left = right
  | .nil, .nil, _, _, _, _, same => ⟨rfl, (List.cons.inj same).2⟩
  | .nil, .cons .., _, _, _, _, same => by cases (List.cons.inj same).1
  | .cons .., .nil, _, _, _, _, same => by cases (List.cons.inj same).1
  | .cons key value rest, .cons key' value' rest', left, right, ⟨keyA, valueA, restA⟩, ⟨keyB, valueB, restB⟩, same => by
      simp only [rebuiltMembers, List.cons_append, List.append_assoc, List.cons.injEq, true_and] at same
      obtain ⟨rfl, afterKey⟩ := rebuilt_unique key key' _ _ keyA keyB (delimited_cons _ _ rfl)
        (delimited_cons _ _ rfl) same
      obtain ⟨rfl, afterValue⟩ := rebuilt_unique value value' _ _ valueA valueB (delimited_rebuilt_members rest left)
        (delimited_rebuilt_members rest' right) (List.cons.inj afterKey).2
      obtain ⟨rfl, after⟩ := members_unique rest rest' left right restA restB afterValue
      exact ⟨rfl, after⟩

theorem items_unique : ∀ (a b : Items) (left right : Bytes), LexicalItems a → LexicalItems b →
    rebuiltItems a ++ Json.closeBracket :: left = rebuiltItems b ++ Json.closeBracket :: right → a = b ∧ left = right
  | .nil, .nil, _, _, _, _, same => ⟨rfl, (List.cons.inj same).2⟩
  | .nil, .cons .., _, _, _, _, same => by cases (List.cons.inj same).1
  | .cons .., .nil, _, _, _, _, same => by cases (List.cons.inj same).1
  | .cons value rest, .cons value' rest', left, right, ⟨valueA, restA⟩, ⟨valueB, restB⟩, same => by
      simp only [rebuiltItems, List.cons_append, List.append_assoc, List.cons.injEq, true_and] at same
      obtain ⟨rfl, afterValue⟩ := rebuilt_unique value value' _ _ valueA valueB (delimited_rebuilt_items rest left)
        (delimited_rebuilt_items rest' right) same
      obtain ⟨rfl, after⟩ := items_unique rest rest' left right restA restB afterValue
      exact ⟨rfl, after⟩
end

def rebuiltEntries : Members → Bytes
  | .nil => []
  | .cons key value rest => rebuilt key ++ Json.colon :: (rebuilt value ++ Json.comma :: rebuiltEntries rest)

def rebuiltElements : Items → Bytes
  | .nil => []
  | .cons value rest => rebuilt value ++ Json.comma :: rebuiltElements rest

theorem rebuilt_entries (members : Members) :
    rebuiltMembers members ++ [Json.comma] = Json.comma :: rebuiltEntries members := by
  induction members using Members.spine_induction with
  | nil => rfl
  | cons key value rest ih => simp [rebuiltMembers, rebuiltEntries, ih]

theorem rebuilt_elements (items : Items) : rebuiltItems items ++ [Json.comma] = Json.comma :: rebuiltElements items := by
  induction items using Items.spine_induction with
  | nil => rfl
  | cons value rest ih => simp [rebuiltItems, rebuiltElements, ih]

theorem rebuilt_object (members : Members) :
    (Json.openBrace :: rebuiltEntries members).dropLast ++ [Json.closeBrace] = rebuilt (.object members) := by
  cases members with
  | nil => rfl
  | cons key value rest =>
      have closed := close_trailed Json.openBrace Json.closeBrace
        (rebuilt key ++ Json.colon :: (rebuilt value ++ rebuiltMembers rest))
      simp only [rebuilt, rebuiltEntries, ← rebuilt_entries]
      simpa using closed.symm

theorem rebuilt_array (items : Items) :
    (Json.openBracket :: rebuiltElements items).dropLast ++ [Json.closeBracket] = rebuilt (.array items) := by
  cases items with
  | nil => rfl
  | cons value rest =>
      have closed := close_trailed Json.openBracket Json.closeBracket (rebuilt value ++ rebuiltItems rest)
      simp only [rebuilt, rebuiltElements, ← rebuilt_elements]
      simpa using closed.symm

end Aliot
