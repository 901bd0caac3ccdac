import Mathlib.Data.List.Basic

set_option autoImplicit false

-- JSON texts as byte lists: strings keep their escapes, primitives their spelling, and a key is any value.
namespace Json

abbrev quote : UInt8 := 0x22
abbrev backslash : UInt8 := 0x5c
abbrev comma : UInt8 := 0x2c
abbrev colon : UInt8 := 0x3a
abbrev openBrace : UInt8 := 0x7b
abbrev closeBrace : UInt8 := 0x7d
abbrev openBracket : UInt8 := 0x5b
abbrev closeBracket : UInt8 := 0x5d

mutual
inductive Value where
  | primitive (text : List UInt8)
  | string (body : List UInt8)
  | object (members : Members)
  | array (items : Items)

inductive Members where
  | nil
  | cons (key value : Value) (rest : Members)

inductive Items where
  | nil
  | cons (value : Value) (rest : Items)
end

deriving instance DecidableEq for Value, Members, Items

-- Induction along a list of members or items, for statements that do not descend into the values.
@[elab_as_elim]
theorem Members.spine_induction {motive : Members → Prop} (nil : motive .nil)
    (cons : ∀ key value rest, motive rest → motive (.cons key value rest)) : ∀ members, motive members
  | .nil => nil
  | .cons key value rest => cons key value rest (Members.spine_induction nil cons rest)

@[elab_as_elim]
theorem Items.spine_induction {motive : Items → Prop} (nil : motive .nil)
    (cons : ∀ value rest, motive rest → motive (.cons value rest)) : ∀ items, motive items
  | .nil => nil
  | .cons value rest => cons value rest (Items.spine_induction nil cons rest)

def isSpace (byte : UInt8) : Bool := byte == 0x20 || byte == 0x09 || byte == 0x0a || byte == 0x0d

def isDigit (byte : UInt8) : Bool := 0x30 ≤ byte && byte ≤ 0x39

def isHex (byte : UInt8) : Bool := isDigit byte || (0x41 ≤ byte && byte ≤ 0x46) || (0x61 ≤ byte && byte ≤ 0x66)

def isEscape (byte : UInt8) : Bool :=
  byte == 0x22 || byte == 0x2f || byte == 0x5c || byte == 0x62 || byte == 0x66 || byte == 0x72 || byte == 0x6e ||
    byte == 0x74

-- The text between two quotes, with `hex` digits of a code point still to come.
def stringBody : Nat → List UInt8 → Bool
  | 0, [] => true
  | _ + 1, [] => false
  | hex + 1, byte :: rest => isHex byte && stringBody hex rest
  | 0, byte :: rest =>
      if byte = backslash then
        match rest with
        | [] => false
        | letter :: rest =>
            if isEscape letter then stringBody 0 rest
            else letter == 0x75 && stringBody 4 rest
      else byte != quote && 0x20 ≤ byte && stringBody 0 rest

def digits (text : List UInt8) : Bool := text != [] && text.all isDigit

def exponent : List UInt8 → Bool
  | [] => true
  | mark :: rest =>
      (mark == 0x65 || mark == 0x45) &&
        match rest with
        | 0x2b :: rest => digits rest
        | 0x2d :: rest => digits rest
        | rest => digits rest

def fraction : List UInt8 → Bool
  | 0x2e :: rest => digits (rest.takeWhile isDigit) && exponent (rest.dropWhile isDigit)
  | rest => exponent rest

def natural : List UInt8 → Bool
  | [0x30] => true
  | text => digits text && text.head? != some 0x30

def magnitude (text : List UInt8) : Bool := natural (text.takeWhile isDigit) && fraction (text.dropWhile isDigit)

def number : List UInt8 → Bool
  | 0x2d :: rest => magnitude rest
  | text => magnitude text

def decimal (text : List UInt8) : Nat := text.foldl (fun n byte => 10 * n + (byte.toNat - 48)) 0

-- The value of a number without fraction and exponent.
def integer : List UInt8 → Option Int
  | 0x2d :: rest => if natural rest then some (-(decimal rest : Int)) else none
  | text => if natural text then some (decimal text : Int) else none

def literals : List (List UInt8) :=
  [[0x74, 0x72, 0x75, 0x65], [0x66, 0x61, 0x6c, 0x73, 0x65], [0x6e, 0x75, 0x6c, 0x6c]]

def primitiveText (text : List UInt8) : Bool := literals.contains text || number text

def Value.isKey : Value → Bool
  | .string body => stringBody 0 body
  | _ => false

mutual
def Value.wellFormed : Value → Bool
  | .primitive text => primitiveText text
  | .string body => stringBody 0 body
  | .object members => members.wellFormed
  | .array items => items.wellFormed

def Members.wellFormed : Members → Bool
  | .nil => true
  | .cons key value rest => key.isKey && value.wellFormed && rest.wellFormed

def Items.wellFormed : Items → Bool
  | .nil => true
  | .cons value rest => value.wellFormed && rest.wellFormed
end

mutual
def Value.nodes : Value → Nat
  | .primitive _ => 1
  | .string _ => 1
  | .object members => members.nodes + 1
  | .array items => items.nodes + 1

def Members.nodes : Members → Nat
  | .nil => 0
  | .cons key value rest => key.nodes + value.nodes + rest.nodes

def Items.nodes : Items → Nat
  | .nil => 0
  | .cons value rest => value.nodes + rest.nodes
end

mutual
def Value.strings : Value → List (List UInt8)
  | .primitive _ => []
  | .string body => [body]
  | .object members => members.strings
  | .array items => items.strings

def Members.strings : Members → List (List UInt8)
  | .nil => []
  | .cons key value rest => key.strings ++ (value.strings ++ rest.strings)

def Items.strings : Items → List (List UInt8)
  | .nil => []
  | .cons value rest => value.strings ++ rest.strings
end

inductive Leaf where
  | primitive (text : List UInt8)
  | string (body : List UInt8)

def Leaf.text : Leaf → List UInt8
  | .primitive text => text
  | .string body => body

-- The primitives and strings in the order of the text.
mutual
def Value.leaves : Value → List Leaf
  | .primitive text => [.primitive text]
  | .string body => [.string body]
  | .object members => members.leaves
  | .array items => items.leaves

def Members.leaves : Members → List Leaf
  | .nil => []
  | .cons key value rest => key.leaves ++ (value.leaves ++ rest.leaves)

def Items.leaves : Items → List Leaf
  | .nil => []
  | .cons value rest => value.leaves ++ rest.leaves
end

def Value.stringIf : Value → Value → List UInt8 → List (List UInt8)
  | .string key, .string body, name => if key = name then [body] else []
  | _, _, _ => []

-- The string values of the members of that name, in the objects at any depth.
mutual
def Value.memberStrings (name : List UInt8) : Value → List (List UInt8)
  | .primitive _ => []
  | .string _ => []
  | .object members => members.memberStrings name
  | .array items => items.memberStrings name

def Members.memberStrings (name : List UInt8) : Members → List (List UInt8)
  | .nil => []
  | .cons key value rest => key.stringIf value name ++ (value.memberStrings name ++ rest.memberStrings name)

def Items.memberStrings (name : List UInt8) : Items → List (List UInt8)
  | .nil => []
  | .cons value rest => value.memberStrings name ++ rest.memberStrings name
end

def Members.isNil : Members → Bool
  | .nil => true
  | .cons .. => false

def Items.isNil : Items → Bool
  | .nil => true
  | .cons .. => false

def Members.length : Members → Nat
  | .nil => 0
  | .cons _ _ rest => rest.length + 1

def Items.length : Items → Nat
  | .nil => 0
  | .cons _ rest => rest.length + 1

def Members.append : Members → Members → Members
  | .nil, more => more
  | .cons key value rest, more => .cons key value (rest.append more)

def quoted (body : List UInt8) : List UInt8 := quote :: (body ++ [quote])

-- Members and items are listed with a comma before each; their container leaves out the first one.
mutual
def Value.text : Value → List UInt8
  | .primitive text => text
  | .string body => quoted body
  | .object members => openBrace :: (members.listed.tail ++ [closeBrace])
  | .array items => openBracket :: (items.listed.tail ++ [closeBracket])

def Members.listed : Members → List UInt8
  | .nil => []
  | .cons key value rest => comma :: (key.text ++ colon :: (value.text ++ rest.listed))

def Items.listed : Items → List UInt8
  | .nil => []
  | .cons value rest => comma :: (value.text ++ rest.listed)
end

def Blank (space : List UInt8) : Prop := ∀ byte ∈ space, isSpace byte = true

-- A text of the value with whitespace wherever JSON allows it.
mutual
def Value.Spells : Value → List UInt8 → Prop
  | .primitive text, spelled => spelled = text
  | .string body, spelled => spelled = quoted body
  | .object members, spelled =>
      ∃ inner, spelled = openBrace :: (inner ++ [closeBrace]) ∧
        (members = .nil ∧ Blank inner ∨ members.Lists (comma :: inner))
  | .array items, spelled =>
      ∃ inner, spelled = openBracket :: (inner ++ [closeBracket]) ∧
        (items = .nil ∧ Blank inner ∨ items.Lists (comma :: inner))

def Members.Lists : Members → List UInt8 → Prop
  | .nil, spelled => spelled = []
  | .cons key value rest, spelled =>
      ∃ before keyText afterKey beforeValue valueText after more,
        spelled = comma :: (before ++ keyText ++ afterKey ++ colon :: (beforeValue ++ valueText ++ after ++ more)) ∧
        Blank before ∧ Blank afterKey ∧ Blank beforeValue ∧ Blank after ∧
        key.Spells keyText ∧ value.Spells valueText ∧ rest.Lists more

def Items.Lists : Items → List UInt8 → Prop
  | .nil, spelled => spelled = []
  | .cons value rest, spelled =>
      ∃ before valueText after more,
        spelled = comma :: (before ++ valueText ++ after ++ more) ∧ Blank before ∧ Blank after ∧
        value.Spells valueText ∧ rest.Lists more
end

theorem blank_nil : Blank [] := by simp [Blank]

mutual
theorem text_spells : ∀ value : Value, value.Spells value.text
  | .primitive _ => rfl
  | .string _ => rfl
  | .object members => by
      refine ⟨members.listed.tail, rfl, ?_⟩
      cases members with
      | nil => exact Or.inl ⟨rfl, blank_nil⟩
      | cons key value rest => exact Or.inr (members_listed (.cons key value rest))
  | .array items => by
      refine ⟨items.listed.tail, rfl, ?_⟩
      cases items with
      | nil => exact Or.inl ⟨rfl, blank_nil⟩
      | cons value rest => exact Or.inr (items_listed (.cons value rest))

theorem members_listed : ∀ members : Members, members.Lists members.listed
  | .nil => rfl
  | .cons key value rest =>
      ⟨[], key.text, [], [], value.text, [], rest.listed, by simp [Members.listed],
        blank_nil, blank_nil, blank_nil, blank_nil, text_spells key, text_spells value, members_listed rest⟩

theorem items_listed : ∀ items : Items, items.Lists items.listed
  | .nil => rfl
  | .cons value rest =>
      ⟨[], value.text, [], rest.listed, by simp [Items.listed], blank_nil, blank_nil, text_spells value,
        items_listed rest⟩
end

theorem lists_append (members more : Members) (spelled spelledMore : List UInt8) (lists : members.Lists spelled)
    (listsMore : more.Lists spelledMore) : (members.append more).Lists (spelled ++ spelledMore) := by
  induction members using Members.spine_induction generalizing spelled with
  | nil =>
      rw [show spelled = [] from lists]
      exact listsMore
  | cons key value rest ih =>
      obtain ⟨before, keyText, afterKey, beforeValue, valueText, after, tail, text, blankBefore, blankAfterKey,
        blankBeforeValue, blankAfter, keySpells, valueSpells, tailLists⟩ := lists
      refine ⟨before, keyText, afterKey, beforeValue, valueText, after, tail ++ spelledMore, ?_, blankBefore, blankAfterKey,
        blankBeforeValue, blankAfter, keySpells, valueSpells, ih tail tailLists⟩
      rw [text]
      simp only [List.cons_append, List.append_assoc]

end Json
