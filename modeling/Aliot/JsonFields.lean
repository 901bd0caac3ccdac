import Aliot.JsonNumber
import Aliot.JsonText

set_option autoImplicit false

namespace Json

-- What a member is written from: an integer, a string put between quotes as it is, or a JSON text put in as it is.
inductive Given where
  | number (n : Int)
  | text (given : List UInt8)
  | json (given : List UInt8)

def Given.spelled : Given → List UInt8
  | .number n => intText n
  | .text given => quoted given
  | .json given => given

def Given.isJson : Given → Bool
  | .json _ => true
  | _ => false

def Padded (value : Value) (text : List UInt8) : Prop :=
  ∃ space spelled after, text = space ++ spelled ++ after ∧ Blank space ∧ Blank after ∧ value.Spells spelled

def IsJson (text : List UInt8) : Prop := ∃ value, Padded value text ∧ value.wellFormed = true

def Value.Gives : Given → Value → Prop
  | .number n, .primitive text => integer text = some n
  | .text given, .string body => unescape body = given
  | .json given, value => Padded value given
  | _, _ => False

abbrev Fields := List (List UInt8 × Given)

def fieldsListed : Fields → List UInt8
  | [] => []
  | (name, given) :: fields => comma :: (quoted name ++ colon :: (given.spelled ++ fieldsListed fields))

def fieldsText (fields : Fields) : List UInt8 := openBrace :: ((fieldsListed fields).tail ++ [closeBrace])

-- Member by member, the given names with the given values.
def Members.Gives : Fields → Members → Prop
  | [], .nil => True
  | (name, given) :: fields, .cons (.string key) value rest => unescape key = name ∧ value.Gives given ∧ rest.Gives fields
  | _, _ => False

def Members.pairs : Members → List (Value × Value)
  | .nil => []
  | .cons key value rest => (key, value) :: rest.pairs

-- A member whose name stands for `name`.
def Members.Named (members : Members) (name : List UInt8) (value : Value) : Prop :=
  ∃ key, (.string key, value) ∈ members.pairs ∧ unescape key = name

def Value.name : Value → List UInt8
  | .string body => unescape body
  | _ => []

def Members.names (members : Members) : List (List UInt8) := members.pairs.map (fun member => member.1.name)

-- No two members of an object have one name.
mutual
def Value.distinct : Value → Bool
  | .primitive _ => true
  | .string _ => true
  | .object members => decide members.names.Nodup && members.distinct
  | .array items => items.distinct

def Members.distinct : Members → Bool
  | .nil => true
  | .cons _ value rest => value.distinct && rest.distinct

def Items.distinct : Items → Bool
  | .nil => true
  | .cons value rest => value.distinct && rest.distinct
end

def Given.Sound : Given → Prop
  | .json given => IsJson given
  | _ => True

def Given.Plain : Given → Prop
  | .text given => plain given = true
  | _ => True

-- Plain names, and JSON where it is put in.
def Proper (fields : Fields) : Prop := ∀ field ∈ fields, plain field.1 = true ∧ field.2.Sound

def AllPlain (fields : Fields) : Prop := ∀ field ∈ fields, field.2.Plain

theorem text_padded (value : Value) : Padded value value.text :=
  ⟨[], value.text, [], (List.append_nil _).symm, blank_nil, blank_nil, text_spells value⟩

theorem given_value (given : Given) (sound : given.Sound) (isPlain : given.Plain) :
    ∃ (value : Value) (spelled before after : List UInt8), given.spelled = before ++ spelled ++ after ∧ Blank before ∧ Blank after ∧
      value.Spells spelled ∧ value.wellFormed = true ∧ value.Gives given := by
  cases given with
  | number n =>
      have value := integer_int_text n
      exact ⟨.primitive (intText n), intText n, [], [], by simp [Given.spelled], blank_nil, blank_nil, rfl,
        integer_primitive _ n value, value⟩
  | text given =>
      exact ⟨.string given, quoted given, [], [], by simp [Given.spelled], blank_nil, blank_nil, rfl,
        plain_string_body given isPlain, unescape_plain given isPlain⟩
  | json given =>
      obtain ⟨value, ⟨space, spelled, after, text, blank, blankAfter, spells⟩, valid⟩ := sound
      exact ⟨value, spelled, space, after, text, blank, blankAfter, spells, valid, space, spelled, after, text, blank,
        blankAfter, spells⟩

theorem fields_given (fields : Fields) (proper : Proper fields) (allPlain : AllPlain fields) :
    ∃ members : Members, members.Lists (fieldsListed fields) ∧ members.wellFormed = true ∧ members.Gives fields := by
  induction fields with
  | nil => exact ⟨.nil, rfl, rfl, trivial⟩
  | cons field fields ih =>
      obtain ⟨name, given⟩ := field
      obtain ⟨⟨namePlain, sound⟩, proper⟩ := List.forall_mem_cons.mp proper
      obtain ⟨givenPlain, allPlain⟩ := List.forall_mem_cons.mp allPlain
      obtain ⟨rest, lists, valid, gives⟩ := ih proper allPlain
      obtain ⟨value, spelled, before, after, text, blank, blankAfter, spells, valueValid, valueGives⟩ :=
        given_value given sound givenPlain
      have keyValid := plain_string_body name namePlain
      refine ⟨.cons (.string name) value rest, ?_, ?_, unescape_plain name namePlain, valueGives, gives⟩
      · refine ⟨[], quoted name, [], before, spelled, after, fieldsListed fields, ?_, blank_nil, blank_nil, blank, blankAfter,
          rfl, spells, lists⟩
        simp only [fieldsListed, text, List.nil_append, List.append_nil, List.append_assoc]
      · simp only [Members.wellFormed, Value.isKey, keyValid, valueValid, valid, Bool.and_self]

theorem blank_before (space rest more : List UInt8) (byte : UInt8) (blank : Blank space) (visible : isSpace byte = false)
    (same : space ++ rest = byte :: more) : rest = byte :: more := by
  cases space with
  | nil => exact same
  | cons first space =>
      have isBlank := blank first List.mem_cons_self
      rw [(List.cons.inj same).1, visible] at isBlank
      cases isBlank

theorem blank_behind (front space more : List UInt8) (byte : UInt8) (blank : Blank space) (visible : isSpace byte = false)
    (same : front ++ space = more ++ [byte]) : front = more ++ [byte] := by
  have reversed := congrArg List.reverse same
  rw [List.reverse_append, List.reverse_append, List.reverse_singleton, List.singleton_append] at reversed
  have blankReversed : Blank space.reverse := fun first listed => blank first (List.mem_reverse.mp listed)
  have trimmed := blank_before space.reverse front.reverse more.reverse byte blankReversed visible reversed
  simpa using congrArg List.reverse trimmed

theorem padded_braces (value : Value) (inner : List UInt8) (padded : Padded value (openBrace :: (inner ++ [closeBrace]))) :
    value.Spells (openBrace :: (inner ++ [closeBrace])) := by
  obtain ⟨space, spelled, after, same, blank, blankAfter, spells⟩ := padded
  have front := blank_before space (spelled ++ after) (inner ++ [closeBrace]) openBrace blank rfl
    (by rw [← List.append_assoc]; exact same.symm)
  have whole := blank_behind spelled after (openBrace :: inner) closeBrace blankAfter rfl front
  rw [List.cons_append] at whole
  exact whole ▸ spells

theorem listed_starts (fields : Fields) : fieldsListed fields = [] ∨ ∃ rest, fieldsListed fields = comma :: rest := by
  cases fields with
  | nil => exact .inl rfl
  | cons field fields => exact .inr ⟨_, rfl⟩

theorem listed_behind (fields : Fields) (space more : List UInt8) (blank : Blank space)
    (same : fieldsListed fields = space ++ more) : fieldsListed fields = more := by
  rcases listed_starts fields with none | ⟨rest, starts⟩
  · rw [none] at same ⊢
    exact (List.append_eq_nil_iff.mp same.symm).2.symm
  · rw [starts] at same ⊢
    exact (blank_before space more rest comma blank rfl same.symm).symm

theorem ends_integer_fields (fields : Fields) : EndsInteger (fieldsListed fields) := by
  rcases listed_starts fields with none | ⟨rest, starts⟩
  · rw [none]
    exact fun byte first => nomatch first
  · rw [starts]
    exact ends_integer_cons comma rest rfl

theorem space_not_integer (byte : UInt8) (blank : isSpace byte = true) : isIntegerByte byte = false := by
  simp only [isSpace, Bool.or_eq_true, beq_iff_eq] at blank
  rcases blank with ((rfl | rfl) | rfl) | rfl <;> rfl

theorem ends_integer_members (space more : List UInt8) (members : Members) (blank : Blank space) (lists : members.Lists more) :
    EndsInteger (space ++ more) := by
  cases space with
  | cons byte space => exact ends_integer_cons byte _ (space_not_integer byte (blank byte List.mem_cons_self))
  | nil =>
      cases members with
      | nil =>
          obtain rfl : more = [] := lists
          exact fun byte first => nomatch first
      | cons key value rest =>
          obtain ⟨_, _, _, _, _, _, _, rfl, _⟩ := lists
          exact ends_integer_cons comma _ rfl

theorem int_text_visible (n : Int) : ∃ byte rest, intText n = byte :: rest ∧ isSpace byte = false := by
  have value := integer_int_text n
  cases text : intText n with
  | nil =>
      rw [text] at value
      cases value
  | cons byte rest =>
      refine ⟨byte, rest, rfl, ?_⟩
      have isInteger := integer_bytes _ n value byte (text ▸ List.mem_cons_self)
      by_contra blank
      rw [space_not_integer byte (Bool.not_eq_false _ ▸ blank)] at isInteger
      cases isInteger

theorem integer_read (space text after more : List UInt8) (n : Int) (fields : Fields) (members : Members) (blank : Blank space)
    (isInteger : integer text = some n) (blankAfter : Blank after) (lists : members.Lists more)
    (same : intText n ++ fieldsListed fields = space ++ (text ++ (after ++ more))) : fieldsListed fields = after ++ more := by
  obtain ⟨byte, rest, starts, visible⟩ := int_text_visible n
  rw [starts, List.cons_append] at same
  have front := blank_before space _ _ byte blank visible same.symm
  rw [← List.cons_append, ← starts] at front
  exact integer_back _ _ _ _ n n (integer_int_text n) isInteger (ends_integer_fields fields)
    (ends_integer_members after more members blankAfter lists) front.symm

theorem quoted_append (body rest : List UInt8) : quoted body ++ rest = quote :: (body ++ quote :: rest) := by
  simp only [quoted, List.cons_append, List.append_assoc, List.nil_append]

-- A string behind blanks that is read as the given one.
theorem quoted_read (space body given rest after : List UInt8) (blank : Blank space) (valid : stringBody 0 body = true)
    (back : unescape body = given) (same : quoted given ++ rest = space ++ (quoted body ++ after)) :
    plain given = true ∧ rest = after := by
  rw [quoted_append] at same
  have front := blank_before space (quoted body ++ after) _ quote blank rfl same.symm
  rw [quoted_append] at front
  obtain ⟨isPlain, _, behind⟩ := quoted_back body given rest after valid back (List.cons.inj front).2.symm
  exact ⟨isPlain, behind⟩

-- The text from the value of a first member on.
theorem key_back (key : List UInt8) (value : Value) (rest : Members) (name behind : List UInt8)
    (lists : (Members.cons (.string key) value rest).Lists (comma :: (quoted name ++ colon :: behind)))
    (valid : stringBody 0 key = true) (named : unescape key = name) :
    ∃ before valueText after more, behind = before ++ (valueText ++ (after ++ more)) ∧ Blank before ∧ Blank after ∧
      value.Spells valueText ∧ rest.Lists more := by
  obtain ⟨space, keyText, afterKey, before, valueText, after, more, text, blank, blankKey, blankBefore, blankAfter, rfl,
    spells, restLists⟩ := lists
  simp only [List.append_assoc] at text
  obtain ⟨_, front⟩ := quoted_read space key name _ _ blank valid named (List.cons.inj text).2
  have value := blank_before afterKey _ _ colon blankKey rfl front.symm
  exact ⟨before, valueText, after, more, (List.cons.inj value).2.symm, blankBefore, blankAfter, spells, restLists⟩

-- What is behind a number or a string, which is itself plain if it comes back.
theorem value_back (given : Given) (value : Value) (fields : Fields) (rest : Members)
    (before valueText after more : List UInt8) (blank : Blank before) (blankAfter : Blank after) (spells : value.Spells valueText)
    (lists : rest.Lists more) (valid : value.wellFormed = true) (gives : value.Gives given) (notJson : given.isJson = false)
    (same : given.spelled ++ fieldsListed fields = before ++ (valueText ++ (after ++ more))) :
    given.Plain ∧ rest.Lists (fieldsListed fields) := by
  have behind : given.Plain ∧ fieldsListed fields = after ++ more := by
    cases given with
    | number n =>
        cases value with
        | primitive text =>
            obtain rfl : valueText = text := spells
            exact ⟨trivial, integer_read before valueText after more n fields rest blank gives blankAfter lists same⟩
        | _ => cases gives
    | text given =>
        cases value with
        | string body =>
            obtain rfl : valueText = quoted body := spells
            exact quoted_read before body given _ _ blank valid gives same
        | _ => cases gives
    | json given => cases notJson
  refine ⟨behind.1, ?_⟩
  rw [listed_behind fields after more blankAfter behind.2]
  exact lists

-- No integer or string is put in behind a JSON text.
def JsonLast (fields : Fields) : Prop := fields.Pairwise (fun field later => field.2.isJson = true → later.2.isJson = true)

theorem json_plain (given : Given) (isJson : given.isJson = true) : given.Plain := by
  cases given with
  | json given => trivial
  | _ => cases isJson

theorem fields_back (fields : Fields) (members : Members) (jsonLast : JsonLast fields) (valid : members.wellFormed = true)
    (lists : members.Lists (fieldsListed fields)) (gives : members.Gives fields) : AllPlain fields := by
  induction fields generalizing members with
  | nil => exact fun field listed => nomatch listed
  | cons field fields ih =>
      obtain ⟨name, given⟩ := field
      obtain ⟨behindJson, jsonLast⟩ := List.pairwise_cons.mp jsonLast
      by_cases isJson : given.isJson = true
      · exact List.forall_mem_cons.mpr ⟨json_plain given isJson, fun later listed => json_plain _ (behindJson later listed isJson)⟩
      cases members with
      | nil => cases gives
      | cons key value rest =>
          simp only [Members.wellFormed, Bool.and_eq_true] at valid
          obtain ⟨⟨keyValid, valueValid⟩, restValid⟩ := valid
          cases key with
          | string key =>
              obtain ⟨named, valueGives, restGives⟩ := gives
              obtain ⟨before, valueText, after, more, text, blank, blankAfter, spells, restLists⟩ :=
                key_back key value rest name _ lists keyValid named
              obtain ⟨isPlain, behind⟩ := value_back given value fields rest before valueText after more blank blankAfter spells
                restLists valueValid valueGives (Bool.not_eq_true _ ▸ isJson) text
              exact List.forall_mem_cons.mpr ⟨isPlain, ih rest jsonLast restValid behind restGives⟩
          | _ => cases gives

-- An object with exactly the given members.
def ObjectOf (fields : Fields) (members : Members) (text : List UInt8) : Prop :=
  members.wellFormed = true ∧ members.Gives fields ∧ Padded (.object members) text

theorem object_listed (fields : Fields) (members : Members) (some : fields ≠ []) (gives : members.Gives fields) :
    Padded (.object members) (fieldsText fields) ↔ members.Lists (fieldsListed fields) := by
  obtain ⟨field, fields, rfl⟩ := List.exists_cons_of_ne_nil some
  constructor
  · intro padded
    obtain ⟨inner, text, ⟨rfl, _⟩ | lists⟩ := padded_braces (.object members) _ padded
    · cases gives
    · have inner_eq := List.append_cancel_right (List.cons.inj text).2
      rw [← inner_eq] at lists
      exact lists
  · exact fun lists => ⟨[], _, [], (List.append_nil _).symm, blank_nil, blank_nil, _, rfl, .inr lists⟩

theorem object_of_iff (fields : Fields) (some : fields ≠ []) (proper : Proper fields) (jsonLast : JsonLast fields) :
    (∃ members, ObjectOf fields members (fieldsText fields)) ↔ AllPlain fields := by
  constructor
  · rintro ⟨members, valid, gives, padded⟩
    exact fields_back fields members jsonLast valid ((object_listed fields members some gives).mp padded) gives
  · intro allPlain
    obtain ⟨members, lists, valid, gives⟩ := fields_given fields proper allPlain
    exact ⟨members, valid, gives, (object_listed fields members some gives).mpr lists⟩

-- The object as the only member of another one.
theorem nested_back (name key inner : List UInt8) (value : Value) (valid : stringBody 0 key = true)
    (named : unescape key = name)
    (padded : Padded (.object (.cons (.string key) value .nil)) (openBrace :: (quoted name ++ colon :: inner ++ [closeBrace]))) :
    Padded value inner := by
  obtain ⟨listed, text, ⟨empty, _⟩ | lists⟩ := padded_braces _ _ padded
  · cases empty
  rw [← List.append_cancel_right (List.cons.inj text).2] at lists
  obtain ⟨before, valueText, after, more, same, blank, blankAfter, spells, none⟩ := key_back key value .nil name inner lists valid named
  rw [show more = [] from none, List.append_nil] at same
  exact ⟨before, valueText, after, same.trans (List.append_assoc _ _ _).symm, blank, blankAfter, spells⟩

theorem nested_padded (name inner : List UInt8) (value : Value) (padded : Padded value inner) :
    Padded (.object (.cons (.string name) value .nil)) (openBrace :: (quoted name ++ colon :: inner ++ [closeBrace])) := by
  obtain ⟨before, valueText, after, rfl, blank, blankAfter, spells⟩ := padded
  refine ⟨[], _, [], (List.append_nil _).symm, blank_nil, blank_nil, _, rfl, .inr ?_⟩
  refine ⟨[], quoted name, [], before, valueText, after, [], ?_, blank_nil, blank_nil, blank, blankAfter, rfl, spells, rfl⟩
  simp only [List.nil_append, List.append_nil, List.append_assoc]

end Json
