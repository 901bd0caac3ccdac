import Aliot.Frames
import Aliot.JsonNumber

set_option autoImplicit false

-- HTTP/1.1 requests with a Content-Length, as text and as a server reads them off a stream.
namespace HttpText

structure Message where
  line : List UInt8
  fields : List (List UInt8 × List UInt8)
  body : List UInt8
deriving DecidableEq

def fieldText (field : List UInt8 × List UInt8) : List UInt8 := field.1 ++ 0x3a :: 0x20 :: field.2

def lines (m : Message) : List (List UInt8) := m.line :: m.fields.map fieldText

def ended (line : List UInt8) : List UInt8 := line ++ [13, 10]

def write (m : Message) : List UInt8 := (lines m).flatMap ended ++ 13 :: 10 :: m.body

-- A carriage return stands in front of a line feed and nowhere else.
def readLine : List UInt8 → Option (List UInt8 × List UInt8)
  | [] => none
  | byte :: rest =>
      if byte = 13 then
        match rest with
        | 10 :: rest => some ([], rest)
        | _ => none
      else (readLine rest).map (fun (line, rest) => (byte :: line, rest))

-- The lines up to an empty one, and what is behind it.
def readLines : Nat → List UInt8 → Option (List (List UInt8) × List UInt8)
  | 0, _ => none
  | fuel + 1, text =>
      match readLine text with
      | none => none
      | some ([], rest) => some ([], rest)
      | some (line, rest) => (readLines fuel rest).map (fun (lines, rest) => (line :: lines, rest))

def readField (line : List UInt8) : Option (List UInt8 × List UInt8) :=
  match line.dropWhile (· != 0x3a) with
  | [] => none
  | _ :: value => some (line.takeWhile (· != 0x3a), value.dropWhile (· == 0x20))

def field (name : List UInt8) (fields : List (List UInt8 × List UInt8)) : Option (List UInt8) :=
  (fields.find? (fun field => field.1 == name)).map Prod.snd

def contentLength : List UInt8 := "Content-Length".toList.map Char.toUInt8

def size (fields : List (List UInt8 × List UInt8)) : Option Nat :=
  match field contentLength fields with
  | none => some 0
  | some digits => if Json.natural digits then some (Json.decimal digits) else none

def readFields : List (List UInt8) → Option (List (List UInt8 × List UInt8))
  | [] => some []
  | line :: lines => do
      let field ← readField line
      let fields ← readFields lines
      return field :: fields

def read (text : List UInt8) : Option (Message × List UInt8) :=
  match readLines text.length text with
  | some (line :: lines, rest) => do
      let fields ← readFields lines
      let size ← size fields
      if size ≤ rest.length then some (⟨line, fields, rest.take size⟩, rest.drop size) else none
  | _ => none

structure PlainField (field : List UInt8 × List UInt8) : Prop where
  name : (13 : UInt8) ∉ field.1 ∧ (0x3a : UInt8) ∉ field.1
  value : (13 : UInt8) ∉ field.2 ∧ field.2.head? ≠ some 0x20

structure WellFormed (m : Message) : Prop where
  line : m.line ≠ [] ∧ (13 : UInt8) ∉ m.line
  fields : ∀ field ∈ m.fields, PlainField field
  size : field contentLength m.fields = some (Json.natText m.body.length)

theorem read_line_ended (line rest : List UInt8) (plain : (13 : UInt8) ∉ line) :
    readLine (ended line ++ rest) = some (line, rest) := by
  induction line with
  | nil => rfl
  | cons byte line ih =>
      obtain ⟨first, later⟩ := not_or.mp (mt List.mem_cons.mpr plain)
      have inner := ih later
      simp only [ended, List.cons_append, readLine, if_neg (Ne.symm first)] at inner ⊢
      rw [inner, Option.map_some]

theorem read_lines_written (lines : List (List UInt8)) (rest : List UInt8) (fuel : Nat) (enough : lines.length < fuel)
    (plain : ∀ line ∈ lines, line ≠ [] ∧ (13 : UInt8) ∉ line) :
    readLines fuel (lines.flatMap ended ++ 13 :: 10 :: rest) = some (lines, rest) := by
  induction lines generalizing fuel with
  | nil =>
      cases fuel with
      | zero => cases enough
      | succ fuel => rfl
  | cons line lines ih =>
      cases fuel with
      | zero => cases enough
      | succ fuel =>
          obtain ⟨⟨nonempty, first⟩, later⟩ := List.forall_mem_cons.mp plain
          have inner := ih fuel (Nat.lt_of_succ_lt_succ enough) later
          rw [List.flatMap_cons, List.append_assoc, readLines, read_line_ended line _ first]
          cases line with
          | nil => exact absurd rfl nonempty
          | cons byte line => simp only [inner, Option.map_some]

theorem read_field_text (field : List UInt8 × List UInt8) (plain : PlainField field) : readField (fieldText field) = some field := by
  obtain ⟨name, value⟩ := field
  have unlike : ∀ byte ∈ name, (byte != 0x3a) = true := fun byte member =>
    bne_iff_ne.mpr (fun same => plain.name.2 (same ▸ member))
  have dropped : (fieldText (name, value)).dropWhile (· != 0x3a) = 0x3a :: 0x20 :: value := by
    rw [fieldText, List.dropWhile_append_of_pos unlike]
    rfl
  have taken : (fieldText (name, value)).takeWhile (· != 0x3a) = name := by
    rw [fieldText, List.takeWhile_append_of_pos unlike]
    exact List.append_nil name
  have unspaced : (0x20 :: value).dropWhile (· == 0x20) = value := by
    rw [List.dropWhile_cons_of_pos (by rfl)]
    cases value with
    | nil => rfl
    | cons byte value =>
        refine List.dropWhile_cons_of_neg (fun space => plain.value.2 ?_)
        rw [beq_iff_eq.mp space]
        rfl
  simp only [readField, dropped, taken, unspaced]

theorem read_fields_written (fields : List (List UInt8 × List UInt8)) (plain : ∀ field ∈ fields, PlainField field) :
    readFields (fields.map fieldText) = some fields := by
  induction fields with
  | nil => rfl
  | cons field fields ih =>
      obtain ⟨first, later⟩ := List.forall_mem_cons.mp plain
      rw [List.map_cons, readFields, read_field_text field first, ih later]
      rfl

theorem lines_plain (m : Message) (formed : WellFormed m) : ∀ line ∈ lines m, line ≠ [] ∧ (13 : UInt8) ∉ line := by
  refine List.forall_mem_cons.mpr ⟨formed.line, ?_⟩
  intro line member
  obtain ⟨field, listed, rfl⟩ := List.mem_map.mp member
  have plain := formed.fields field listed
  simp [fieldText, plain.name.1, plain.value.1]

theorem lines_length (lines : List (List UInt8)) : lines.length ≤ (lines.flatMap ended).length := by
  induction lines with
  | nil => exact Nat.le_refl _
  | cons line lines ih =>
      simp only [List.flatMap_cons, List.length_append, List.length_cons, ended, List.length_nil] at ih ⊢
      omega

theorem read_written (m : Message) (rest : List UInt8) (formed : WellFormed m) : read (write m ++ rest) = some (m, rest) := by
  have text : write m ++ rest = (lines m).flatMap ended ++ 13 :: 10 :: (m.body ++ rest) := by simp [write]
  have enough : (lines m).length < (write m ++ rest).length := by
    have length := lines_length (lines m)
    rw [text]
    simp only [List.length_append, List.length_cons]
    omega
  have head := read_lines_written (lines m) (m.body ++ rest) _ enough (lines_plain m formed)
  rw [← text] at head
  have sized : size m.fields = some m.body.length := by
    simp only [size, formed.size, Json.natural_nat_text, if_true, (Json.nat_text_parts m.body.length).value]
  simp only [read, head, lines, read_fields_written m.fields formed.fields]
  simp [sized]

def format : FrameFormat UInt8 Message where
  encode := write
  decode := read
  Good := WellFormed
  nonempty := fun m none => by simp [write] at none
  round := read_written

end HttpText
