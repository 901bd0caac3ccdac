import Mathlib.Data.List.TakeWhile
import Aliot.Json

set_option autoImplicit false

namespace Json

-- The decimal digits of a number, without leading zeros.
def natText (n : Nat) : List UInt8 := (Nat.toDigits 10 n).map Char.toUInt8

def intText : Int → List UInt8
  | .ofNat n => natText n
  | .negSucc n => 0x2d :: natText (n + 1)

theorem digit_char_byte (d : Nat) (small : d < 10) : (Nat.digitChar d).toUInt8 = UInt8.ofNat (0x30 + d) := by
  have table : ∀ d : Fin 10, (Nat.digitChar d.val).toUInt8 = UInt8.ofNat (0x30 + d.val) := by decide
  exact table ⟨d, small⟩

theorem nat_text_small (n : Nat) (small : n < 10) : natText n = [UInt8.ofNat (0x30 + n)] := by
  rw [natText, Nat.toDigits_of_lt_base small, List.map_cons, List.map_nil, digit_char_byte n small]

theorem nat_text_step (n : Nat) (large : 10 ≤ n) : natText n = natText (n / 10) ++ [UInt8.ofNat (0x30 + n % 10)] := by
  have last := digit_char_byte (n % 10) (Nat.mod_lt n (by decide))
  rw [natText, Nat.toDigits_of_base_le (by decide) large, List.map_append, List.map_cons, List.map_nil, last]
  rfl

theorem digit_byte (d : Nat) (small : d < 10) : isDigit (UInt8.ofNat (0x30 + d)) = true ∧
    (UInt8.ofNat (0x30 + d)).toNat - 48 = d ∧ (UInt8.ofNat (0x30 + d) = 0x30 → d = 0) := by
  have table : ∀ d : Fin 10, isDigit (UInt8.ofNat (0x30 + d.val)) = true ∧
      (UInt8.ofNat (0x30 + d.val)).toNat - 48 = d.val ∧ (UInt8.ofNat (0x30 + d.val) = 0x30 → d.val = 0) := by decide
  exact table ⟨d, small⟩

theorem decimal_append (text : List UInt8) (byte : UInt8) :
    decimal (text ++ [byte]) = 10 * decimal text + (byte.toNat - 48) := by
  rw [decimal, List.foldl_append]
  rfl

structure NatText (n : Nat) (text : List UInt8) : Prop where
  digits : ∀ byte ∈ text, isDigit byte = true
  value : decimal text = n
  leading : n ≠ 0 → ∃ byte rest, text = byte :: rest ∧ byte ≠ 0x30

theorem nat_text_parts (n : Nat) : NatText n (natText n) := by
  induction n using Nat.strongRecOn with
  | ind n ih =>
      by_cases small : n < 10
      · obtain ⟨digit, value, zero⟩ := digit_byte n small
        rw [nat_text_small n small]
        refine ⟨fun byte listed => List.mem_singleton.mp listed ▸ digit, ?_, fun positive => ⟨_, [], rfl, fun same => positive (zero same)⟩⟩
        simpa [decimal] using value
      · obtain ⟨digits, value, leading⟩ := ih (n / 10) (by omega)
        obtain ⟨digit, last, _⟩ := digit_byte (n % 10) (Nat.mod_lt n (by decide))
        rw [nat_text_step n (by omega)]
        refine ⟨?_, ?_, fun _ => ?_⟩
        · intro byte listed
          rcases List.mem_append.mp listed with front | back
          · exact digits byte front
          · exact List.mem_singleton.mp back ▸ digit
        · rw [decimal_append, value, last]
          omega
        · obtain ⟨byte, rest, starts, nonzero⟩ := leading (by omega)
          exact ⟨byte, rest ++ [UInt8.ofNat (0x30 + n % 10)], by rw [starts, List.cons_append], nonzero⟩

theorem natural_nat_text (n : Nat) : natural (natText n) = true := by
  obtain ⟨allDigits, _, leading⟩ := nat_text_parts n
  by_cases zero : n = 0
  · rw [zero]
    rfl
  · obtain ⟨byte, rest, starts, nonzero⟩ := leading zero
    rw [starts] at allDigits ⊢
    have some : digits (byte :: rest) = true := by
      rw [digits, Bool.and_eq_true]
      exact ⟨rfl, List.all_eq_true.mpr allDigits⟩
    rw [natural.eq_def]
    split
    · rfl
    · rw [some]
      simpa using nonzero

theorem nat_text_digit_first (n : Nat) : ∃ byte rest, natText n = byte :: rest ∧ isDigit byte = true := by
  have valid := natural_nat_text n
  have parts := (nat_text_parts n).digits
  cases text : natText n with
  | nil =>
      rw [text] at valid
      cases valid
  | cons byte rest =>
      rw [text] at parts
      exact ⟨byte, rest, rfl, parts byte List.mem_cons_self⟩

theorem integer_int_text (n : Int) : integer (intText n) = some n := by
  cases n with
  | ofNat n =>
      obtain ⟨byte, rest, text, digit⟩ := nat_text_digit_first n
      have valid := natural_nat_text n
      have value := (nat_text_parts n).value
      simp only [intText]
      rw [text] at valid value ⊢
      have notMinus : byte ≠ 0x2d := fun same => by rw [same] at digit; cases digit
      rw [integer.eq_def]
      split
      · rename_i same
        exact absurd (List.cons.inj same).1 notMinus
      · rw [if_pos valid, value]
        rfl
  | negSucc n =>
      simp only [intText, integer, natural_nat_text, if_true, (nat_text_parts (n + 1)).value]
      rfl

theorem natural_digits (text : List UInt8) (valid : natural text = true) : digits text = true := by
  unfold natural at valid
  split at valid
  · rfl
  · simp only [Bool.and_eq_true] at valid
    exact valid.1

theorem natural_whole (text : List UInt8) (valid : natural text = true) :
    text.takeWhile isDigit = text ∧ text.dropWhile isDigit = [] := by
  have all := (Bool.and_eq_true_iff.mp (natural_digits text valid)).2
  exact ⟨List.takeWhile_eq_self_iff.mpr (List.all_eq_true.mp all), List.dropWhile_eq_nil_iff.mpr (List.all_eq_true.mp all)⟩

theorem natural_magnitude (text : List UInt8) (valid : natural text = true) : magnitude text = true := by
  obtain ⟨taken, dropped⟩ := natural_whole text valid
  simp only [magnitude, taken, dropped, valid, Bool.true_and]
  rfl

theorem integer_primitive (text : List UInt8) (code : Int) (isInteger : integer text = some code) :
    primitiveText text = true := by
  simp only [primitiveText, Bool.or_eq_true]
  right
  unfold integer at isInteger
  split at isInteger
  · split at isInteger
    · rename_i valid
      exact natural_magnitude _ valid
    · cases isInteger
  · rename_i unsigned
    split at isInteger
    · rename_i valid
      unfold number
      split
      · exact absurd rfl (unsigned _)
      · exact natural_magnitude _ valid
    · cases isInteger

def isIntegerByte (byte : UInt8) : Bool := isDigit byte || byte == 0x2d

theorem natural_bytes (text : List UInt8) (valid : natural text = true) : ∀ byte ∈ text, isIntegerByte byte = true := by
  have all := (Bool.and_eq_true_iff.mp (natural_digits text valid)).2
  intro byte listed
  rw [isIntegerByte, List.all_eq_true.mp all byte listed, Bool.true_or]

theorem integer_bytes (text : List UInt8) (n : Int) (isInteger : integer text = some n) :
    ∀ byte ∈ text, isIntegerByte byte = true := by
  unfold integer at isInteger
  split at isInteger
  · split at isInteger
    · rename_i valid
      exact List.forall_mem_cons.mpr ⟨rfl, natural_bytes _ valid⟩
    · cases isInteger
  · split at isInteger
    · rename_i valid
      exact natural_bytes _ valid
    · cases isInteger

-- What an integer may stand in front of.
def EndsInteger (rest : List UInt8) : Prop := ∀ byte, rest.head? = some byte → isIntegerByte byte = false

theorem ends_integer_cons (byte : UInt8) (rest : List UInt8) (other : isIntegerByte byte = false) :
    EndsInteger (byte :: rest) := by
  intro first starts
  rw [← Option.some.inj starts]
  exact other

theorem take_integer (text rest : List UInt8) (n : Int) (isInteger : integer text = some n) (ends : EndsInteger rest) :
    (text ++ rest).takeWhile isIntegerByte = text := by
  rw [List.takeWhile_append_of_pos (integer_bytes text n isInteger)]
  cases rest with
  | nil => rw [List.takeWhile_nil, List.append_nil]
  | cons byte rest =>
      have other := ends byte rfl
      rw [List.takeWhile_cons_of_neg (by simp [other]), List.append_nil]

theorem integer_back (text other left right : List UInt8) (n m : Int) (isInteger : integer text = some n)
    (otherInteger : integer other = some m) (ends : EndsInteger left) (otherEnds : EndsInteger right)
    (same : text ++ left = other ++ right) : left = right := by
  have taken := take_integer text left n isInteger ends
  rw [same, take_integer other right m otherInteger otherEnds] at taken
  rw [taken] at same
  exact List.append_cancel_left same

end Json
