import Mathlib.Data.List.Basic
import Mathlib.Tactic.NormNum

set_option autoImplicit false

-- Base-128 integers, low group first; the top bit of a byte says that another follows.
namespace VarInt

def continues (byte : UInt8) : Bool := decide (128 ≤ byte.toNat)
def group (byte : UInt8) : Nat := byte.toNat % 128

def encodeUpTo : Nat → Nat → List UInt8
  | 0, _ => []
  | fuel + 1, n =>
      if n / 128 > 0 then UInt8.ofNat (n % 128 + 128) :: encodeUpTo fuel (n / 128) else [UInt8.ofNat (n % 128)]

def encode (n : Nat) : List UInt8 := encodeUpTo (n + 1) n

def value : List UInt8 → Nat
  | [] => 0
  | byte :: bytes => group byte + 128 * value bytes

def Ended : List UInt8 → Prop
  | [] => False
  | byte :: bytes => if continues byte then Ended bytes else bytes = []

theorem encode_up_to_fuel (fuel other n : Nat) (enough : n < fuel) (also : n < other) :
    encodeUpTo fuel n = encodeUpTo other n := by
  induction fuel generalizing other n with
  | zero => omega
  | succ fuel ih =>
      cases other with
      | zero => omega
      | succ other =>
          by_cases more : n / 128 > 0
          · simp only [encodeUpTo, if_pos more]
            rw [ih other (n / 128) (by omega) (by omega)]
          · simp only [encodeUpTo, if_neg more]

theorem encode_eq (n : Nat) : encode n =
    if n / 128 > 0 then UInt8.ofNat (n % 128 + 128) :: encode (n / 128) else [UInt8.ofNat (n % 128)] := by
  by_cases more : n / 128 > 0
  · rw [if_pos more, encode, encodeUpTo, if_pos more, encode, encode_up_to_fuel n (n / 128 + 1) _ (by omega) (by omega)]
  · rw [if_neg more, encode, encodeUpTo, if_neg more]

theorem last_group (n : Nat) (small : ¬ n / 128 > 0) :
    group (UInt8.ofNat (n % 128)) = n ∧ continues (UInt8.ofNat (n % 128)) = false := by
  simp only [group, continues, UInt8.toNat_ofNat', decide_eq_false_iff_not]
  omega

theorem inner_group (n : Nat) :
    group (UInt8.ofNat (n % 128 + 128)) = n % 128 ∧ continues (UInt8.ofNat (n % 128 + 128)) = true := by
  simp only [group, continues, UInt8.toNat_ofNat', decide_eq_true_eq]
  omega

theorem value_encode (n : Nat) : value (encode n) = n := by
  induction n using Nat.strongRecOn with
  | ind n ih =>
      rw [encode_eq]
      by_cases more : n / 128 > 0
      · rw [if_pos more, value, (inner_group n).1, ih (n / 128) (by omega)]
        omega
      · rw [if_neg more, value, (last_group n more).1]
        simp only [value]
        omega

theorem encode_ended (n : Nat) : Ended (encode n) := by
  induction n using Nat.strongRecOn with
  | ind n ih =>
      rw [encode_eq]
      by_cases more : n / 128 > 0
      · rw [if_pos more, Ended, (inner_group n).2]
        exact ih (n / 128) (by omega)
      · rw [if_neg more, Ended, (last_group n more).2]
        rfl

theorem encode_length_le (k n : Nat) (small : n < 128 ^ (k + 1)) : (encode n).length ≤ k + 1 := by
  induction k generalizing n with
  | zero =>
      rw [encode_eq, if_neg (by omega)]
      exact Nat.le_refl _
  | succ k ih =>
      rw [encode_eq]
      split
      · have quotient : n / 128 < 128 ^ (k + 1) := by
          rw [Nat.div_lt_iff_lt_mul (by decide)]
          simpa only [Nat.pow_succ] using small
        simpa only [List.length_cons, Nat.add_le_add_iff_right] using ih (n / 128) quotient
      · simp

-- Also of an encoding with more bytes than it needs.
theorem value_lt (bytes : List UInt8) : value bytes < 128 ^ bytes.length := by
  induction bytes with
  | nil => exact Nat.one_pos
  | cons byte bytes ih =>
      have low : group byte < 128 := Nat.mod_lt _ (by decide)
      rw [value, List.length_cons, Nat.pow_succ]
      omega

theorem ended_unique (left right leftRest rightRest : List UInt8) (leftEnded : Ended left) (rightEnded : Ended right)
    (same : left ++ leftRest = right ++ rightRest) : left = right ∧ leftRest = rightRest := by
  induction left generalizing right with
  | nil => cases leftEnded
  | cons byte bytes ih =>
      cases right with
      | nil => cases rightEnded
      | cons other others =>
          simp only [List.cons_append, List.cons.injEq] at same
          obtain ⟨rfl, tails⟩ := same
          by_cases more : continues byte
          · simp only [Ended, more, if_true] at leftEnded rightEnded
            obtain ⟨rfl, rest⟩ := ih others leftEnded rightEnded tails
            exact ⟨rfl, rest⟩
          · simp only [Ended, more] at leftEnded rightEnded
            subst leftEnded
            subst rightEnded
            exact ⟨rfl, tails⟩

end VarInt
