import Mathlib.Data.UInt

set_option autoImplicit false

namespace Aliot.Mbed

structure Timer where
  startTimestamp : UInt32
  timeout : Int32
deriving DecidableEq

def countdownMs (timeout ticks : UInt32) : Timer := ⟨ticks, timeout.toInt32⟩

-- The product is unsigned and wraps before it is converted.
def countdown (timeout ticks : UInt32) : Timer := ⟨ticks, (timeout * 1000).toInt32⟩

-- None for a signed subtraction that overflows.
def leftMs (timer : Timer) (ticks : UInt32) : Option Int :=
  let timeDiffMs := (ticks - timer.startTimestamp).toInt32
  let left := timer.timeout.toInt - timeDiffMs.toInt
  if -2 ^ 31 ≤ left ∧ left < 2 ^ 31 then some left else none

def expired (timer : Timer) (ticks : UInt32) : Option Nat :=
  (leftMs timer ticks).map (fun left => if left > 0 then 0 else 1)

theorem to_int_cond (x : UInt32) :
    x.toInt32.toInt = if x.toNat < 2 ^ 31 then (x.toNat : Int) else (x.toNat : Int) - 2 ^ 32 := by
  have signed : x.toInt32.toInt = if 2 * x.toNat < 2 ^ 32 then (x.toNat : Int) else (x.toNat : Int) - (2 ^ 32 : Nat) :=
    BitVec.toInt_eq_toNat_cond x.toBitVec
  rw [signed]
  split <;> split <;> omega

theorem elapsed_ticks (start : UInt32) (e : Nat) (bound : e < 2 ^ 32) : (start + UInt32.ofNat e - start).toNat = e := by
  have small := start.toNat_lt
  simp only [UInt32.toNat_sub, UInt32.toNat_add, UInt32.toNat_ofNat']
  omega

def Started (timer : Timer) (start : UInt32) (T : Nat) : Prop :=
  timer = countdownMs (UInt32.ofNat T) start ∨
    ∃ seconds, T = seconds * 1000 ∧ timer = countdown (UInt32.ofNat seconds) start

theorem started_fields (timer : Timer) (start : UInt32) (T : Nat) (started : Started timer start T) (small : T < 2 ^ 31) :
    timer.startTimestamp = start ∧ timer.timeout.toInt = T := by
  rcases started with rfl | ⟨seconds, rfl, rfl⟩
  · refine ⟨rfl, ?_⟩
    simp only [countdownMs, to_int_cond, UInt32.toNat_ofNat']
    split <;> omega
  · refine ⟨rfl, ?_⟩
    simp only [countdown, to_int_cond, UInt32.toNat_mul, UInt32.toNat_ofNat', UInt32.reduceToNat]
    split <;> omega

section Run

variable (timer : Timer) (start : UInt32) (T e : Nat)

theorem left_elapsed (started : Started timer start T) (small : T < 2 ^ 31) (bound : e < 2 ^ 32) :
    leftMs timer (start + UInt32.ofNat e) =
      if e < 2 ^ 31 then some ((T : Int) - e)
      else if e ≤ T + 2 ^ 31 then none
      else some ((T : Int) - e + 2 ^ 32) := by
  obtain ⟨begun, limit⟩ := started_fields timer start T started small
  simp only [leftMs, begun, limit, to_int_cond, elapsed_ticks start e bound]
  by_cases early : e < 2 ^ 31
  · rw [if_pos early, if_pos early, if_pos (by omega)]
  · rw [if_neg early, if_neg early]
    by_cases near : e ≤ T + 2 ^ 31
    · rw [if_pos near, if_neg (by omega)]
    · rw [if_neg near, if_pos (by omega)]
      congr 1
      omega

theorem expired_early (started : Started timer start T) (small : T < 2 ^ 31) (early : e < 2 ^ 31) :
    expired timer (start + UInt32.ofNat e) = some (if T ≤ e then 1 else 0) := by
  simp only [expired, left_elapsed timer start T e started small (by omega), if_pos early, Option.map_some]
  by_cases due : T ≤ e
  · rw [if_pos due, if_neg (by omega)]
  · rw [if_neg due, if_pos (by omega)]

-- In the second half the difference is negative: the subtraction overflows, and after that there is time left again.
theorem expired_late (started : Started timer start T) (small : T < 2 ^ 31) (late : 2 ^ 31 ≤ e) (bound : e < 2 ^ 32) :
    expired timer (start + UInt32.ofNat e) = if e ≤ T + 2 ^ 31 then none else some 0 := by
  simp only [expired, left_elapsed timer start T e started small bound, if_neg (Nat.not_lt.mpr late)]
  by_cases near : e ≤ T + 2 ^ 31
  · rw [if_pos near, if_pos near]
    rfl
  · rw [if_neg near, if_neg near, Option.map_some, if_pos (by omega)]

-- At `e` ticks the answer is defined and true exactly from the timeout on, and one that was true before is still true.
structure KeepsTime : Prop where
  answers : ∃ answer, expired timer (start + UInt32.ofNat e) = some answer ∧ (answer ≠ 0 ↔ T ≤ e)
  stays : ∀ earlier, earlier ≤ e → expired timer (start + UInt32.ofNat earlier) = some 1 →
    expired timer (start + UInt32.ofNat e) = some 1

theorem keeps_time_early (started : Started timer start T) (small : T < 2 ^ 31) (early : e < 2 ^ 31) :
    KeepsTime timer start T e := by
  have now := expired_early timer start T e started small early
  refine ⟨⟨_, now, ?_⟩, ?_⟩
  · by_cases due : T ≤ e <;> simp [due]
  · intro earlier before was
    rw [expired_early timer start T earlier started small (by omega)] at was
    have due : T ≤ earlier := by
      by_contra notDue
      rw [if_neg notDue] at was
      cases was
    rw [now, if_pos (Nat.le_trans due before)]

theorem not_expired_late (started : Started timer start T) (small : T < 2 ^ 31) (late : 2 ^ 31 ≤ e) (bound : e < 2 ^ 32) :
    expired timer (start + UInt32.ofNat T) = some 1 ∧ expired timer (start + UInt32.ofNat e) ≠ some 1 := by
  constructor
  · rw [expired_early timer start T T started small small, if_pos (Nat.le_refl T)]
  · rw [expired_late timer start T e started small late bound]
    intro same
    split at same <;> cases same

theorem keeps_time_iff (started : Started timer start T) (small : T < 2 ^ 31) (bound : e < 2 ^ 32) :
    KeepsTime timer start T e ↔ e < 2 ^ 31 := by
  refine ⟨fun keeps => ?_, keeps_time_early timer start T e started small⟩
  by_contra notEarly
  have late : 2 ^ 31 ≤ e := Nat.le_of_not_lt notEarly
  obtain ⟨due, gone⟩ := not_expired_late timer start T e started small late bound
  exact gone (keeps.stays T (by omega) due)

end Run

theorem two_seconds_kept : KeepsTime (countdown 2 4294967295) 4294967295 2000 2000 ↔ 2000 < 2 ^ 31 :=
  keeps_time_iff (countdown 2 4294967295) 4294967295 2000 2000 (.inr ⟨2, rfl, rfl⟩) (by decide) (by decide)

theorem one_second_again : ¬ ∀ (timer : Timer) (start : UInt32) (T e : Nat), Started timer start T → T < 2 ^ 31 →
    e < 2 ^ 32 → KeepsTime timer start T e := by
  intro claimed
  have keeps := claimed (countdownMs 1000 0) 0 1000 2147484649 (.inl rfl) (by decide) (by decide)
  have due : expired (countdownMs 1000 0) (0 + UInt32.ofNat 1000) = some 1 := by decide
  have gone : expired (countdownMs 1000 0) (0 + UInt32.ofNat 2147484649) = some 0 := by decide
  have again := keeps.stays 1000 (by omega) due
  rw [gone] at again
  cases again

end Aliot.Mbed
