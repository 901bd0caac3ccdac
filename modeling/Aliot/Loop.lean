import Mathlib.Logic.Basic
import Mathlib.Order.Basic

set_option autoImplicit false

-- A step of none leaves the loop. Fuel only counts the steps; `Halts` quantifies it away.
namespace Loop

variable {σ : Type}

def run (step : σ → Option σ) : Nat → σ → Option σ
  | 0, _ => none
  | fuel + 1, s =>
      match step s with
      | none => some s
      | some next => run step fuel next

def Halts (step : σ → Option σ) (s : σ) : Prop := ∃ fuel final, run step fuel s = some final

theorem run_exit (step : σ → Option σ) (fuel : Nat) (s : σ) (exit : step s = none) :
    run step (fuel + 1) s = some s := by
  simp only [run, exit]

theorem run_step (step : σ → Option σ) (fuel : Nat) (s next : σ) (taken : step s = some next) :
    run step (fuel + 1) s = run step fuel next := by
  simp only [run, taken]

theorem run_deterministic (step : σ → Option σ) (fuel other : Nat) (s left right : σ)
    (first : run step fuel s = some left) (second : run step other s = some right) : left = right := by
  induction fuel generalizing other s with
  | zero => cases first
  | succ fuel ih =>
      cases other with
      | zero => cases second
      | succ other =>
          cases taken : step s with
          | none =>
              rw [run_exit step _ s taken] at first second
              exact (Option.some.inj first).symm.trans (Option.some.inj second)
          | some next =>
              rw [run_step step _ s next taken] at first second
              exact ih other next first second

theorem run_invariant (step : σ → Option σ) (inv : σ → Prop)
    (preserved : ∀ s next, inv s → step s = some next → inv next)
    (fuel : Nat) (s final : σ) (start : inv s) (ended : run step fuel s = some final) :
    inv final ∧ step final = none := by
  induction fuel generalizing s with
  | zero => cases ended
  | succ fuel ih =>
      cases taken : step s with
      | none =>
          rw [run_exit step _ s taken] at ended
          cases ended
          exact ⟨start, taken⟩
      | some next =>
          rw [run_step step _ s next taken] at ended
          exact ih next (preserved s next start taken) ended

theorem run_of_variant (step : σ → Option σ) (inv : σ → Prop) (variant : σ → Nat)
    (preserved : ∀ s next, inv s → step s = some next → inv next)
    (smaller : ∀ s next, inv s → step s = some next → variant next < variant s)
    (bound : Nat) (s : σ) (start : inv s) (bounded : variant s ≤ bound) :
    ∃ final, run step (bound + 1) s = some final := by
  induction bound generalizing s with
  | zero =>
      cases taken : step s with
      | none => exact ⟨s, run_exit step 0 s taken⟩
      | some next => exact absurd (smaller s next start taken) (by omega)
  | succ bound ih =>
      cases taken : step s with
      | none => exact ⟨s, run_exit step _ s taken⟩
      | some next =>
          rw [run_step step _ s next taken]
          have drop := smaller s next start taken
          exact ih next (preserved s next start taken) (by omega)

theorem halts_of_variant (step : σ → Option σ) (inv : σ → Prop) (variant : σ → Nat)
    (preserved : ∀ s next, inv s → step s = some next → inv next)
    (smaller : ∀ s next, inv s → step s = some next → variant next < variant s)
    (s : σ) (start : inv s) : Halts step s := by
  obtain ⟨final, ended⟩ := run_of_variant step inv variant preserved smaller (variant s) s start (Nat.le_refl _)
  exact ⟨variant s + 1, final, ended⟩

theorem not_halts_of_progress (step : σ → Option σ) (inv : σ → Prop)
    (progress : ∀ s, inv s → ∃ next, step s = some next ∧ inv next) (s : σ) (start : inv s) :
    ¬ Halts step s := by
  rintro ⟨fuel, final, ended⟩
  induction fuel generalizing s with
  | zero => cases ended
  | succ fuel ih =>
      obtain ⟨next, taken, kept⟩ := progress s start
      rw [run_step step _ s next taken] at ended
      exact ih next kept ended

end Loop
