import Mathlib.Logic.Function.Basic
import Mathlib.Data.List.Basic

set_option autoImplicit false

-- Flat memory indexed by offset from some base, with block loads and stores.
namespace Memory

variable {α : Type}

def store (mem : Nat → α) (addr : Nat) : List α → Nat → α
  | [] => mem
  | x :: xs => store (Function.update mem addr x) (addr + 1) xs

def load (mem : Nat → α) (addr : Nat) : Nat → List α
  | 0 => []
  | len + 1 => mem addr :: load mem (addr + 1) len

@[simp] theorem load_length (mem : Nat → α) (addr len : Nat) : (load mem addr len).length = len := by
  induction len generalizing addr with
  | zero => rfl
  | succ len ih => simp only [load, List.length_cons, ih]

theorem load_append (mem : Nat → α) (addr first second : Nat) :
    load mem addr (first + second) = load mem addr first ++ load mem (addr + first) second := by
  induction first generalizing addr with
  | zero => simp only [Nat.zero_add, load, Nat.add_zero, List.nil_append]
  | succ first ih =>
      rw [Nat.add_right_comm]
      simp only [load, List.cons_append, ih]
      rw [Nat.add_assoc addr 1 first, Nat.add_comm 1 first]

theorem load_listed (fallback : α) (front back : List α) :
    load (fun i => (front ++ back).getD i fallback) front.length back.length = back := by
  induction back generalizing front with
  | nil => rfl
  | cons x rest ih =>
      have later := ih (front ++ [x])
      simp only [List.append_assoc, List.singleton_append, List.length_append, List.length_cons, List.length_nil,
        Nat.zero_add] at later
      simp only [List.length_cons, load, later]
      simp

theorem load_congr (mem other : Nat → α) (addr len : Nat)
    (same : ∀ i, addr ≤ i → i < addr + len → mem i = other i) : load mem addr len = load other addr len := by
  induction len generalizing addr with
  | zero => rfl
  | succ len ih =>
      simp only [load]
      rw [same addr (Nat.le_refl _) (by omega), ih (addr + 1) (fun i low high => same i (by omega) (by omega))]

theorem store_outside (mem : Nat → α) (addr : Nat) (xs : List α) (i : Nat)
    (outside : i < addr ∨ addr + xs.length ≤ i) : store mem addr xs i = mem i := by
  induction xs generalizing mem addr with
  | nil => rfl
  | cons x xs ih =>
      simp only [List.length_cons] at outside
      rw [store, ih _ _ (by omega), Function.update_of_ne (by omega)]

theorem load_store (mem : Nat → α) (addr : Nat) (xs : List α) :
    load (store mem addr xs) addr xs.length = xs := by
  induction xs generalizing mem addr with
  | nil => rfl
  | cons x xs ih =>
      simp only [store, List.length_cons, load, ih]
      rw [store_outside _ _ _ _ (by omega), Function.update_self]

theorem load_store_disjoint (mem : Nat → α) (addr : Nat) (xs : List α) (start len : Nat)
    (disjoint : start + len ≤ addr ∨ addr + xs.length ≤ start) :
    load (store mem addr xs) start len = load mem start len :=
  load_congr _ _ _ _ (fun i _ _ => store_outside mem addr xs i (by omega))

theorem store_append (mem : Nat → α) (addr : Nat) (xs ys : List α) :
    store mem addr (xs ++ ys) = store (store mem addr xs) (addr + xs.length) ys := by
  induction xs generalizing mem addr with
  | nil => rfl
  | cons x xs ih =>
      simp only [List.cons_append, store, List.length_cons, ih]
      rw [Nat.add_assoc, Nat.add_comm 1]

theorem load_store_extend (mem : Nat → α) (start filled : Nat) (xs : List α) :
    load (store mem (start + filled) xs) start (filled + xs.length) = load mem start filled ++ xs := by
  rw [load_append, load_store, load_store_disjoint mem _ xs start filled (by omega)]

-- What is stored at the front of a block stands over the first part of it.
theorem load_stored_over (mem : Nat → α) (xs : List α) (len : Nat) (fits : xs.length ≤ len) :
    load (store mem 0 xs) 0 len = xs ++ (load mem 0 len).drop xs.length := by
  obtain ⟨more, rfl⟩ := Nat.exists_eq_add_of_le fits
  rw [load_append, load_store, load_append, List.drop_left' (load_length mem 0 xs.length),
    load_store_disjoint mem 0 xs _ more (by omega)]

theorem load_take (mem : Nat → α) (addr len shorter : Nat) (bound : shorter ≤ len) :
    (load mem addr len).take shorter = load mem addr shorter := by
  obtain ⟨extra, rfl⟩ := Nat.exists_eq_add_of_le bound
  rw [load_append, List.take_left' (load_length mem addr shorter)]

end Memory
