import Mathlib.Data.List.Basic
import Mathlib.Data.UInt

set_option autoImplicit false

-- Hashes that take a message block by block, and the same taken symbol by symbol.
structure BlockHash (β σ : Type) where
  width : Nat
  positive : 0 < width
  start : σ
  compress : σ → List β → σ

namespace BlockHash

variable {β σ : Type} (hash : BlockHash β σ)

def blocks : Nat → σ → List β → σ
  | 0, state, _ => state
  | count + 1, state, message => blocks count (hash.compress state (message.take hash.width)) (message.drop hash.width)

-- The whole blocks of a message; what is left behind them does not count.
def hashed (message : List β) : σ := hash.blocks (message.length / hash.width) hash.start message

structure Absorbed (β σ : Type) where
  state : σ
  pending : List β

def push (s : Absorbed β σ) (x : β) : Absorbed β σ :=
  if s.pending.length + 1 = hash.width then ⟨hash.compress s.state (s.pending ++ [x]), []⟩ else ⟨s.state, s.pending ++ [x]⟩

def absorb (s : Absorbed β σ) (message : List β) : Absorbed β σ := message.foldl hash.push s

def absorbed (message : List β) : Absorbed β σ := hash.absorb ⟨hash.start, []⟩ message

@[simp] theorem absorb_nil (s : Absorbed β σ) : hash.absorb s [] = s := rfl

theorem absorb_cons (s : Absorbed β σ) (x : β) (message : List β) :
    hash.absorb s (x :: message) = hash.absorb (hash.push s x) message := rfl

theorem absorb_append (s : Absorbed β σ) (first second : List β) :
    hash.absorb s (first ++ second) = hash.absorb (hash.absorb s first) second := List.foldl_append

theorem absorbed_append (first second : List β) :
    hash.absorbed (first ++ second) = hash.absorb (hash.absorbed first) second := hash.absorb_append _ first second

theorem absorb_waiting (s : Absorbed β σ) (message : List β) (short : s.pending.length + message.length < hash.width) :
    hash.absorb s message = ⟨s.state, s.pending ++ message⟩ := by
  induction message generalizing s with
  | nil => rw [List.append_nil, absorb_nil]
  | cons x message ih =>
      rw [List.length_cons] at short
      rw [absorb_cons, push, if_neg (by omega), ih _ (by simp; omega), List.append_assoc, List.singleton_append]

theorem absorb_filling (s : Absorbed β σ) (message : List β) (some : message ≠ [])
    (full : s.pending.length + message.length = hash.width) :
    hash.absorb s message = ⟨hash.compress s.state (s.pending ++ message), []⟩ := by
  obtain ⟨front, last, rfl⟩ := (List.eq_nil_or_concat' message).resolve_left some
  rw [List.length_append, List.length_singleton] at full
  rw [absorb_append, absorb_waiting hash s front (by omega), absorb_cons, absorb_nil, push, if_pos, List.append_assoc]
  rw [List.length_append, ← full, Nat.add_assoc]

theorem push_pending (s : Absorbed β σ) (x : β) (short : s.pending.length < hash.width) :
    (hash.push s x).pending.length = (s.pending.length + 1) % hash.width := by
  unfold push
  by_cases full : s.pending.length + 1 = hash.width
  · rw [if_pos full, full, Nat.mod_self]
    rfl
  · rw [if_neg full, Nat.mod_eq_of_lt (by omega), List.length_append, List.length_singleton]

theorem absorb_pending (s : Absorbed β σ) (message : List β) (short : s.pending.length < hash.width) :
    (hash.absorb s message).pending.length = (s.pending.length + message.length) % hash.width := by
  induction message generalizing s with
  | nil => rw [absorb_nil, List.length_nil, Nat.add_zero, Nat.mod_eq_of_lt short]
  | cons x message ih =>
      have pushed := hash.push_pending s x short
      rw [absorb_cons, ih _ (pushed ▸ Nat.mod_lt _ hash.positive), pushed, Nat.mod_add_mod, List.length_cons, Nat.add_assoc,
        Nat.add_comm 1]

theorem absorbed_pending (message : List β) : (hash.absorbed message).pending.length = message.length % hash.width := by
  rw [absorbed, absorb_pending hash ⟨hash.start, []⟩ message hash.positive, List.length_nil, Nat.zero_add]

theorem absorb_blocks (count : Nat) (state : σ) (message : List β) (whole : message.length = count * hash.width) :
    hash.absorb ⟨state, []⟩ message = ⟨hash.blocks count state message, []⟩ := by
  induction count generalizing state message with
  | zero =>
      rw [Nat.zero_mul, List.length_eq_zero_iff] at whole
      rw [whole]
      rfl
  | succ count ih =>
      have positive := hash.positive
      rw [Nat.succ_mul] at whole
      have first : (message.take hash.width).length = hash.width := by
        rw [List.length_take]
        omega
      have some : message.take hash.width ≠ [] := List.ne_nil_of_length_pos (by omega)
      have split := hash.absorb_append ⟨state, []⟩ (message.take hash.width) (message.drop hash.width)
      rw [List.take_append_drop] at split
      rw [split, absorb_filling hash _ _ some (by simpa using first), List.nil_append, ih _ _ (by simp; omega)]
      rfl

theorem absorbed_hashed (message : List β) (whole : message.length % hash.width = 0) :
    (hash.absorbed message).state = hash.hashed message := by
  have size : message.length = message.length / hash.width * hash.width :=
    (Nat.div_mul_cancel (Nat.dvd_of_mod_eq_zero whole)).symm
  rw [absorbed, hash.absorb_blocks _ hash.start message size]
  rfl

end BlockHash

-- The code of a message under a key, from any hash that works on blocks of `width` bytes.
namespace Hmac

def keyBlock (hash : List UInt8 → List UInt8) (width : Nat) (key : List UInt8) : List UInt8 :=
  let key := if key.length ≤ width then key else hash key
  key ++ List.replicate (width - key.length) (UInt8.ofNat 0)

def hmac (hash : List UInt8 → List UInt8) (width : Nat) (key message : List UInt8) : List UInt8 :=
  let block := keyBlock hash width key
  hash (block.map (fun byte => byte ^^^ UInt8.ofNat 0x5c) ++ hash (block.map (fun byte => byte ^^^ UInt8.ofNat 0x36) ++ message))

end Hmac
