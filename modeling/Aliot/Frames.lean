import Mathlib.Data.List.Basic

set_option autoImplicit false

-- Self-delimiting frames: what `encode` writes, `decode` takes off the front of any longer input.
structure FrameFormat (α β : Type) where
  encode : β → List α
  decode : List α → Option (β × List α)
  Good : β → Prop
  nonempty : ∀ x, encode x ≠ []
  round : ∀ x rest, Good x → decode (encode x ++ rest) = some (x, rest)

namespace FrameFormat

variable {α β : Type} (format : FrameFormat α β)

def encodeAll (xs : List β) : List α := xs.flatMap format.encode

def decodeUpTo : Nat → List α → Option (List β)
  | _, [] => some []
  | 0, _ :: _ => none
  | fuel + 1, byte :: bytes =>
      match format.decode (byte :: bytes) with
      | none => none
      | some (x, rest) => (decodeUpTo fuel rest).map (List.cons x)

-- Every frame takes at least one symbol, so the length of the input is fuel enough.
def decodeAll (bytes : List α) : Option (List β) := format.decodeUpTo bytes.length bytes

theorem encode_all_append (xs ys : List β) :
    format.encodeAll (xs ++ ys) = format.encodeAll xs ++ format.encodeAll ys := by
  simp only [encodeAll, List.flatMap_append]

theorem encode_all_length (xs : List β) : xs.length ≤ (format.encodeAll xs).length := by
  induction xs with
  | nil => exact Nat.le_refl _
  | cons x xs ih =>
      have one : 0 < (format.encode x).length := List.length_pos_of_ne_nil (format.nonempty x)
      simp only [encodeAll, List.flatMap_cons, List.length_append, List.length_cons] at ih ⊢
      omega

theorem decode_up_to_encode (fuel : Nat) (xs : List β) (good : ∀ x ∈ xs, format.Good x)
    (enough : xs.length ≤ fuel) : format.decodeUpTo fuel (format.encodeAll xs) = some xs := by
  induction xs generalizing fuel with
  | nil => cases fuel <;> rfl
  | cons x xs ih =>
      cases fuel with
      | zero => simp at enough
      | succ fuel =>
          have decoded := format.round x (format.encodeAll xs) (good x (by simp))
          have whole : format.encodeAll (x :: xs) = format.encode x ++ format.encodeAll xs := rfl
          have rest := ih fuel (fun y member => good y (by simp [member])) (by simpa using enough)
          rw [whole]
          cases shape : format.encode x ++ format.encodeAll xs with
          | nil => exact absurd (List.append_eq_nil_iff.mp shape).1 (format.nonempty x)
          | cons byte bytes =>
              rw [shape] at decoded
              simp only [decodeUpTo, decoded, rest, Option.map_some]

theorem decode_all_encode (xs : List β) (good : ∀ x ∈ xs, format.Good x) :
    format.decodeAll (format.encodeAll xs) = some xs :=
  format.decode_up_to_encode _ xs good (format.encode_all_length xs)

end FrameFormat
