import Aliot.Frames
import Aliot.Memory

set_option autoImplicit false

-- Texts told by runs of literals and by copies of what stands `distance` symbols back; a copy may run into itself.
namespace LempelZiv

inductive Token (α : Type) where
  | literals (run : List α)
  | copy (distance length : Nat)
deriving DecidableEq, Repr

section Expand

variable {α : Type}

def copyBack (distance : Nat) : Nat → List α → Option (List α)
  | 0, text => some text
  | length + 1, text =>
      if distance ≤ text.length then
        (text[text.length - distance]?).bind (fun x => copyBack distance length (text ++ [x]))
      else none

def expandToken (text : List α) : Token α → Option (List α)
  | .literals run => some (text ++ run)
  | .copy distance length => copyBack distance length text

def expand : List (Token α) → List α → Option (List α)
  | [], text => some text
  | token :: tokens, text => (expandToken text token).bind (expand tokens)

theorem expand_append (first second : List (Token α)) (text : List α) :
    expand (first ++ second) text = (expand first text).bind (expand second) := by
  induction first generalizing text with
  | nil => rfl
  | cons token first ih =>
      simp only [List.cons_append, expand]
      cases expandToken text token with
      | none => rfl
      | some next => exact ih next

theorem expand_then (tokens : List (Token α)) (token : Token α) (text between : List α)
    (told : expand tokens text = some between) : expand (tokens ++ [token]) text = expandToken between token := by
  rw [expand_append, told, Option.bind_some, expand]
  cases expandToken between token <;> rfl

theorem load_get (mem : Nat → α) (len i : Nat) (within : i < len) : (Memory.load mem 0 len)[i]? = some (mem i) := by
  obtain ⟨rest, rfl⟩ := Nat.exists_eq_add_of_lt within
  rw [Nat.add_assoc, Memory.load_append, List.getElem?_append_right (by simp), Memory.load_length, Nat.sub_self, Nat.zero_add]
  rfl

theorem load_snoc (mem : Nat → α) (len : Nat) : Memory.load mem 0 len ++ [mem len] = Memory.load mem 0 (len + 1) := by
  rw [Memory.load_append, Nat.zero_add]
  rfl

-- A copy of symbols that have been compared with those to come tells the text on.
theorem copy_back_load (mem : Nat → α) (distance length start : Nat) (near : 1 ≤ distance) (behind : distance ≤ start)
    (same : ∀ i, i < length → mem (start - distance + i) = mem (start + i)) :
    copyBack distance length (Memory.load mem 0 start) = some (Memory.load mem 0 (start + length)) := by
  induction length generalizing start with
  | zero => rfl
  | succ length ih =>
      have first : mem (start - distance) = mem start := same 0 (Nat.succ_pos length)
      have found := load_get mem start (start - distance) (by omega)
      rw [copyBack, Memory.load_length, if_pos behind, found, first, Option.bind_some, load_snoc]
      rw [ih (start + 1) (by omega), Nat.add_assoc, Nat.add_comm 1]
      intro i inside
      have later := same (i + 1) (by omega)
      rw [show start + 1 - distance + i = start - distance + (i + 1) by omega, later, Nat.add_assoc, Nat.add_comm 1]

end Expand

-- The LZF bytes of a token: literals behind their number less one; a copy with its distance less one in 13 bits, and with its
-- length less two in the upper three bits of the first byte, or, from seven on, in a byte of its own.
def encodeToken : Token UInt8 → List UInt8
  | .literals run => UInt8.ofNat (run.length - 1) :: run
  | .copy distance length =>
      if length - 2 < 7 then [UInt8.ofNat ((distance - 1) / 256 + (length - 2) * 32), UInt8.ofNat (distance - 1)]
      else [UInt8.ofNat ((distance - 1) / 256 + 224), UInt8.ofNat (length - 9), UInt8.ofNat (distance - 1)]

def decodeToken : List UInt8 → Option (Token UInt8 × List UInt8)
  | [] => none
  | ctrl :: rest =>
      if ctrl.toNat < 32 then
        if ctrl.toNat + 1 ≤ rest.length then some (.literals (rest.take (ctrl.toNat + 1)), rest.drop (ctrl.toNat + 1))
        else none
      else if ctrl.toNat < 224 then
        match rest with
        | low :: rest => some (.copy (ctrl.toNat % 32 * 256 + low.toNat + 1) (ctrl.toNat / 32 + 2), rest)
        | _ => none
      else
        match rest with
        | more :: low :: rest => some (.copy (ctrl.toNat % 32 * 256 + low.toNat + 1) (more.toNat + 9), rest)
        | _ => none

def GoodToken : Token UInt8 → Prop
  | .literals run => 1 ≤ run.length ∧ run.length ≤ 32
  | .copy distance length => (1 ≤ distance ∧ distance ≤ 8192) ∧ 3 ≤ length ∧ length ≤ 264

theorem token_round (token : Token UInt8) (rest : List UInt8) (good : GoodToken token) :
    decodeToken (encodeToken token ++ rest) = some (token, rest) := by
  cases token with
  | literals run =>
      obtain ⟨low, high⟩ := good
      have ctrl : (UInt8.ofNat (run.length - 1)).toNat = run.length - 1 := by
        rw [UInt8.toNat_ofNat']
        omega
      have size : run.length - 1 + 1 = run.length := by omega
      simp only [encodeToken, List.cons_append, decodeToken, ctrl, size, List.length_append]
      rw [if_pos (by omega), if_pos (Nat.le_add_right _ _), List.take_left, List.drop_left]
  | copy distance length =>
      obtain ⟨⟨near, far⟩, low, high⟩ := good
      have offset : (UInt8.ofNat (distance - 1)).toNat = (distance - 1) % 256 := UInt8.toNat_ofNat'
      by_cases short : length - 2 < 7
      · have ctrl : (UInt8.ofNat ((distance - 1) / 256 + (length - 2) * 32)).toNat =
            (distance - 1) / 256 + (length - 2) * 32 := by
          rw [UInt8.toNat_ofNat']
          omega
        simp only [encodeToken, if_pos short, List.cons_append, List.nil_append, decodeToken, ctrl, offset]
        rw [if_neg (by omega), if_pos (by omega)]
        have parts : ((distance - 1) / 256 + (length - 2) * 32) % 32 * 256 + (distance - 1) % 256 + 1 = distance ∧
            ((distance - 1) / 256 + (length - 2) * 32) / 32 + 2 = length := by omega
        rw [parts.1, parts.2]
      · have ctrl : (UInt8.ofNat ((distance - 1) / 256 + 224)).toNat = (distance - 1) / 256 + 224 := by
          rw [UInt8.toNat_ofNat']
          omega
        have more : (UInt8.ofNat (length - 9)).toNat = length - 9 := by
          rw [UInt8.toNat_ofNat']
          omega
        simp only [encodeToken, if_neg short, List.cons_append, List.nil_append, decodeToken, ctrl, more, offset]
        rw [if_neg (by omega), if_neg (by omega)]
        have parts : ((distance - 1) / 256 + 224) % 32 * 256 + (distance - 1) % 256 + 1 = distance ∧ length - 9 + 9 = length := by
          omega
        rw [parts.1, parts.2]

def tokenFormat : FrameFormat UInt8 (Token UInt8) where
  encode := encodeToken
  decode := decodeToken
  Good := GoodToken
  nonempty := by
    intro token
    cases token with
    | literals run => exact List.cons_ne_nil _ _
    | copy distance length => simp only [encodeToken]; split <;> exact List.cons_ne_nil _ _
  round := token_round

-- The text that a stream of tokens tells, from nothing.
def decompress (bytes : List UInt8) : Option (List UInt8) :=
  (tokenFormat.decodeAll bytes).bind (fun tokens => expand tokens [])

theorem decompress_encoded (tokens : List (Token UInt8)) (text : List UInt8) (good : ∀ token ∈ tokens, GoodToken token)
    (told : expand tokens [] = some text) : decompress (tokenFormat.encodeAll tokens) = some text := by
  rw [decompress, tokenFormat.decode_all_encode tokens good, Option.bind_some, told]

end LempelZiv
