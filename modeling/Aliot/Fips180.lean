import Mathlib.Logic.Function.Basic
import Aliot.BlockHash

set_option autoImplicit false

namespace Fips180

def rotr (n : Nat) (x : UInt32) : UInt32 := (x >>> UInt32.ofNat n) ||| (x <<< UInt32.ofNat (32 - n))

def Ch (x y z : UInt32) : UInt32 := (x &&& y) ^^^ (~~~x &&& z)
def Maj (x y z : UInt32) : UInt32 := (x &&& y) ^^^ (x &&& z) ^^^ (y &&& z)
def bigSigma0 (x : UInt32) : UInt32 := rotr 2 x ^^^ rotr 13 x ^^^ rotr 22 x
def bigSigma1 (x : UInt32) : UInt32 := rotr 6 x ^^^ rotr 11 x ^^^ rotr 25 x
def sigma0 (x : UInt32) : UInt32 := rotr 7 x ^^^ rotr 18 x ^^^ (x >>> UInt32.ofNat 3)
def sigma1 (x : UInt32) : UInt32 := rotr 17 x ^^^ rotr 19 x ^^^ (x >>> UInt32.ofNat 10)

def constants : List Nat :=
  [0x428a2f98, 0x71374491, 0xb5c0fbcf, 0xe9b5dba5, 0x3956c25b, 0x59f111f1, 0x923f82a4, 0xab1c5ed5,
    0xd807aa98, 0x12835b01, 0x243185be, 0x550c7dc3, 0x72be5d74, 0x80deb1fe, 0x9bdc06a7, 0xc19bf174,
    0xe49b69c1, 0xefbe4786, 0x0fc19dc6, 0x240ca1cc, 0x2de92c6f, 0x4a7484aa, 0x5cb0a9dc, 0x76f988da,
    0x983e5152, 0xa831c66d, 0xb00327c8, 0xbf597fc7, 0xc6e00bf3, 0xd5a79147, 0x06ca6351, 0x14292967,
    0x27b70a85, 0x2e1b2138, 0x4d2c6dfc, 0x53380d13, 0x650a7354, 0x766a0abb, 0x81c2c92e, 0x92722c85,
    0xa2bfe8a1, 0xa81a664b, 0xc24b8b70, 0xc76c51a3, 0xd192e819, 0xd6990624, 0xf40e3585, 0x106aa070,
    0x19a4c116, 0x1e376c08, 0x2748774c, 0x34b0bcb5, 0x391c0cb3, 0x4ed8aa4a, 0x5b9cca4f, 0x682e6ff3,
    0x748f82ee, 0x78a5636f, 0x84c87814, 0x8cc70208, 0x90befffa, 0xa4506ceb, 0xbef9a3f7, 0xc67178f2]

def K (t : Nat) : UInt32 := UInt32.ofNat (constants.getD t 0)

-- The hash value H(0) … H(7), and the working variables a … h.
structure Words where
  a : UInt32
  b : UInt32
  c : UInt32
  d : UInt32
  e : UInt32
  f : UInt32
  g : UInt32
  h : UInt32
deriving DecidableEq, Repr

namespace Words

def toList (v : Words) : List UInt32 := [v.a, v.b, v.c, v.d, v.e, v.f, v.g, v.h]

def add (v w : Words) : Words := ⟨v.a + w.a, v.b + w.b, v.c + w.c, v.d + w.d, v.e + w.e, v.f + w.f, v.g + w.g, v.h + w.h⟩

end Words

def initial : Words :=
  ⟨UInt32.ofNat 0x6a09e667, UInt32.ofNat 0xbb67ae85, UInt32.ofNat 0x3c6ef372, UInt32.ofNat 0xa54ff53a,
    UInt32.ofNat 0x510e527f, UInt32.ofNat 0x9b05688c, UInt32.ofNat 0x1f83d9ab, UInt32.ofNat 0x5be0cd19⟩

def word (b0 b1 b2 b3 : UInt8) : UInt32 :=
  b0.toUInt32 <<< UInt32.ofNat 24 ||| b1.toUInt32 <<< UInt32.ofNat 16 ||| b2.toUInt32 <<< UInt32.ofNat 8 ||| b3.toUInt32

def wordAt (bytes : Nat → UInt8) (i : Nat) : UInt32 :=
  word (bytes (4 * i)) (bytes (4 * i + 1)) (bytes (4 * i + 2)) (bytes (4 * i + 3))

def wordBytes (x : UInt32) : List UInt8 :=
  [(x >>> UInt32.ofNat 24).toUInt8, (x >>> UInt32.ofNat 16).toUInt8, (x >>> UInt32.ofNat 8).toUInt8, x.toUInt8]

def schedule (M : Nat → UInt32) (t : Nat) : UInt32 :=
  if t < 16 then M t
  else sigma1 (schedule M (t - 2)) + schedule M (t - 7) + sigma0 (schedule M (t - 15)) + schedule M (t - 16)
termination_by t

def round (k w : UInt32) (v : Words) : Words :=
  let t1 := v.h + bigSigma1 v.e + Ch v.e v.f v.g + k + w
  let t2 := bigSigma0 v.a + Maj v.a v.b v.c
  ⟨t1 + t2, v.a, v.b, v.c, v.d + t1, v.e, v.f, v.g⟩

def rounds (W : Nat → UInt32) : Nat → Words → Words
  | 0, v => v
  | count + 1, v => round (K count) (W count) (rounds W count v)

def compress (H : Words) (block : List UInt8) : Words :=
  H.add (rounds (schedule (wordAt (fun i => block.getD i 0))) 64 H)

def blockHash : BlockHash UInt8 Words := ⟨64, Nat.succ_pos 63, initial, compress⟩

def bigEndian : Nat → Nat → List UInt8
  | 0, _ => []
  | count + 1, n => bigEndian count (n / 256) ++ [UInt8.ofNat n]

-- A one bit, zeros up to 56 bytes of a block, and the number of bits in the last eight.
def padding (length : Nat) : List UInt8 :=
  UInt8.ofNat 0x80 :: List.replicate ((119 - length % 64) % 64) (UInt8.ofNat 0) ++ bigEndian 8 (8 * length)

def digest (H : Words) : List UInt8 := H.toList.flatMap wordBytes

def sha256 (message : List UInt8) : List UInt8 := digest (blockHash.hashed (message ++ padding message.length))

theorem big_endian_length (count n : Nat) : (bigEndian count n).length = count := by
  induction count generalizing n with
  | zero => rfl
  | succ count ih => rw [bigEndian, List.length_append, ih, List.length_singleton]

theorem padding_length (length : Nat) : (length + (padding length).length) % 64 = 0 := by
  rw [padding, List.length_append, big_endian_length, List.length_cons, List.length_replicate]
  omega

-- What a hash taken byte by byte has to come to.
theorem sha256_absorbed (message : List UInt8) :
    sha256 message = digest (blockHash.absorb (blockHash.absorbed message) (padding message.length)).state := by
  rw [← BlockHash.absorbed_append, BlockHash.absorbed_hashed, sha256]
  rw [List.length_append]
  exact padding_length message.length

theorem schedule_early (M : Nat → UInt32) (t : Nat) (early : t < 16) : schedule M t = M t := by
  rw [schedule, if_pos early]

theorem schedule_late (M : Nat → UInt32) (t : Nat) : schedule M (t + 16) =
    sigma1 (schedule M (t + 14)) + schedule M (t + 9) + sigma0 (schedule M (t + 1)) + schedule M t := by
  rw [schedule, if_neg (Nat.not_lt.mpr (Nat.le_add_left 16 t))]
  rfl

theorem schedule_congr (M N : Nat → UInt32) (same : ∀ i, i < 16 → M i = N i) (t : Nat) : schedule M t = schedule N t := by
  induction t using Nat.strongRecOn with
  | ind t ih =>
      by_cases early : t < 16
      · rw [schedule_early M t early, schedule_early N t early, same t early]
      · obtain ⟨s, rfl⟩ := Nat.exists_eq_add_of_le' (Nat.le_of_not_lt early)
        rw [schedule_late, schedule_late, ih (s + 14) (by omega), ih (s + 9) (by omega), ih (s + 1) (by omega), ih s (by omega)]

end Fips180
