import Mathlib.Data.List.GetD
import Mathlib.Tactic.NormNum
import Aliot.CString
import Aliot.Fips180
import Aliot.Memory

set_option autoImplicit false

namespace Aliot

open Fips180 (K Words)

-- hmac.c. hash, digest and key are written whole; length counts the bits of the messages so far.
structure Sha256 where
  hash : Bytes
  buffer : Nat → UInt32
  state : Words
  length : Bytes

structure HmacSha256 where
  digest : Bytes
  key : Bytes
  sha : Sha256

-- The seventeenth word that is cleared is state[0], which is set right behind.
def sha256Initialize (sha : Sha256) : Sha256 :=
  ⟨sha.hash, fun _ => UInt32.ofNat 0,
    ⟨UInt32.ofNat 0x6a09e667, UInt32.ofNat 0xbb67ae85, UInt32.ofNat 0x3c6ef372, UInt32.ofNat 0xa54ff53a,
      UInt32.ofNat 0x510e527f, UInt32.ofNat 0x9b05688c, UInt32.ofNat 0x1f83d9ab, UInt32.ofNat 0x5be0cd19⟩,
    List.replicate 8 (UInt8.ofNat 0)⟩

-- The bits that byte i of the length is to take, & 0xff.
def lengthBits (length : UInt32) (i : Nat) : Nat :=
  if i = 7 then (length <<< UInt32.ofNat 3).toNat % 256
  else if i = 0 ∨ i = 1 ∨ i = 2 then 0
  else (length >>> UInt32.ofNat (53 - 8 * i)).toNat % 256

-- for (j = i - 1; j >= 0 && sha->length[j]++ == 0xff; --j)
def carry : Nat → Bytes → Bytes
  | 0, counter => counter
  | j + 1, counter =>
      let digit := counter.getD j (UInt8.ofNat 0)
      let next := counter.set j (digit + UInt8.ofNat 1)
      if digit.toNat = 0xff then carry j next else next

def addBits (bits i : Nat) (counter : Bytes) : Bytes :=
  let counter := if (counter.getD i (UInt8.ofNat 0)).toNat + bits > 0xff then carry i counter else counter
  counter.set i (counter.getD i (UInt8.ofNat 0) + UInt8.ofNat bits)

-- The bytes below the given index, the last one first.
def addLength (length : UInt32) : Nat → Bytes → Bytes
  | 0, counter => counter
  | i + 1, counter => addLength length i (addBits (lengthBits length i) i counter)

-- The bytes that the total length leaves in the last block.
def blockBytes (counter : Bytes) : Nat :=
  (counter.getD 6 (UInt8.ofNat 0)).toNat % 2 * 32 + (counter.getD 7 (UInt8.ofNat 0)).toNat / 8

def appendBytes : Bytes → Nat → (Nat → UInt32) → Bytes × Nat × (Nat → UInt32)
  | [], index, buffer => ([], index, buffer)
  | byte :: message, index, buffer =>
      if index < 64 then
        appendBytes message (index + 1)
          (Function.update buffer (index / 4) (buffer (index / 4) ||| byte.toUInt32 <<< UInt32.ofNat (24 - index % 4 * 8)))
      else (byte :: message, index, buffer)

-- w[16], w[17] and so on behind the words of the buffer.
def extendW : Nat → List UInt32 → List UInt32
  | 0, w => w
  | count + 1, words =>
      let words := extendW count words
      let w := fun i => words.getD i (UInt32.ofNat 0)
      let t := count + 16
      let s0 := w (t - 15) >>> UInt32.ofNat 7 ||| w (t - 15) <<< UInt32.ofNat 25
      let s0 := s0 ^^^ (w (t - 15) >>> UInt32.ofNat 18 ||| w (t - 15) <<< UInt32.ofNat 14)
      let s0 := s0 ^^^ (w (t - 15) >>> UInt32.ofNat 3)
      let s1 := w (t - 2) >>> UInt32.ofNat 17 ||| w (t - 2) <<< UInt32.ofNat 15
      let s1 := s1 ^^^ (w (t - 2) >>> UInt32.ofNat 19 ||| w (t - 2) <<< UInt32.ofNat 13)
      let s1 := s1 ^^^ (w (t - 2) >>> UInt32.ofNat 10)
      words ++ [s1 + w (t - 7) + s0 + w (t - 16)]

def mixRound (k w : UInt32) (v : Words) : Words :=
  let e0 := v.a >>> UInt32.ofNat 2 ||| v.a <<< UInt32.ofNat 30
  let e0 := e0 ^^^ (v.a >>> UInt32.ofNat 13 ||| v.a <<< UInt32.ofNat 19)
  let e0 := e0 ^^^ (v.a >>> UInt32.ofNat 22 ||| v.a <<< UInt32.ofNat 10)
  let e1 := v.e >>> UInt32.ofNat 6 ||| v.e <<< UInt32.ofNat 26
  let e1 := e1 ^^^ (v.e >>> UInt32.ofNat 11 ||| v.e <<< UInt32.ofNat 21)
  let e1 := e1 ^^^ (v.e >>> UInt32.ofNat 25 ||| v.e <<< UInt32.ofNat 7)
  let t1 := v.h + e1 + ((v.e &&& v.f) ^^^ (~~~v.e &&& v.g)) + k + w
  let t2 := e0 + ((v.a &&& v.b) ^^^ (v.a &&& v.c) ^^^ (v.b &&& v.c))
  ⟨t1 + t2, v.a, v.b, v.c, v.d + t1, v.e, v.f, v.g⟩

-- k is the table of FIPS 180-2.
def mixRounds (w : List UInt32) : Nat → Words → Words
  | 0, v => v
  | t + 1, v => mixRound (K t) (w.getD t (UInt32.ofNat 0)) (mixRounds w t v)

def hashBuffer (sha : Sha256) : Sha256 :=
  let v := mixRounds (extendW 48 ((List.range 16).map sha.buffer)) 64 sha.state
  { sha with
    buffer := fun t => if t < 16 then UInt32.ofNat 0 else sha.buffer t
    state := ⟨sha.state.a + v.a, sha.state.b + v.b, sha.state.c + v.c, sha.state.d + v.d, sha.state.e + v.e, sha.state.f + v.f,
      sha.state.g + v.g, sha.state.h + v.h⟩ }

-- while (length > 0): a round takes at least one byte of what is left.
def updateRounds : Nat → Bytes → Sha256 → Sha256
  | 0, _, sha => sha
  | fuel + 1, message, sha =>
      if message.length > 0 then
        let index := (blockBytes sha.length + 64 - message.length % 64) % 64
        let (message, index, buffer) := appendBytes message index sha.buffer
        let sha := { sha with buffer := buffer }
        updateRounds fuel message (if index = 64 then hashBuffer sha else sha)
      else sha

def sha256Update (sha : Sha256) (message : Bytes) (length : UInt32) : Sha256 :=
  updateRounds length.toNat (message.take length.toNat) { sha with length := addLength length 8 sha.length }

-- terminator begins with 0x80; its last eight bytes are the length so far.
def sha256Finalize (sha : Sha256) (message : Bytes) (length : UInt32) : Sha256 :=
  let sha := if length > UInt32.ofNat 0 then sha256Update sha message length else sha
  let length := 64 - blockBytes sha.length
  let length := if length < 9 then length + 64 else length
  let terminator := Memory.store (fun i => if i = 0 then UInt8.ofNat 0x80 else UInt8.ofNat 0) (length - 8) sha.length
  let sha := sha256Update sha (Memory.load terminator 0 72) (UInt32.ofNat length)
  { sha with hash := (List.range 32).map (fun i =>
      ((sha.state.toList.getD (i / 4) (UInt32.ofNat 0) >>> UInt32.ofNat (24 - 8 * (i % 4))) &&& UInt32.ofNat 0xff).toUInt8) }

-- Every function of an int length passes it on as a uint32_t.
def asUint32 (length : Int) : UInt32 := UInt32.ofNat (length % 2 ^ 32).toNat

def sha256Get (sha : Sha256) (message : Bytes) (length : Int) : Bytes :=
  (sha256Finalize (sha256Initialize sha) message (asUint32 length)).hash

def hmacSha256Initialize (hmac : HmacSha256) (key : Bytes) (length : Int) : HmacSha256 :=
  let (key, sha) :=
    if length ≤ 64 then
      ((key.take length.toNat).map (fun byte => byte ^^^ UInt8.ofNat 0x36) ++
        List.replicate (64 - length.toNat) (UInt8.ofNat 0x36), hmac.sha)
    else
      let sha := sha256Finalize (sha256Initialize hmac.sha) key (asUint32 length)
      (sha.hash.map (fun byte => byte ^^^ UInt8.ofNat 0x36) ++ List.replicate 32 (UInt8.ofNat 0x36), sha)
  ⟨hmac.digest, key, sha256Update (sha256Initialize sha) key (UInt32.ofNat 64)⟩

def hmacSha256Update (hmac : HmacSha256) (message : Bytes) (length : Int) : HmacSha256 :=
  { hmac with sha := sha256Update hmac.sha message (asUint32 length) }

def hmacSha256Finalize (hmac : HmacSha256) (message : Bytes) (length : Int) : HmacSha256 :=
  let sha := sha256Finalize hmac.sha message (asUint32 length)
  let digest := sha.hash
  let key := hmac.key.map (fun byte => byte ^^^ UInt8.ofNat (0x36 ^^^ 0x5c))
  let sha := sha256Update (sha256Initialize sha) key (UInt32.ofNat 64)
  let sha := sha256Finalize sha digest (UInt32.ofNat 32)
  ⟨sha.hash, key, sha⟩

def hmacSha256Get (hmac : HmacSha256) (message : Bytes) (messageLength : Int) (key : Bytes) (keyLength : Int) : Bytes :=
  (hmacSha256Finalize (hmacSha256Initialize hmac key keyLength) message messageLength).digest

section Counter

-- The number that the first `n` bytes are.
def counted : Nat → Bytes → Nat
  | 0, _ => 0
  | n + 1, counter => counted n counter * 256 + (counter.getD n (UInt8.ofNat 0)).toNat

theorem get_set_other (counter : Bytes) (i j : Nat) (byte : UInt8) (other : i ≠ j) :
    (counter.set i byte).getD j (UInt8.ofNat 0) = counter.getD j (UInt8.ofNat 0) := by
  simp only [List.getD_eq_getElem?_getD, List.getElem?_set_ne other]

theorem get_set_same (counter : Bytes) (i : Nat) (byte : UInt8) (inside : i < counter.length) :
    (counter.set i byte).getD i (UInt8.ofNat 0) = byte := by
  simp only [List.getD_eq_getElem?_getD, List.getElem?_set_self inside, Option.getD_some]

theorem counted_bound (n : Nat) (counter : Bytes) : counted n counter < 256 ^ n := by
  induction n with
  | zero => exact Nat.one_pos
  | succ n ih =>
      have digit := (counter.getD n (UInt8.ofNat 0)).toNat_lt
      rw [counted, Nat.pow_succ]
      omega

theorem counted_set (n j : Nat) (counter : Bytes) (byte : UInt8) (above : n ≤ j) :
    counted n (counter.set j byte) = counted n counter := by
  induction n with
  | zero => rfl
  | succ n ih => rw [counted, counted, ih (Nat.le_of_succ_le above), get_set_other counter j n byte (by omega)]

theorem carry_length (n : Nat) (counter : Bytes) : (carry n counter).length = counter.length := by
  induction n generalizing counter with
  | zero => rfl
  | succ n ih =>
      simp only [carry]
      split
      · rw [ih, List.length_set]
      · rw [List.length_set]

theorem carry_above (n j : Nat) (counter : Bytes) (above : n ≤ j) :
    (carry n counter).getD j (UInt8.ofNat 0) = counter.getD j (UInt8.ofNat 0) := by
  induction n generalizing counter with
  | zero => rfl
  | succ n ih =>
      simp only [carry]
      split
      · rw [ih _ (Nat.le_of_succ_le above), get_set_other _ _ _ _ (by omega)]
      · rw [get_set_other _ _ _ _ (by omega)]

theorem pow_mod_step (n high low : Nat) (small : low < 256) :
    high % 256 ^ n * 256 + low = (high * 256 + low) % 256 ^ (n + 1) := by
  have quotient : (high * 256 + low) / 256 = high := by omega
  have remainder : (high * 256 + low) % 256 = low := by omega
  rw [Nat.pow_succ, Nat.mul_comm (256 ^ n) 256, Nat.mod_mul, quotient, remainder]
  omega

-- The carry adds one to the number that the bytes below are.
theorem carry_counted (n : Nat) (counter : Bytes) (inside : n ≤ counter.length) :
    counted n (carry n counter) = (counted n counter + 1) % 256 ^ n := by
  induction n generalizing counter with
  | zero => simp [counted]
  | succ n ih =>
      have digit := (counter.getD n (UInt8.ofNat 0)).toNat_lt
      simp only [carry, counted]
      by_cases full : (counter.getD n (UInt8.ofNat 0)).toNat = 0xff
      · have wrapped : (counter.getD n (UInt8.ofNat 0) + UInt8.ofNat 1).toNat = 0 := by
          rw [UInt8.toNat_add, full]
          rfl
        rw [if_pos full, ih _ (by rw [List.length_set]; omega), counted_set _ _ _ _ (Nat.le_refl n), carry_above _ _ _ (Nat.le_refl n),
          get_set_same _ _ _ (by omega), wrapped, pow_mod_step _ _ _ (by omega), full]
        exact congrArg (fun number => number % 256 ^ (n + 1)) (by omega)
      · have stepped : (counter.getD n (UInt8.ofNat 0) + UInt8.ofNat 1).toNat = (counter.getD n (UInt8.ofNat 0)).toNat + 1 := by
          rw [UInt8.toNat_add]
          change (_ + 1) % 256 = _
          omega
        have bound := counted_bound n counter
        rw [if_neg full, counted_set _ _ _ _ (Nat.le_refl n), get_set_same _ _ _ (by omega), stepped, Nat.mod_eq_of_lt, Nat.add_assoc]
        rw [Nat.pow_succ]
        omega

theorem add_bits_length (bits i : Nat) (counter : Bytes) : (addBits bits i counter).length = counter.length := by
  simp only [addBits, List.length_set]
  split
  · exact carry_length i counter
  · rfl

theorem add_bits_above (bits i j : Nat) (counter : Bytes) (above : i < j) :
    (addBits bits i counter).getD j (UInt8.ofNat 0) = counter.getD j (UInt8.ofNat 0) := by
  simp only [addBits]
  rw [get_set_other _ _ _ _ (Nat.ne_of_lt above)]
  split
  · exact carry_above i j counter (Nat.le_of_lt above)
  · rfl

theorem add_bits_counted (bits i : Nat) (counter : Bytes) (small : bits < 256) (inside : i < counter.length) :
    counted (i + 1) (addBits bits i counter) = (counted (i + 1) counter + bits) % 256 ^ (i + 1) := by
  have digit := (counter.getD i (UInt8.ofNat 0)).toNat_lt
  have added : (counter.getD i (UInt8.ofNat 0) + UInt8.ofNat bits).toNat = ((counter.getD i (UInt8.ofNat 0)).toNat + bits) % 256 := by
    rw [UInt8.toNat_add, UInt8.toNat_ofNat']
    omega
  simp only [addBits, counted]
  rw [counted_set _ _ _ _ (Nat.le_refl i)]
  by_cases carries : (counter.getD i (UInt8.ofNat 0)).toNat + bits > 0xff
  · rw [if_pos carries, get_set_same _ _ _ (by rw [carry_length]; exact inside), carry_above _ _ _ (Nat.le_refl i), added,
      carry_counted _ _ (Nat.le_of_lt inside), pow_mod_step _ _ _ (Nat.mod_lt _ (by decide))]
    exact congrArg (fun number => number % 256 ^ (i + 1)) (by omega)
  · have bound := counted_bound i counter
    rw [if_neg carries, get_set_same _ _ _ inside, added, Nat.mod_eq_of_lt (show _ + bits < 256 by omega), Nat.mod_eq_of_lt,
      Nat.add_assoc]
    rw [Nat.pow_succ]
    omega

-- What is to be added at byte i and above.
theorem length_bits_split (length : UInt32) (i : Nat) (inside : i < 8) :
    8 * length.toNat / 256 ^ (7 - i) = 8 * length.toNat / 256 ^ (8 - i) * 256 + lengthBits length i := by
  have bound := length.toNat_lt
  have shifts : ∀ n, n < 32 → (length >>> UInt32.ofNat n).toNat = length.toNat / 2 ^ n := by
    intro n small
    rw [UInt32.toNat_shiftRight, UInt32.toNat_ofNat', Nat.shiftRight_eq_div_pow]
    congr 2
    omega
  have last : (length <<< UInt32.ofNat 3).toNat = length.toNat * 8 % 2 ^ 32 := by
    rw [UInt32.toNat_shiftLeft, Nat.shiftLeft_eq]
    rfl
  unfold lengthBits
  obtain rfl | rfl | rfl | rfl | rfl | rfl | rfl | rfl :
      i = 0 ∨ i = 1 ∨ i = 2 ∨ i = 3 ∨ i = 4 ∨ i = 5 ∨ i = 6 ∨ i = 7 := by omega
  all_goals norm_num [shifts, last]
  all_goals omega

theorem add_length_length (length : UInt32) (n : Nat) (counter : Bytes) : (addLength length n counter).length = counter.length := by
  induction n generalizing counter with
  | zero => rfl
  | succ n ih => rw [addLength, ih, add_bits_length]

theorem add_length_above (length : UInt32) (n j : Nat) (counter : Bytes) (above : n ≤ j) :
    (addLength length n counter).getD j (UInt8.ofNat 0) = counter.getD j (UInt8.ofNat 0) := by
  induction n generalizing counter with
  | zero => rfl
  | succ n ih => rw [addLength, ih _ (Nat.le_of_succ_le above), add_bits_above _ _ _ _ above]

theorem length_bits_small (length : UInt32) (i : Nat) : lengthBits length i < 256 := by
  unfold lengthBits
  split
  · exact Nat.mod_lt _ (by decide)
  · split
    · decide
    · exact Nat.mod_lt _ (by decide)

theorem add_length_counted (length : UInt32) (n : Nat) (counter : Bytes) (eight : n ≤ 8) (inside : n ≤ counter.length) :
    counted n (addLength length n counter) = (counted n counter + 8 * length.toNat / 256 ^ (8 - n)) % 256 ^ n := by
  induction n generalizing counter with
  | zero => simp [counted, Nat.mod_one]
  | succ n ih =>
      have digit := ((addBits (lengthBits length n) n counter).getD n (UInt8.ofNat 0)).toNat_lt
      have added := add_bits_counted (lengthBits length n) n counter (length_bits_small length n) inside
      have parts := length_bits_split length n eight
      rw [show 7 - n = 8 - (n + 1) by omega] at parts
      simp only [counted] at added
      rw [addLength, counted, add_length_above _ _ _ _ (Nat.le_refl n), ih _ (by omega) (by rw [add_bits_length]; omega),
        pow_mod_step _ _ _ digit, Nat.add_mul, Nat.add_right_comm, added, Nat.mod_add_mod, parts, counted,
        Nat.add_assoc _ (lengthBits length n), Nat.add_comm (lengthBits length n)]

theorem counted_big_endian (n : Nat) (counter : Bytes) (inside : n ≤ counter.length) :
    Fips180.bigEndian n (counted n counter) = counter.take n := by
  induction n with
  | zero => rfl
  | succ n ih =>
      have digit := (counter.getD n (UInt8.ofNat 0)).toNat_lt
      have quotient : (counted n counter * 256 + (counter.getD n (UInt8.ofNat 0)).toNat) / 256 = counted n counter := by omega
      have last : UInt8.ofNat (counted n counter * 256 + (counter.getD n (UInt8.ofNat 0)).toNat) = counter.getD n (UInt8.ofNat 0) := by
        apply UInt8.toNat_inj.mp
        rw [UInt8.toNat_ofNat']
        omega
      rw [counted, Fips180.bigEndian, quotient, ih (Nat.le_of_succ_le inside), last, List.take_add_one,
        List.getD_eq_getElem _ _ inside, List.getElem?_eq_getElem inside]
      rfl

theorem big_endian_mod (n number : Nat) : Fips180.bigEndian n (number % 256 ^ n) = Fips180.bigEndian n number := by
  induction n generalizing number with
  | zero => rfl
  | succ n ih =>
      have quotient : number % 256 ^ (n + 1) / 256 = number / 256 % 256 ^ n := by
        rw [Nat.pow_succ, Nat.mul_comm, Nat.mod_mul_right_div_self]
      have last : UInt8.ofNat (number % 256 ^ (n + 1)) = UInt8.ofNat number := by
        apply UInt8.toNat_inj.mp
        rw [UInt8.toNat_ofNat', UInt8.toNat_ofNat', Nat.pow_succ, Nat.mul_comm]
        exact Nat.mod_mul_right_mod _ _ _
      rw [Fips180.bigEndian, Fips180.bigEndian, quotient, last, ih]

theorem block_bytes_counted (counter : Bytes) : blockBytes counter = counted 8 counter / 8 % 64 := by
  have digit := (counter.getD 7 (UInt8.ofNat 0)).toNat_lt
  simp only [blockBytes, counted]
  omega

end Counter

section Buffer

def byteAt (bytes : Bytes) (j : Nat) : UInt8 := bytes.getD j 0

-- The words of the buffer are the bytes that wait, with zeros behind them.
def Packs (buffer : Nat → UInt32) (pending : Bytes) : Prop := ∀ i, i < 16 → buffer i = Fips180.wordAt (byteAt pending) i

theorem byte_at_snoc (bytes : Bytes) (byte : UInt8) (j : Nat) :
    byteAt (bytes ++ [byte]) j = if j = bytes.length then byte else byteAt bytes j := by
  unfold byteAt
  split
  · rename_i last
    rw [last]
    simp
  · rename_i other
    rcases Nat.lt_or_gt_of_ne other with before | behind
    · rw [List.getD_append _ _ _ _ before]
    · rw [List.getD_eq_default _ _ (by simp; omega), List.getD_eq_default _ _ (Nat.le_of_lt behind)]

theorem byte_at_behind (bytes : Bytes) (j : Nat) (behind : bytes.length ≤ j) : byteAt bytes j = 0 :=
  List.getD_eq_default _ _ behind

theorem word_with (b0 b1 b2 byte : UInt8) :
    Fips180.word 0 0 0 0 ||| byte.toUInt32 <<< UInt32.ofNat 24 = Fips180.word byte 0 0 0 ∧
    Fips180.word b0 0 0 0 ||| byte.toUInt32 <<< UInt32.ofNat 16 = Fips180.word b0 byte 0 0 ∧
    Fips180.word b0 b1 0 0 ||| byte.toUInt32 <<< UInt32.ofNat 8 = Fips180.word b0 b1 byte 0 ∧
    Fips180.word b0 b1 b2 0 ||| byte.toUInt32 <<< UInt32.ofNat 0 = Fips180.word b0 b1 b2 byte := by
  simp [Fips180.word]

theorem packs_snoc (buffer : Nat → UInt32) (pending : Bytes) (byte : UInt8) (packs : Packs buffer pending) :
    Packs (Function.update buffer (pending.length / 4)
      (buffer (pending.length / 4) ||| byte.toUInt32 <<< UInt32.ofNat (24 - pending.length % 4 * 8))) (pending ++ [byte]) := by
  intro i inside
  by_cases here : i = pending.length / 4
  · subst here
    rw [Function.update_self, packs _ inside]
    simp only [Fips180.wordAt, byte_at_snoc]
    obtain place | place | place | place : pending.length % 4 = 0 ∨ pending.length % 4 = 1 ∨ pending.length % 4 = 2 ∨
        pending.length % 4 = 3 := by omega
    · rw [place, byte_at_behind pending _ (by omega), byte_at_behind pending (4 * _ + 1) (by omega),
        byte_at_behind pending (4 * _ + 2) (by omega), byte_at_behind pending (4 * _ + 3) (by omega), if_pos (by omega),
        if_neg (by omega), if_neg (by omega), if_neg (by omega)]
      exact (word_with 0 0 0 byte).1
    · rw [place, byte_at_behind pending (4 * _ + 1) (by omega),
        byte_at_behind pending (4 * _ + 2) (by omega), byte_at_behind pending (4 * _ + 3) (by omega), if_neg (by omega),
        if_pos (by omega), if_neg (by omega), if_neg (by omega)]
      exact (word_with _ 0 0 byte).2.1
    · rw [place, byte_at_behind pending (4 * _ + 2) (by omega), byte_at_behind pending (4 * _ + 3) (by omega),
        if_neg (by omega), if_neg (by omega), if_pos (by omega), if_neg (by omega)]
      exact (word_with _ _ 0 byte).2.2.1
    · rw [place, byte_at_behind pending (4 * _ + 3) (by omega),
        if_neg (by omega), if_neg (by omega), if_neg (by omega), if_pos (by omega)]
      exact (word_with _ _ _ byte).2.2.2
  · rw [Function.update_of_ne here, packs i inside]
    simp only [Fips180.wordAt, byte_at_snoc]
    rw [if_neg (by omega), if_neg (by omega), if_neg (by omega), if_neg (by omega)]

-- The for loop: bytes are taken until the buffer is full.
theorem append_bytes_packs (message pending : Bytes) (buffer : Nat → UInt32) (packs : Packs buffer pending)
    (room : pending.length ≤ 64) :
    (appendBytes message pending.length buffer).1 = message.drop (64 - pending.length) ∧
      (appendBytes message pending.length buffer).2.1 = (pending ++ message.take (64 - pending.length)).length ∧
      Packs (appendBytes message pending.length buffer).2.2 (pending ++ message.take (64 - pending.length)) := by
  induction message generalizing pending buffer with
  | nil => simpa [appendBytes] using packs
  | cons byte message ih =>
      by_cases more : pending.length < 64
      · have next : (pending ++ [byte]).length = pending.length + 1 := by simp
        have left : 64 - pending.length = 64 - (pending.length + 1) + 1 := by omega
        obtain ⟨rest, index, packed⟩ := ih (pending ++ [byte]) _ (packs_snoc buffer pending byte packs) (by omega)
        rw [next] at rest index packed
        rw [List.append_assoc] at index packed
        simp only [appendBytes, if_pos more]
        rw [left]
        exact ⟨rest, index, packed⟩
      · have full : 64 - pending.length = 0 := by omega
        simp only [appendBytes, if_neg more]
        rw [full, List.take_zero, List.append_nil]
        exact ⟨rfl, rfl, packs⟩

theorem extend_w_schedule (M : Nat → UInt32) (words : List UInt32) (sixteen : words.length = 16)
    (begins : ∀ t, t < 16 → words.getD t (UInt32.ofNat 0) = M t) (count : Nat) :
    (extendW count words).length = count + 16 ∧
      ∀ t, t < count + 16 → (extendW count words).getD t (UInt32.ofNat 0) = Fips180.schedule M t := by
  induction count with
  | zero => exact ⟨sixteen.trans (Nat.zero_add 16).symm, fun t early => (begins t (by omega)).trans (Fips180.schedule_early M t (by omega)).symm⟩
  | succ count ih =>
      obtain ⟨length, told⟩ := ih
      have last : (extendW (count + 1) words).getD (count + 16) (UInt32.ofNat 0) = Fips180.schedule M (count + 16) := by
        rw [Fips180.schedule_late, ← told _ (show count + 14 < count + 16 by omega), ← told _ (show count + 9 < count + 16 by omega),
          ← told _ (show count + 1 < count + 16 by omega), ← told _ (show count < count + 16 by omega)]
        simp only [extendW]
        rw [List.getD_append_right _ _ _ _ (Nat.le_of_eq length), length, Nat.sub_self]
        rfl
      refine ⟨?_, fun t inside => ?_⟩
      · simp only [extendW, List.length_append, length, List.length_singleton, Nat.add_right_comm]
      · by_cases new : t = count + 16
        · rw [new, last]
        · rw [← told t (by omega)]
          simp only [extendW]
          rw [List.getD_append _ _ _ _ (by omega)]

theorem mix_rounds_spec (W : Nat → UInt32) (w : List UInt32) (count : Nat) (v : Words)
    (same : ∀ t, t < count → w.getD t (UInt32.ofNat 0) = W t) : mixRounds w count v = Fips180.rounds W count v := by
  induction count with
  | zero => rfl
  | succ count ih =>
      rw [mixRounds, ih (fun t before => same t (Nat.lt_succ_of_lt before)), same count (Nat.lt_succ_self count)]
      rfl

theorem hash_buffer_state (sha : Sha256) (block : Bytes) (packs : Packs sha.buffer block) :
    (hashBuffer sha).state = Fips180.compress sha.state block := by
  have begins : ∀ t, t < 16 → ((List.range 16).map sha.buffer).getD t (UInt32.ofNat 0) = sha.buffer t := by
    intro t early
    rw [List.getD_eq_getElem _ _ (by simpa using early)]
    simp
  obtain ⟨_, told⟩ := extend_w_schedule sha.buffer ((List.range 16).map sha.buffer) rfl begins 48
  have mixed := mix_rounds_spec _ _ 64 sha.state told
  have schedules : Fips180.schedule sha.buffer = Fips180.schedule (Fips180.wordAt (byteAt block)) :=
    funext (Fips180.schedule_congr _ _ packs)
  simp only [hashBuffer, mixed, schedules]
  rfl

theorem packs_nothing (buffer : Nat → UInt32) (cleared : ∀ i, i < 16 → buffer i = UInt32.ofNat 0) : Packs buffer [] := by
  intro i inside
  rw [cleared i inside]
  simp [Fips180.wordAt, Fips180.word, byteAt]

end Buffer

section Stream

-- The state in front of what is left of a message, with the whole of it counted.
structure ShaHolds (sha : Sha256) (message : Bytes) (total : Nat) : Prop where
  state : sha.state = (Fips180.blockHash.absorbed message).state
  packs : Packs sha.buffer (Fips180.blockHash.absorbed message).pending
  eight : sha.length.length = 8
  total : counted 8 sha.length = 8 * total % 256 ^ 8

theorem absorbed_short (message : Bytes) : (Fips180.blockHash.absorbed message).pending.length = message.length % 64 :=
  Fips180.blockHash.absorbed_pending message

theorem initialize_holds (sha : Sha256) : ShaHolds (sha256Initialize sha) [] 0 :=
  ⟨rfl, packs_nothing _ (fun _ _ => rfl), rfl, by simp [sha256Initialize, counted]⟩

theorem holds_block_bytes (sha : Sha256) (message : Bytes) (total : Nat) (holds : ShaHolds sha message total) :
    blockBytes sha.length = total % 64 := by
  rw [block_bytes_counted, holds.total]
  norm_num
  omega

-- One turn of the loop takes bytes until the block is full or nothing is left.
theorem update_round_holds (sha : Sha256) (message rest : Bytes) (index : Nat) (buffer : Nat → UInt32) (total : Nat)
    (holds : ShaHolds sha message total) (at_ : index = ((Fips180.blockHash.absorbed message).pending ++ rest).length)
    (packs : Packs buffer ((Fips180.blockHash.absorbed message).pending ++ rest)) (short : index ≤ 64) (some : rest ≠ []) :
    ShaHolds (if index = 64 then hashBuffer { sha with buffer := buffer } else { sha with buffer := buffer }) (message ++ rest) total := by
  have absorbed := Fips180.blockHash.absorbed_append message rest
  have state := holds.state
  generalize Fips180.blockHash.absorbed message = before at *
  subst at_
  rw [List.length_append] at short
  by_cases full : (before.pending ++ rest).length = 64
  · rw [if_pos full]
    rw [List.length_append] at full
    have filled := Fips180.blockHash.absorb_filling before rest some full
    refine ⟨?_, ?_, holds.eight, holds.total⟩
    · rw [absorbed, filled, hash_buffer_state _ _ packs, state]
      rfl
    · rw [absorbed, filled]
      exact packs_nothing _ (fun i inside => if_pos inside)
  · rw [if_neg full]
    rw [List.length_append] at full
    have waiting := Fips180.blockHash.absorb_waiting before rest (Nat.lt_of_le_of_ne short full)
    refine ⟨?_, ?_, holds.eight, holds.total⟩
    · rw [absorbed, waiting]
      exact state
    · rw [absorbed, waiting]
      exact packs

theorem update_rounds_hold (fuel : Nat) (sha : Sha256) (message rest : Bytes)
    (holds : ShaHolds sha message (message.length + rest.length)) (enough : rest.length ≤ fuel) :
    ShaHolds (updateRounds fuel rest sha) (message ++ rest) (message.length + rest.length) := by
  induction fuel generalizing sha message rest with
  | zero =>
      obtain rfl := List.eq_nil_of_length_eq_zero (Nat.le_zero.mp enough)
      rw [List.append_nil]
      exact holds
  | succ fuel ih =>
      by_cases more : rest.length > 0
      · have bytes := holds_block_bytes sha message _ holds
        have short := absorbed_short message
        have index : (blockBytes sha.length + 64 - rest.length % 64) % 64 = (Fips180.blockHash.absorbed message).pending.length := by
          omega
        obtain ⟨left, taken, packed⟩ := append_bytes_packs rest (Fips180.blockHash.absorbed message).pending sha.buffer holds.packs
          (by omega)
        simp only [updateRounds, if_pos more, index]
        generalize appendBytes rest (Fips180.blockHash.absorbed message).pending.length sha.buffer = out at left taken packed
        obtain ⟨behind, index', buffer⟩ := out
        dsimp only at left taken packed
        subst left
        obtain ⟨room, size⟩ : ∃ room, 64 - (Fips180.blockHash.absorbed message).pending.length = room := ⟨_, rfl⟩
        rw [size] at taken packed ⊢
        have split := List.take_append_drop room rest
        have lengths : (message ++ rest.take room).length + (rest.drop room).length = message.length + rest.length := by
          simp only [List.length_append, List.length_take, List.length_drop]
          omega
        have filled : index' ≤ 64 := by
          rw [taken, List.length_append, List.length_take]
          omega
        have some : rest.take room ≠ [] := List.ne_nil_of_length_pos (by rw [List.length_take]; omega)
        have turned := update_round_holds sha message (rest.take room) index' buffer _ holds taken packed filled some
        have later := ih _ (message ++ rest.take room) (rest.drop room) (lengths.symm ▸ turned) (by rw [List.length_drop]; omega)
        rw [lengths, List.append_assoc, split] at later
        exact later
      · obtain rfl := List.eq_nil_of_length_eq_zero (Nat.le_zero.mp (Nat.le_of_not_lt more))
        rw [updateRounds, if_neg more, List.append_nil]
        exact holds

theorem sha256_update_holds (sha : Sha256) (message more : Bytes) (length : UInt32) (holds : ShaHolds sha message message.length)
    (given : length.toNat ≤ more.length) :
    ShaHolds (sha256Update sha more length) (message ++ more.take length.toNat) (message ++ more.take length.toNat).length := by
  have size : (more.take length.toNat).length = length.toNat := by
    rw [List.length_take]
    exact Nat.min_eq_left given
  have added : counted 8 (addLength length 8 sha.length) = 8 * (message.length + length.toNat) % 256 ^ 8 := by
    rw [add_length_counted _ _ _ (Nat.le_refl 8) (Nat.le_of_eq holds.eight.symm), holds.total, Nat.sub_self, Nat.pow_zero,
      Nat.div_one, Nat.mod_add_mod, Nat.mul_add]
  have eight : (addLength length 8 sha.length).length = 8 := by
    rw [add_length_length]
    exact holds.eight
  rw [sha256Update, List.length_append]
  generalize addLength length 8 sha.length = counter at added eight ⊢
  have begun : ShaHolds { sha with length := counter } message (message.length + (more.take length.toNat).length) := by
    rw [size]
    exact ⟨holds.state, holds.packs, eight, added⟩
  exact update_rounds_hold length.toNat _ message (more.take length.toNat) begun (Nat.le_of_eq size)

theorem load_zeros (start count : Nat) (behind : 0 < start) :
    Memory.load (fun i => if i = 0 then UInt8.ofNat 0x80 else UInt8.ofNat 0) start count = List.replicate count (UInt8.ofNat 0) := by
  induction count generalizing start with
  | zero => rfl
  | succ count ih => rw [Memory.load, if_neg (Nat.ne_of_gt behind), ih _ (Nat.succ_pos start), List.replicate_succ]

theorem load_marker (count : Nat) : Memory.load (fun i => if i = 0 then UInt8.ofNat 0x80 else UInt8.ofNat 0) 0 (count + 1) =
    UInt8.ofNat 0x80 :: List.replicate count (UInt8.ofNat 0) := by
  rw [Memory.load, if_pos rfl, load_zeros _ _ (Nat.succ_pos 0)]

-- The terminator is the padding of the whole message.
theorem terminator_padding (counter : Bytes) (total length : Nat) (eight : counter.length = 8)
    (count : counted 8 counter = 8 * total % 256 ^ 8)
    (size : length = if 64 - total % 64 < 9 then 64 - total % 64 + 64 else 64 - total % 64) :
    (Memory.load (Memory.store (fun i => if i = 0 then UInt8.ofNat 0x80 else UInt8.ofNat 0) (length - 8) counter) 0 72).take length =
        Fips180.padding total ∧ length ≤ 72 := by
  obtain ⟨zeros, rfl⟩ : ∃ zeros, length = zeros + 1 + 8 := ⟨length - 9, by split at size <;> omega⟩
  have amount : (119 - total % 64) % 64 = zeros := by split at size <;> omega
  have bound : zeros + 1 + 8 ≤ 72 := by split at size <;> omega
  have written := Memory.load_store_extend (fun i => if i = 0 then UInt8.ofNat 0x80 else UInt8.ofNat 0) 0 (zeros + 1) counter
  have last : Fips180.bigEndian 8 (8 * total) = counter := by
    rw [← big_endian_mod, ← count, counted_big_endian 8 counter (Nat.le_of_eq eight.symm), ← eight, List.take_length]
  rw [eight, Nat.zero_add, load_marker] at written
  rw [Memory.load_take _ _ _ _ bound, Nat.add_sub_cancel, Fips180.padding, amount, last]
  exact ⟨written, bound⟩

theorem hash_extracted (H : Words) : (List.range 32).map (fun i =>
    ((H.toList.getD (i / 4) (UInt32.ofNat 0) >>> UInt32.ofNat (24 - 8 * (i % 4))) &&& UInt32.ofNat 0xff).toUInt8) = Fips180.digest H := by
  have masked : ∀ x : UInt32, (x &&& UInt32.ofNat 0xff).toUInt8 = x.toUInt8 := by
    intro x
    apply UInt8.toNat_inj.mp
    rw [UInt32.toNat_toUInt8, UInt32.toNat_toUInt8, UInt32.toNat_and]
    have mask : x.toNat &&& (UInt32.ofNat 0xff).toNat = x.toNat % 256 := Nat.and_two_pow_sub_one_eq_mod x.toNat 8
    omega
  simp only [masked]
  rfl

theorem sha256_finalize_hash (sha : Sha256) (message more : Bytes) (length : UInt32) (holds : ShaHolds sha message message.length)
    (given : length.toNat ≤ more.length) :
    (sha256Finalize sha more length).hash = Fips180.sha256 (message ++ more.take length.toNat) := by
  have begun : ShaHolds (if length > UInt32.ofNat 0 then sha256Update sha more length else sha) (message ++ more.take length.toNat)
      (message ++ more.take length.toNat).length := by
    by_cases some : length > UInt32.ofNat 0
    · rw [if_pos some]
      exact sha256_update_holds sha message more length holds given
    · have none : length.toNat = 0 := Nat.le_zero.mp (Nat.le_of_not_lt some)
      rw [if_neg some, none, List.take_zero, List.append_nil]
      exact holds
  simp only [sha256Finalize]
  generalize (if length > UInt32.ofNat 0 then sha256Update sha more length else sha) = sha at begun ⊢
  generalize message ++ more.take length.toNat = message at begun ⊢
  rw [holds_block_bytes sha message _ begun, hash_extracted, Fips180.sha256_absorbed, ← BlockHash.absorbed_append]
  have bytes := holds_block_bytes sha message _ begun
  obtain ⟨size, shape⟩ : ∃ size, size = if 64 - message.length % 64 < 9 then 64 - message.length % 64 + 64 else 64 - message.length % 64 :=
    ⟨_, rfl⟩
  obtain ⟨terminator, bound⟩ := terminator_padding sha.length message.length size begun.eight begun.total shape
  rw [← shape]
  have exact : (UInt32.ofNat size).toNat = size := by
    rw [UInt32.toNat_ofNat']
    omega
  have long : (UInt32.ofNat size).toNat ≤ (Memory.load (Memory.store (fun i => if i = 0 then UInt8.ofNat 0x80 else UInt8.ofNat 0)
      (size - 8) sha.length) 0 72).length := by
    rw [exact, Memory.load_length]
    exact bound
  have closed := sha256_update_holds sha message _ (UInt32.ofNat size) begun long
  rw [exact, terminator] at closed
  rw [closed.state]

end Stream

end Aliot
