import Mathlib.Data.Nat.Bitwise
import Aliot.GetHmac

set_option autoImplicit false

namespace Aliot

open Fips180 (K Words)

-- sha256.cpp on a little-endian machine: buffer as its bytes b, state as its words w.
structure Sha256Class where
  buffer : Nat → UInt8
  bufferOffset : Nat
  state : Words
  byteCount : UInt32
  keyBuffer : Bytes
  innerHash : Bytes

namespace Sha256Class

def littleWord (b0 b1 b2 b3 : UInt8) : UInt32 :=
  b0.toUInt32 ||| b1.toUInt32 <<< UInt32.ofNat 8 ||| b2.toUInt32 <<< UInt32.ofNat 16 ||| b3.toUInt32 <<< UInt32.ofNat 24

def littleBytes (x : UInt32) : Bytes :=
  [x.toUInt8, (x >>> UInt32.ofNat 8).toUInt8, (x >>> UInt32.ofNat 16).toUInt8, (x >>> UInt32.ofNat 24).toUInt8]

-- buffer.w[i]
def bufferWord (buffer : Nat → UInt8) (i : Nat) : UInt32 :=
  littleWord (buffer (4 * i)) (buffer (4 * i + 1)) (buffer (4 * i + 2)) (buffer (4 * i + 3))

def littleState (b : Nat → UInt8) : Words :=
  ⟨bufferWord b 0, bufferWord b 1, bufferWord b 2, bufferWord b 3, bufferWord b 4, bufferWord b 5, bufferWord b 6, bufferWord b 7⟩

def sha256InitState : List Nat :=
  [0x67, 0xe6, 0x09, 0x6a, 0x85, 0xae, 0x67, 0xbb, 0x72, 0xf3, 0x6e, 0x3c, 0x3a, 0xf5, 0x4f, 0xa5,
    0x7f, 0x52, 0x0e, 0x51, 0x8c, 0x68, 0x05, 0x9b, 0xab, 0xd9, 0x83, 0x1f, 0x19, 0xcd, 0xe0, 0x5b]

def init (s : Sha256Class) : Sha256Class :=
  { s with state := littleState (fun i => UInt8.ofNat (sha256InitState.getD i 0)), byteCount := UInt32.ofNat 0, bufferOffset := 0 }

def ror32 (number : UInt32) (bits : Nat) : UInt32 := number <<< UInt32.ofNat (32 - bits) ||| number >>> UInt32.ofNat bits

-- The words of the buffer in round i, of which w[i & 15] is replaced from the sixteenth on.
def blockWords (i : Nat) (words : List UInt32) : List UInt32 :=
  let w := fun j => words.getD j (UInt32.ofNat 0)
  if i ≥ 16 then
    let t1 := w (i &&& 15) + w ((i - 7) &&& 15)
    let t2 := w ((i - 2) &&& 15)
    let t1 := t1 + (ror32 t2 17 ^^^ ror32 t2 19 ^^^ (t2 >>> UInt32.ofNat 10))
    let t2 := w ((i - 15) &&& 15)
    let t1 := t1 + (ror32 t2 7 ^^^ ror32 t2 18 ^^^ (t2 >>> UInt32.ofNat 3))
    words.set (i &&& 15) t1
  else words

-- sha256K is the table of FIPS 180-2.
def blockRound (k w : UInt32) (v : Words) : Words :=
  let t1 := v.h
  let t1 := t1 + (ror32 v.e 6 ^^^ ror32 v.e 11 ^^^ ror32 v.e 25)
  let t1 := t1 + (v.g ^^^ (v.e &&& (v.g ^^^ v.f)))
  let t1 := t1 + k
  let t1 := t1 + w
  let t2 := ror32 v.a 2 ^^^ ror32 v.a 13 ^^^ ror32 v.a 22
  let t2 := t2 + ((v.b &&& v.c) ||| (v.a &&& (v.b ||| v.c)))
  ⟨t1 + t2, v.a, v.b, v.c, v.d + t1, v.e, v.f, v.g⟩

def blockRounds : Nat → List UInt32 × Words → List UInt32 × Words
  | 0, s => s
  | i + 1, s =>
      let (words, v) := blockRounds i s
      let words := blockWords i words
      (words, blockRound (K i) (words.getD (i &&& 15) (UInt32.ofNat 0)) v)

def hashBlock (s : Sha256Class) : Sha256Class :=
  let out := blockRounds 64 ((List.range 16).map (bufferWord s.buffer), s.state)
  let v := out.2
  { s with
    buffer := fun j => (out.1.flatMap littleBytes).getD j (s.buffer j)
    state := ⟨s.state.a + v.a, s.state.b + v.b, s.state.c + v.c, s.state.d + v.d, s.state.e + v.e, s.state.f + v.f,
      s.state.g + v.g, s.state.h + v.h⟩ }

def addUncounted (s : Sha256Class) (data : UInt8) : Sha256Class :=
  let s := { s with buffer := Function.update s.buffer (s.bufferOffset ^^^ 3) data, bufferOffset := s.bufferOffset + 1 }
  if s.bufferOffset = 64 then { hashBlock s with bufferOffset := 0 } else s

def write (s : Sha256Class) (data : UInt8) : Sha256Class :=
  addUncounted { s with byteCount := s.byteCount + UInt32.ofNat 1 } data

-- while (bufferOffset != 56): it comes round within a block.
def padZeros : Nat → Sha256Class → Sha256Class
  | 0, s => s
  | fuel + 1, s => if s.bufferOffset ≠ 56 then padZeros fuel (addUncounted s (UInt8.ofNat 0)) else s

def pad (s : Sha256Class) : Sha256Class :=
  let s := addUncounted s (UInt8.ofNat 0x80)
  let s := padZeros 64 s
  let s := addUncounted s (UInt8.ofNat 0)
  let s := addUncounted s (UInt8.ofNat 0)
  let s := addUncounted s (UInt8.ofNat 0)
  let s := addUncounted s (s.byteCount >>> UInt32.ofNat 29).toUInt8
  let s := addUncounted s (s.byteCount >>> UInt32.ofNat 21).toUInt8
  let s := addUncounted s (s.byteCount >>> UInt32.ofNat 13).toUInt8
  let s := addUncounted s (s.byteCount >>> UInt32.ofNat 5).toUInt8
  addUncounted s (s.byteCount <<< UInt32.ofNat 3).toUInt8

def swapped (a : UInt32) : UInt32 :=
  let b := a <<< UInt32.ofNat 24
  let b := b ||| (a <<< UInt32.ofNat 8 &&& UInt32.ofNat 0x00ff0000)
  let b := b ||| (a >>> UInt32.ofNat 8 &&& UInt32.ofNat 0x0000ff00)
  b ||| a >>> UInt32.ofNat 24

-- The bytes at the pointer returned, state.b, and the object.
def result (s : Sha256Class) : Bytes × Sha256Class :=
  let s := pad s
  let state := s.state
  let state : Words := ⟨swapped state.a, swapped state.b, swapped state.c, swapped state.d, swapped state.e, swapped state.f,
    swapped state.g, swapped state.h⟩
  (state.toList.flatMap littleBytes, { s with state := state })

def writeAll (s : Sha256Class) (data : Bytes) : Sha256Class := data.foldl write s

def initHmac (s : Sha256Class) (key : Bytes) (keyLength : Int) : Sha256Class :=
  let s :=
    if keyLength > 64 then
      let (hash, s) := result (writeAll (init s) (key.take keyLength.toNat))
      { s with keyBuffer := hash ++ List.replicate 32 (UInt8.ofNat 0) }
    else { s with keyBuffer := key.take keyLength.toNat ++ List.replicate (64 - keyLength.toNat) (UInt8.ofNat 0) }
  writeAll (init s) (s.keyBuffer.map (fun byte => byte ^^^ UInt8.ofNat 0x36))

def resultHmac (s : Sha256Class) : Bytes × Sha256Class :=
  let (innerHash, s) := result s
  let s := { s with innerHash := innerHash }
  let s := writeAll (init s) (s.keyBuffer.map (fun byte => byte ^^^ UInt8.ofNat 0x5c))
  result (writeAll s s.innerHash)

end Sha256Class

-- "0123456789abcdef"[hash[i] >> 4] and "0123456789abcdef"[hash[i] & 0xf]
def printHash (hash : Bytes) : Bytes :=
  hash.flatMap (fun byte => [(ascii "0123456789abcdef").getD (byte.toNat >>> 4) 0, (ascii "0123456789abcdef").getD (byte.toNat &&& 0xf) 0])

-- get_hash of Arduino_sdk.ino. An int has sixteen bits there; `print` is the one of the Print class, which calls write.
def get_hash (print : Sha256Class → Bytes → Sha256Class) (s : Sha256Class) (secretKey json_buf : Bytes) : Bytes :=
  let s := s.initHmac secretKey ((secretKey.length : Int).bmod (2 ^ 16))
  let s := print s json_buf
  printHash s.resultHmac.1

section Block

open Sha256Class

theorem ror32_rotr (x : UInt32) (n : Nat) : ror32 x n = Fips180.rotr n x := UInt32.or_comm _ _

theorem ch_same (e f g : UInt32) : g ^^^ (e &&& (g ^^^ f)) = Fips180.Ch e f g := by
  apply UInt32.toBitVec_inj.mp
  apply BitVec.eq_of_getLsbD_eq
  intro i inside
  simp only [Fips180.Ch, UInt32.toBitVec_xor, UInt32.toBitVec_and, UInt32.toBitVec_not, BitVec.getLsbD_xor, BitVec.getLsbD_and,
    BitVec.getLsbD_not, inside, decide_true, Bool.true_and]
  cases e.toBitVec.getLsbD i <;> cases f.toBitVec.getLsbD i <;> cases g.toBitVec.getLsbD i <;> rfl

theorem maj_same (a b c : UInt32) : (b &&& c) ||| (a &&& (b ||| c)) = Fips180.Maj a b c := by
  apply UInt32.toBitVec_inj.mp
  apply BitVec.eq_of_getLsbD_eq
  intro i _
  simp only [Fips180.Maj, UInt32.toBitVec_xor, UInt32.toBitVec_and, UInt32.toBitVec_or, BitVec.getLsbD_xor, BitVec.getLsbD_and,
    BitVec.getLsbD_or]
  cases a.toBitVec.getLsbD i <;> cases b.toBitVec.getLsbD i <;> cases c.toBitVec.getLsbD i <;> rfl

theorem block_round_same (k w : UInt32) (v : Words) : blockRound k w v = Fips180.round k w v := by
  simp only [blockRound, Fips180.round, ch_same, maj_same, ror32_rotr]
  rfl

theorem low_four (i : Nat) : i &&& 15 = i % 16 := Nat.and_two_pow_sub_one_eq_mod i 4

-- The sixteen words told by the schedule up to round i.
def Circular (M : Nat → UInt32) (i : Nat) (words : List UInt32) : Prop :=
  words.length = 16 ∧ ∀ t, t < max i 16 → i ≤ t + 16 → words.getD (t % 16) (UInt32.ofNat 0) = Fips180.schedule M t

theorem block_words_circular (M : Nat → UInt32) (i : Nat) (words : List UInt32) (circular : Circular M i words) :
    Circular M (i + 1) (blockWords i words) := by
  obtain ⟨sixteen, told⟩ := circular
  by_cases early : i ≥ 16
  · obtain ⟨t, rfl⟩ := Nat.exists_eq_add_of_le' early
    have first := told t (by omega) (by omega)
    have second := told (t + 1) (by omega) (by omega)
    have tenth := told (t + 9) (by omega) (by omega)
    have last := told (t + 14) (by omega) (by omega)
    have next : blockWords (t + 16) words = words.set (t % 16) (Fips180.schedule M (t + 16)) := by
      simp only [blockWords, if_pos early, low_four, ror32_rotr]
      rw [show t + 16 - 7 = t + 9 by omega, show t + 16 - 2 = t + 14 by omega, show t + 16 - 15 = t + 1 by omega,
        show (t + 16) % 16 = t % 16 by omega, first, second, tenth, last, Fips180.schedule_late]
      congr 1
      simp only [Fips180.sigma0, Fips180.sigma1]
      ac_rfl
    rw [next]
    refine ⟨by rw [List.length_set, sixteen], fun u before recent => ?_⟩
    by_cases new : u = t + 16
    · rw [new, show (t + 16) % 16 = t % 16 by omega, List.getD_eq_getElem _ _ (by rw [List.length_set]; omega), List.getElem_set_self]
    · have other : t % 16 ≠ u % 16 := by omega
      rw [List.getD_eq_getElem?_getD, List.getElem?_set_ne other, ← List.getD_eq_getElem?_getD]
      exact told u (by omega) (by omega)
  · have same : blockWords i words = words := if_neg early
    rw [same]
    exact ⟨sixteen, fun u before recent => told u (by omega) (by omega)⟩

theorem block_rounds_spec (M : Nat → UInt32) (words : List UInt32) (v : Words) (circular : Circular M 0 words) (i : Nat) :
    Circular M i (blockRounds i (words, v)).1 ∧ (blockRounds i (words, v)).2 = Fips180.rounds (Fips180.schedule M) i v := by
  induction i with
  | zero => exact ⟨circular, rfl⟩
  | succ i ih =>
      obtain ⟨kept, mixed⟩ := ih
      have next := block_words_circular M i _ kept
      have word := next.2 i (by omega) (by omega)
      refine ⟨next, ?_⟩
      simp only [blockRounds]
      rw [low_four, word, mixed, block_round_same]
      rfl

theorem little_word (b0 b1 b2 b3 : UInt8) : littleWord b0 b1 b2 b3 = Fips180.word b3 b2 b1 b0 := by
  rw [littleWord, Fips180.word]
  generalize b1.toUInt32 <<< UInt32.ofNat 8 = one
  generalize b2.toUInt32 <<< UInt32.ofNat 16 = two
  generalize b3.toUInt32 <<< UInt32.ofNat 24 = three
  ac_rfl

-- The bytes of the buffer are the bytes that wait, each word turned round.
def Turned (buffer : Nat → UInt8) (pending : Bytes) : Prop := ∀ j, j < pending.length → buffer (j ^^^ 3) = byteAt pending j

theorem turned_index (j : Nat) : j ^^^ 3 = 4 * (j / 4) + (3 - j % 4) := by
  have high : (j ^^^ 3) / 4 = j / 4 := by
    have shifted := Nat.shiftRight_xor_distrib (a := j) (b := 3) (i := 2)
    simp only [Nat.shiftRight_eq_div_pow] at shifted
    simpa using shifted
  have low : (j ^^^ 3) % 4 = 3 - j % 4 := by
    have masked : (j ^^^ 3) % 2 ^ 2 = (j % 2 ^ 2) ^^^ (3 % 2 ^ 2) := Nat.xor_mod_two_pow
    have table : ∀ n : Fin 4, n.val ^^^ 3 = 3 - n.val := by decide
    have small : j % 4 < 4 := Nat.mod_lt _ (by decide)
    exact masked.trans (table ⟨j % 4, small⟩)
  omega

theorem turned_words (buffer : Nat → UInt8) (block : Bytes) (turned : Turned buffer block) (full : block.length = 64) (i : Nat)
    (inside : i < 16) : bufferWord buffer i = Fips180.wordAt (byteAt block) i := by
  have zero := turned (4 * i) (by omega)
  have one := turned (4 * i + 1) (by omega)
  have two := turned (4 * i + 2) (by omega)
  have three := turned (4 * i + 3) (by omega)
  rw [turned_index] at zero one two three
  rw [show 4 * (4 * i / 4) + (3 - 4 * i % 4) = 4 * i + 3 by omega] at zero
  rw [show 4 * ((4 * i + 1) / 4) + (3 - (4 * i + 1) % 4) = 4 * i + 2 by omega] at one
  rw [show 4 * ((4 * i + 2) / 4) + (3 - (4 * i + 2) % 4) = 4 * i + 1 by omega] at two
  rw [show 4 * ((4 * i + 3) / 4) + (3 - (4 * i + 3) % 4) = 4 * i by omega] at three
  rw [bufferWord, little_word, zero, one, two, three]
  rfl

theorem hash_block_state (s : Sha256Class) (block : Bytes) (turned : Turned s.buffer block) (full : block.length = 64) :
    (hashBlock s).state = Fips180.compress s.state block := by
  have circular : Circular (bufferWord s.buffer) 0 ((List.range 16).map (bufferWord s.buffer)) := by
    refine ⟨rfl, fun t before _ => ?_⟩
    have early : t < 16 := by omega
    rw [Nat.mod_eq_of_lt early, Fips180.schedule_early _ _ early, List.getD_eq_getElem _ _ (by simpa using early)]
    simp
  have mixed := (block_rounds_spec _ _ s.state circular 64).2
  have schedules : Fips180.schedule (bufferWord s.buffer) = Fips180.schedule (Fips180.wordAt (byteAt block)) :=
    funext (Fips180.schedule_congr _ _ (turned_words s.buffer block turned full))
  rw [schedules] at mixed
  rw [hashBlock, mixed]
  rfl

theorem hash_block_frame (s : Sha256Class) :
    (hashBlock s).byteCount = s.byteCount ∧ (hashBlock s).keyBuffer = s.keyBuffer ∧ (hashBlock s).innerHash = s.innerHash := by
  unfold hashBlock
  exact ⟨rfl, rfl, rfl⟩

end Block

-- Nothing below looks into the rounds.
attribute [irreducible] Sha256Class.hashBlock

section Stream

open Sha256Class

-- What the object holds of the bytes added so far; byteCount need not count them.
structure Fed (s : Sha256Class) (message : Bytes) : Prop where
  state : s.state = (Fips180.blockHash.absorbed message).state
  turned : Turned s.buffer (Fips180.blockHash.absorbed message).pending
  offset : s.bufferOffset = (Fips180.blockHash.absorbed message).pending.length

structure Written (s : Sha256Class) (message : Bytes) : Prop where
  fed : Fed s message
  counted : s.byteCount = UInt32.ofNat message.length

theorem init_state (s : Sha256Class) : (init s).state = Fips180.initial := by
  have table : littleState (fun i => UInt8.ofNat (sha256InitState.getD i 0)) = Fips180.initial := by decide
  exact table

theorem init_written (s : Sha256Class) : Written (init s) [] :=
  ⟨⟨init_state s, fun _ inside => absurd inside (Nat.not_lt_zero _), rfl⟩, rfl⟩

theorem turned_snoc (buffer : Nat → UInt8) (pending : Bytes) (byte : UInt8) (turned : Turned buffer pending) :
    Turned (Function.update buffer (pending.length ^^^ 3) byte) (pending ++ [byte]) := by
  intro j inside
  rw [List.length_append, List.length_singleton] at inside
  rw [byte_at_snoc]
  by_cases last : j = pending.length
  · rw [last, if_pos rfl, Function.update_self]
  · have other : j ^^^ 3 ≠ pending.length ^^^ 3 := by
      rw [turned_index, turned_index]
      omega
    rw [if_neg last, Function.update_of_ne other]
    exact turned j (by omega)

theorem add_uncounted_frame (s : Sha256Class) (data : UInt8) : (addUncounted s data).byteCount = s.byteCount ∧
    (addUncounted s data).keyBuffer = s.keyBuffer ∧ (addUncounted s data).innerHash = s.innerHash := by
  unfold addUncounted
  by_cases full : s.bufferOffset + 1 = 64
  · rw [if_pos full]
    exact hash_block_frame _
  · rw [if_neg full]
    exact ⟨rfl, rfl, rfl⟩

theorem add_uncounted_fed (s : Sha256Class) (message : Bytes) (data : UInt8) (fed : Fed s message) :
    Fed (addUncounted s data) (message ++ [data]) := by
  obtain ⟨state, turned, offset⟩ := fed
  have short := absorbed_short message
  have pushed : Fips180.blockHash.absorbed (message ++ [data]) = Fips180.blockHash.push (Fips180.blockHash.absorbed message) data :=
    Fips180.blockHash.absorbed_append message [data]
  generalize Fips180.blockHash.absorbed message = before at *
  have added := turned_snoc s.buffer before.pending data turned
  have size : (before.pending ++ [data]).length = before.pending.length + 1 := by rw [List.length_append, List.length_singleton]
  by_cases full : before.pending.length + 1 = 64
  · have filled : Fips180.blockHash.push before data = ⟨Fips180.compress before.state (before.pending ++ [data]), []⟩ := if_pos full
    have shape : addUncounted s data = { hashBlock ⟨Function.update s.buffer (s.bufferOffset ^^^ 3) data, s.bufferOffset + 1, s.state,
        s.byteCount, s.keyBuffer, s.innerHash⟩ with bufferOffset := 0 } := if_pos (offset ▸ full)
    rw [shape]
    refine ⟨?_, ?_, ?_⟩
    · rw [pushed, filled, ← state]
      exact hash_block_state _ _ (offset ▸ added) (size.trans full)
    · rw [pushed, filled]
      exact fun _ inside => absurd inside (Nat.not_lt_zero _)
    · rw [pushed, filled]
      rfl
  · have waiting : Fips180.blockHash.push before data = ⟨before.state, before.pending ++ [data]⟩ := if_neg full
    have shape : addUncounted s data = ⟨Function.update s.buffer (s.bufferOffset ^^^ 3) data, s.bufferOffset + 1, s.state,
        s.byteCount, s.keyBuffer, s.innerHash⟩ := if_neg (offset ▸ full)
    rw [shape, offset]
    refine ⟨?_, ?_, ?_⟩
    · rw [pushed, waiting]
      exact state
    · rw [pushed, waiting]
      exact added
    · rw [pushed, waiting, size]

attribute [local irreducible] addUncounted

theorem write_written (s : Sha256Class) (message : Bytes) (data : UInt8) (written : Written s message) :
    Written (write s data) (message ++ [data]) := by
  obtain ⟨⟨state, turned, offset⟩, counted⟩ := written
  refine ⟨add_uncounted_fed _ message data ⟨state, turned, offset⟩, ?_⟩
  rw [write, (add_uncounted_frame _ data).1, counted, List.length_append, List.length_singleton, UInt32.ofNat_add]

theorem write_all_written (s : Sha256Class) (message data : Bytes) (written : Written s message) :
    Written (writeAll s data) (message ++ data) := by
  induction data generalizing s message with
  | nil =>
      rw [List.append_nil]
      exact written
  | cons byte data ih =>
      have rest := ih (write s byte) (message ++ [byte]) (write_written s message byte written)
      rw [List.append_assoc] at rest
      exact rest

theorem write_all_frame (s : Sha256Class) (data : Bytes) :
    (writeAll s data).keyBuffer = s.keyBuffer ∧ (writeAll s data).innerHash = s.innerHash := by
  induction data generalizing s with
  | nil => exact ⟨rfl, rfl⟩
  | cons byte data ih =>
      have first := (add_uncounted_frame { s with byteCount := s.byteCount + UInt32.ofNat 1 } byte).2
      have rest := ih (write s byte)
      exact ⟨rest.1.trans first.1, rest.2.trans first.2⟩

theorem pad_zeros_fed (fuel : Nat) (s : Sha256Class) (message : Bytes) (fed : Fed s message)
    (enough : (120 - message.length % 64) % 64 ≤ fuel) :
    Fed (padZeros fuel s) (message ++ List.replicate ((120 - message.length % 64) % 64) (UInt8.ofNat 0)) ∧
      (padZeros fuel s).byteCount = s.byteCount ∧ (padZeros fuel s).keyBuffer = s.keyBuffer := by
  induction fuel generalizing s message with
  | zero =>
      rw [Nat.le_zero.mp enough, List.replicate_zero, List.append_nil]
      exact ⟨fed, rfl, rfl⟩
  | succ fuel ih =>
      have offset := fed.offset
      rw [absorbed_short] at offset
      by_cases more : s.bufferOffset ≠ 56
      · have one : (120 - message.length % 64) % 64 = (120 - (message ++ [UInt8.ofNat 0]).length % 64) % 64 + 1 := by
          rw [List.length_append, List.length_singleton]
          omega
        obtain ⟨padded, count, key⟩ := ih (addUncounted s (UInt8.ofNat 0)) (message ++ [UInt8.ofNat 0])
          (add_uncounted_fed s message _ fed) (by omega)
        obtain ⟨countKept, keyKept, _⟩ := add_uncounted_frame s (UInt8.ofNat 0)
        rw [padZeros, if_pos more, one, List.replicate_succ]
        rw [List.append_assoc] at padded
        exact ⟨padded, count.trans countKept, key.trans keyKept⟩
      · have none : (120 - message.length % 64) % 64 = 0 := by omega
        rw [padZeros, if_neg more, none, List.replicate_zero, List.append_nil]
        exact ⟨fed, rfl, rfl⟩

-- The five bytes of byteCount times eight, behind three of zero.
theorem count_bytes (n : Nat) (small : n < 2 ^ 32) : Fips180.bigEndian 8 (8 * n) =
    [UInt8.ofNat 0, UInt8.ofNat 0, UInt8.ofNat 0, (UInt32.ofNat n >>> UInt32.ofNat 29).toUInt8,
      (UInt32.ofNat n >>> UInt32.ofNat 21).toUInt8, (UInt32.ofNat n >>> UInt32.ofNat 13).toUInt8,
      (UInt32.ofNat n >>> UInt32.ofNat 5).toUInt8, (UInt32.ofNat n <<< UInt32.ofNat 3).toUInt8] := by
  have exact := length_exact n small
  have shifted : ∀ count, count < 32 → (UInt32.ofNat n >>> UInt32.ofNat count).toUInt8 = UInt8.ofNat (n / 2 ^ count) := by
    intro count inside
    apply UInt8.toNat_inj.mp
    rw [UInt32.toNat_toUInt8, UInt32.toNat_shiftRight, exact, length_exact count (by omega), UInt8.toNat_ofNat',
      Nat.mod_eq_of_lt inside, Nat.shiftRight_eq_div_pow]
  have last : (UInt32.ofNat n <<< UInt32.ofNat 3).toUInt8 = UInt8.ofNat (8 * n) := by
    apply UInt8.toNat_inj.mp
    rw [UInt32.toNat_toUInt8, UInt32.toNat_shiftLeft, exact, length_exact 3 (by decide), UInt8.toNat_ofNat', Nat.shiftLeft_eq]
    change n * 8 % 2 ^ 32 % 2 ^ 8 = 8 * n % 2 ^ 8
    omega
  rw [shifted 29 (by decide), shifted 21 (by decide), shifted 13 (by decide), shifted 5 (by decide), last]
  simp only [Fips180.bigEndian, List.nil_append, List.cons_append]
  rw [show 8 * n / 256 / 256 / 256 / 256 / 256 / 256 / 256 = 0 by omega, show 8 * n / 256 / 256 / 256 / 256 / 256 / 256 = 0 by omega,
    show 8 * n / 256 / 256 / 256 / 256 / 256 = 0 by omega, show 8 * n / 256 / 256 / 256 / 256 = n / 2 ^ 29 by omega,
    show 8 * n / 256 / 256 / 256 = n / 2 ^ 21 by omega, show 8 * n / 256 / 256 = n / 2 ^ 13 by omega,
    show 8 * n / 256 = n / 2 ^ 5 by omega]

def addAll (s : Sha256Class) (data : Bytes) : Sha256Class := data.foldl addUncounted s

theorem add_all_fed (s : Sha256Class) (message data : Bytes) (fed : Fed s message) :
    Fed (addAll s data) (message ++ data) ∧ (addAll s data).keyBuffer = s.keyBuffer := by
  induction data generalizing s message with
  | nil =>
      rw [List.append_nil]
      exact ⟨fed, rfl⟩
  | cons byte data ih =>
      obtain ⟨rest, key⟩ := ih (addUncounted s byte) (message ++ [byte]) (add_uncounted_fed s message byte fed)
      rw [List.append_assoc] at rest
      exact ⟨rest, key.trans (add_uncounted_frame s byte).2.1⟩

theorem pad_fed (s : Sha256Class) (message : Bytes) (written : Written s message) (small : message.length < 2 ^ 32) :
    Fed (pad s) (message ++ Fips180.padding message.length) ∧ (pad s).keyBuffer = s.keyBuffer := by
  have marked := add_uncounted_fed s message (UInt8.ofNat 0x80) written.fed
  have markedFrame := add_uncounted_frame s (UInt8.ofNat 0x80)
  have zeros : (120 - (message ++ [UInt8.ofNat 0x80]).length % 64) % 64 = (119 - message.length % 64) % 64 := by
    rw [List.length_append, List.length_singleton]
    omega
  obtain ⟨zeroed, count, key⟩ := pad_zeros_fed 64 _ _ marked (by omega)
  rw [zeros] at zeroed
  have counted : (padZeros 64 (addUncounted s (UInt8.ofNat 0x80))).byteCount = UInt32.ofNat message.length :=
    count.trans (markedFrame.1.trans written.counted)
  have kept := key.trans markedFrame.2.1
  have shape : pad s = addAll (padZeros 64 (addUncounted s (UInt8.ofNat 0x80))) (Fips180.bigEndian 8 (8 * message.length)) := by
    rw [count_bytes message.length small]
    simp only [pad, addAll, List.foldl_cons, List.foldl_nil, (add_uncounted_frame _ _).1, counted]
  obtain ⟨closed, closedFrame⟩ := add_all_fed _ _ (Fips180.bigEndian 8 (8 * message.length)) zeroed
  rw [shape, closedFrame]
  simp only [List.append_assoc, List.cons_append, List.nil_append] at closed
  exact ⟨closed, kept⟩

attribute [local irreducible] pad

theorem swapped_bits (a : UInt32) (k i : Nat) (byte : k < 4) (bit : i < 8) :
    (swapped a >>> UInt32.ofNat (8 * k)).toUInt8.toBitVec.getLsbD i =
      (a >>> UInt32.ofNat (24 - 8 * k)).toUInt8.toBitVec.getLsbD i := by
  obtain rfl | rfl | rfl | rfl : k = 0 ∨ k = 1 ∨ k = 2 ∨ k = 3 := by omega
  all_goals
    obtain rfl | rfl | rfl | rfl | rfl | rfl | rfl | rfl :
        i = 0 ∨ i = 1 ∨ i = 2 ∨ i = 3 ∨ i = 4 ∨ i = 5 ∨ i = 6 ∨ i = 7 := by omega
    all_goals simp [swapped]

theorem swapped_bytes (a : UInt32) : littleBytes (swapped a) = Fips180.wordBytes a := by
  have bytes : ∀ k, k < 4 → (swapped a >>> UInt32.ofNat (8 * k)).toUInt8 = (a >>> UInt32.ofNat (24 - 8 * k)).toUInt8 :=
    fun k byte => UInt8.toBitVec_inj.mp (BitVec.eq_of_getLsbD_eq (fun i bit => swapped_bits a k i byte bit))
  have none : ∀ x : UInt32, x >>> UInt32.ofNat 0 = x := fun x => UInt32.shiftRight_zero
  have first := bytes 0 (by decide)
  have last := bytes 3 (by decide)
  simp only [Nat.mul_zero, Nat.sub_zero, Nat.reduceMul, Nat.sub_self, none] at first last
  rw [littleBytes, Fips180.wordBytes, first, bytes 1 (by decide), bytes 2 (by decide), last]

theorem result_hash (s : Sha256Class) (message : Bytes) (written : Written s message) (small : message.length < 2 ^ 32) :
    (result s).1 = Fips180.sha256 message ∧ (result s).2.keyBuffer = s.keyBuffer := by
  obtain ⟨fed, kept⟩ := pad_fed s message written small
  have state := fed.state
  refine ⟨?_, kept⟩
  rw [Fips180.sha256_absorbed, ← BlockHash.absorbed_append, ← state, Fips180.digest]
  simp only [result, Words.toList, List.flatMap_cons, List.flatMap_nil, swapped_bytes]

attribute [local irreducible] result

theorem init_hmac_written (s : Sha256Class) (key : Bytes) (small : key.length < 2 ^ 31) :
    Written (initHmac s key key.length) (innerKey key) ∧ (initHmac s key key.length).keyBuffer = Hmac.keyBlock Fips180.sha256 64 key := by
  have started := fun t : Sha256Class => write_all_written (init t) []
    (t.keyBuffer.map (fun byte => byte ^^^ UInt8.ofNat 0x36)) (init_written t)
  have kept := fun t : Sha256Class => (write_all_frame (init t) (t.keyBuffer.map (fun byte => byte ^^^ UInt8.ofNat 0x36))).1
  have whole : key.take (key.length : Int).toNat = key := by rw [Int.toNat_natCast, List.take_length]
  unfold initHmac
  by_cases long : (key.length : Int) > 64
  · have hashed := result_hash (writeAll (init s) key) key (write_all_written (init s) [] key (init_written s)) (by omega)
    have block : Hmac.keyBlock Fips180.sha256 64 key = Fips180.sha256 key ++ List.replicate 32 (UInt8.ofNat 0) := by
      rw [Hmac.keyBlock, if_neg (by omega), sha256_length]
    rw [if_pos long, whole]
    have begun := started { (result (writeAll (init s) key)).2 with
      keyBuffer := (result (writeAll (init s) key)).1 ++ List.replicate 32 (UInt8.ofNat 0) }
    have key' := kept { (result (writeAll (init s) key)).2 with
      keyBuffer := (result (writeAll (init s) key)).1 ++ List.replicate 32 (UInt8.ofNat 0) }
    rw [innerKey, block, ← hashed.1]
    exact ⟨begun, key'⟩
  · have block : Hmac.keyBlock Fips180.sha256 64 key = key ++ List.replicate (64 - key.length) (UInt8.ofNat 0) := by
      rw [Hmac.keyBlock, if_pos (by omega)]
    have begun := started { s with keyBuffer := key ++ List.replicate (64 - key.length) (UInt8.ofNat 0) }
    have key' := kept { s with keyBuffer := key ++ List.replicate (64 - key.length) (UInt8.ofNat 0) }
    rw [if_neg long, whole, Int.toNat_natCast, innerKey, block]
    exact ⟨begun, key'⟩

theorem result_hmac_code (s : Sha256Class) (key message : Bytes) (written : Written s (innerKey key ++ message))
    (keyed : s.keyBuffer = Hmac.keyBlock Fips180.sha256 64 key) (small : 64 + message.length < 2 ^ 32) :
    (resultHmac s).1 = Hmac.hmac Fips180.sha256 64 key message := by
  have size : (innerKey key ++ message).length = 64 + message.length := by
    rw [List.length_append, innerKey, List.length_map, key_block_length]
  obtain ⟨inner, kept⟩ := result_hash s (innerKey key ++ message) written (by omega)
  have law : Hmac.hmac Fips180.sha256 64 key message =
      Fips180.sha256 (outerKey key ++ Fips180.sha256 (innerKey key ++ message)) := rfl
  unfold resultHmac
  generalize result s = out at inner kept ⊢
  obtain ⟨innerHash, t⟩ := out
  have hashed : innerHash = Fips180.sha256 (innerKey key ++ message) := inner
  have block : t.keyBuffer = Hmac.keyBlock Fips180.sha256 64 key := kept.trans keyed
  have outer : t.keyBuffer.map (fun byte => byte ^^^ UInt8.ofNat 0x5c) = outerKey key := by rw [block, outerKey]
  have opened := write_all_written (init { t with innerHash := innerHash }) [] (outerKey key) (init_written _)
  have held := (write_all_frame (init { t with innerHash := innerHash }) (outerKey key)).2
  simp only [outer]
  generalize writeAll (init { t with innerHash := innerHash }) (outerKey key) = u at opened held ⊢
  have same : u.innerHash = innerHash := held
  have closed := write_all_written u (outerKey key) u.innerHash opened
  have length : (outerKey key ++ u.innerHash).length < 2 ^ 32 := by
    rw [same, hashed, List.length_append, sha256_length, outerKey, List.length_map, key_block_length]
    decide
  rw [(result_hash _ _ closed length).1, same, hashed, law]

end Stream

theorem print_hash_digest (hash : Bytes) : printHash hash = printDigest hash := by
  have high : ∀ n : Fin 16, (ascii "0123456789abcdef").getD n.val 0 = hexDigit n.val := by decide
  have digits : ∀ byte : UInt8, [(ascii "0123456789abcdef").getD (byte.toNat >>> 4) 0, (ascii "0123456789abcdef").getD (byte.toNat &&& 0xf) 0] =
      [hexDigit (byte.toNat / 16), hexDigit (byte.toNat % 16)] := by
    intro byte
    have bound := byte.toNat_lt
    have upper : byte.toNat >>> 4 = byte.toNat / 16 := Nat.shiftRight_eq_div_pow byte.toNat 4
    have lower : byte.toNat &&& 0xf = byte.toNat % 16 := Nat.and_two_pow_sub_one_eq_mod byte.toNat 4
    rw [upper, lower]
    exact congrArg₂ (fun x y => [x, y]) (high ⟨byte.toNat / 16, by omega⟩) (high ⟨byte.toNat % 16, Nat.mod_lt _ (by decide)⟩)
  unfold printHash printDigest
  exact congrArg (fun f => hash.flatMap f) (funext digits)

-- Both kits sign alike, whatever the hashing objects held before.
theorem get_hash_agrees (print : Sha256Class → Bytes → Sha256Class) (writes : ∀ s text, print s text = s.writeAll text)
    (s : Sha256Class) (hmac : HmacSha256) (secretKey json_buf : Bytes) (key : secretKey.length < 2 ^ 15)
    (small : json_buf.length < 2 ^ 32 - 64) : get_hash print s secretKey json_buf = get_hmac hmac secretKey json_buf := by
  have int : (secretKey.length : Int).bmod (2 ^ 16) = secretKey.length := by
    rw [Int.bmod_def]
    omega
  have keySmall : secretKey.length < 2 ^ 31 := by omega
  obtain ⟨begun, keyed⟩ := init_hmac_written s secretKey keySmall
  have written := write_all_written _ (innerKey secretKey) json_buf begun
  have kept := (write_all_frame (s.initHmac secretKey secretKey.length) json_buf).1
  have code := result_hmac_code _ secretKey json_buf written (kept.trans keyed) (by omega)
  rw [get_hmac_whole hmac secretKey json_buf keySmall (by omega), get_hash, int, writes, print_hash_digest, code]

theorem short_message_agrees :
    get_hash Sha256Class.writeAll ⟨fun _ => 7, 13, ⟨1, 2, 3, 4, 5, 6, 7, 8⟩, 99, [], []⟩ (ascii "key") (ascii "\x7b\"value\":1\x7d") =
      get_hmac strayHmac (ascii "key") (ascii "\x7b\"value\":1\x7d") :=
  get_hash_agrees Sha256Class.writeAll (fun _ _ => rfl) _ _ (ascii "key") (ascii "\x7b\"value\":1\x7d") (by decide) (by decide)

end Aliot
