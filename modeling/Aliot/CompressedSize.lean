import Mathlib.Logic.Relation
import Aliot.LzfOpened

set_option autoImplicit false

namespace Aliot

-- lzf.h: 0, or the number of bytes used, at most out_len.
def BoundedCompress (lzfCompress : LzfCompress) : Prop :=
  ∀ call block outLen, (lzfCompress call block outLen).cs.toNat ≤ outLen

-- The last chunk has one to four bytes, and out_len is not below its length.
def ShortLast (length : Nat) : Prop := 1 ≤ length % 3000 ∧ length % 3000 ≤ 4

-- Five bytes for every chunk begun, and two more behind a short last one.
structure Expanded (length : Nat) (s : LzfState) : Prop where
  aligned : s.read % 3000 = 0 ∨ s.read = length
  within : s.read ≤ length
  pointer : s.outputPtr.toNat ≤ s.read + 5 * ((s.read + 2999) / 3000) ∨
    ShortLast length ∧ s.read = length ∧ s.outputPtr.toNat ≤ s.read + 5 * ((s.read + 2999) / 3000) + 2

-- compressedBuffer of send_data and encode_and_send_data.
def compressedBufferSize : Nat := BLOCKSIZE + MAX_HDR_SIZE + 16

def copyOutIndices : Nat → UInt32 → List Nat
  | 0, _ => []
  | len + 1, outputPtr => outputPtr.toNat :: copyOutIndices len (outputPtr + 1)

theorem copy_out_frame (header : Nat → UInt8) (len i : Nat) (outputBuffer : Nat → UInt8) (outputPtr : UInt32) (k : Nat)
    (outside : k ∉ copyOutIndices len outputPtr) : (copyOut header len i outputBuffer outputPtr).1 k = outputBuffer k := by
  induction len generalizing i outputBuffer outputPtr with
  | zero => rfl
  | succ len ih =>
      obtain ⟨first, later⟩ := not_or.mp (fun listed => outside (List.mem_cons.mpr listed))
      rw [copyOut, ih _ _ _ later, Function.update_of_ne first]

theorem copy_out_indices_range (len : Nat) (outputPtr : UInt32) (k : Nat) (fits : outputPtr.toNat + len < 2 ^ 32) :
    k ∈ copyOutIndices len outputPtr ↔ outputPtr.toNat ≤ k ∧ k < outputPtr.toNat + len := by
  induction len generalizing outputPtr with
  | zero => simp [copyOutIndices]
  | succ len ih =>
      have next : (outputPtr + 1).toNat = outputPtr.toNat + 1 := by
        simp only [UInt32.toNat_add, UInt32.toNat_one]
        omega
      rw [copyOutIndices, List.mem_cons, ih _ (by omega), next]
      omega

section Chunk

variable (lzfCompress : LzfCompress) (input : CString)

def chunkLen (s : LzfState) : Nat :=
  let us := byteToRead input.strlen s.read
  let call := lzfCompress s.read (nextBlock input s.read) (outLen us)
  if call.cs ≠ 0 then (call.cs + UInt32.ofNat TYPE1_HDR_SIZE).toNat
  else (UInt32.ofNat us + UInt32.ofNat TYPE0_HDR_SIZE).toNat

theorem chunk_block_loaded (s : LzfState) (more : s.read < input.strlen) :
    Memory.load (Memory.store s.buf1 MAX_HDR_SIZE (nextBlock input s.read)) MAX_HDR_SIZE (byteToRead input.strlen s.read) =
      nextBlock input s.read := by
  rw [← next_block_length input s.read more]
  exact Memory.load_store _ _ _

theorem compress_chunk_pointer (s : LzfState) (more : s.read < input.strlen) :
    (compressChunk lzfCompress input s).outputPtr = s.outputPtr + UInt32.ofNat (chunkLen lzfCompress input s) := by
  have block : (input.bytes.drop s.read).take (byteToRead input.strlen s.read) = nextBlock input s.read := rfl
  simp only [compressChunk, chunkLen, block, chunk_block_loaded input s more]
  split <;> exact copy_out_pointer _ _ _ _ _

theorem compress_chunk_frame (s : LzfState) (more : s.read < input.strlen) (k : Nat)
    (outside : k ∉ copyOutIndices (chunkLen lzfCompress input s) s.outputPtr) :
    (compressChunk lzfCompress input s).outputBuffer k = s.outputBuffer k := by
  have block : (input.bytes.drop s.read).take (byteToRead input.strlen s.read) = nextBlock input s.read := rfl
  simp only [chunkLen] at outside
  simp only [compressChunk, block, chunk_block_loaded input s more]
  split
  · rename_i packed
    rw [if_pos packed] at outside
    exact copy_out_frame _ _ _ _ _ k outside
  · rename_i stored
    rw [if_neg stored] at outside
    exact copy_out_frame _ _ _ _ _ k outside

def LzfSteps : LzfState → LzfState → Prop := Relation.ReflTransGen (fun s t => lzfStep lzfCompress input s = some t)

-- The places of outputBuffer written in the run, the final NUL included where the run has an end.
def Writes (start : LzfState) (k : Nat) : Prop :=
  ∃ s, LzfSteps lzfCompress input start s ∧
    (s.read < input.strlen ∧ k ∈ copyOutIndices (chunkLen lzfCompress input s) s.outputPtr ∨
      lzfStep lzfCompress input s = none ∧ k = s.outputPtr.toNat)

theorem steps_frame (start s : LzfState) (k : Nat) (steps : LzfSteps lzfCompress input start s)
    (outside : ¬ Writes lzfCompress input start k) : s.outputBuffer k = start.outputBuffer k := by
  induction steps with
  | refl => rfl
  | tail before taken ih =>
      rename_i t u
      rw [← ih]
      by_cases more : t.read < input.strlen
      · simp only [lzfStep, if_pos more, Option.some.injEq] at taken
        subst taken
        exact compress_chunk_frame lzfCompress input t more k (fun written => outside ⟨t, before, .inl ⟨more, written⟩⟩)
      · simp only [lzfStep, if_neg more] at taken
        split at taken <;> cases taken
        rfl

theorem run_steps (fuel : Nat) (start final : LzfState) (ended : Loop.run (lzfStep lzfCompress input) fuel start = some final) :
    LzfSteps lzfCompress input start final ∧ lzfStep lzfCompress input final = none := by
  refine Loop.run_invariant (lzfStep lzfCompress input) (LzfSteps lzfCompress input start) ?_ fuel start final .refl ended
  exact fun s next before taken => before.tail taken

-- What a call leaves at the places outside is what the caller had there.
theorem lzf_compress_data_frame (start : LzfState) (outputBuffer : Nat → UInt8) (n : UInt32) (k : Nat)
    (returned : LzfCompressData lzfCompress input start outputBuffer n) (outside : ¬ Writes lzfCompress input start k) :
    outputBuffer k = start.outputBuffer k := by
  obtain ⟨fuel, final, ended, finish⟩ := returned
  obtain ⟨steps, exit⟩ := run_steps lzfCompress input fuel start final ended
  simp only [lzfFinish, Prod.mk.injEq] at finish
  obtain ⟨rfl, _⟩ := finish
  have notNul : k ≠ final.outputPtr.toNat := fun same => outside ⟨final, steps, .inr ⟨exit, same⟩⟩
  rw [Function.update_of_ne notNul]
  exact steps_frame lzfCompress input start final k steps outside

-- At most five bytes more than the block, or seven for a block of at most four bytes.
theorem chunk_len_bound (bounded : BoundedCompress lzfCompress) (s : LzfState) (more : s.read < input.strlen) :
    chunkLen lzfCompress input s ≤ byteToRead input.strlen s.read + 5 ∨
      byteToRead input.strlen s.read ≤ 4 ∧ chunkLen lzfCompress input s ≤ byteToRead input.strlen s.read + 7 := by
  have bounds := byte_to_read_bounds input.strlen s.read more
  have limit := bounded s.read (nextBlock input s.read) (outLen (byteToRead input.strlen s.read))
  unfold chunkSize at bounds
  simp only [chunkLen, TYPE1_HDR_SIZE, TYPE0_HDR_SIZE]
  generalize lzfCompress s.read (nextBlock input s.read) (outLen (byteToRead input.strlen s.read)) = call at *
  generalize byteToRead input.strlen s.read = us at *
  unfold outLen at limit
  split
  · simp only [UInt32.toNat_add, UInt32.toNat_ofNat']
    split at limit <;> omega
  · simp only [UInt32.toNat_add, UInt32.toNat_ofNat']
    omega

theorem expanded_step (bounded : BoundedCompress lzfCompress) (s next : LzfState) (expanded : Expanded input.strlen s)
    (taken : lzfStep lzfCompress input s = some next) : Expanded input.strlen next := by
  by_cases more : s.read < input.strlen
  · simp only [lzfStep, if_pos more, Option.some.injEq] at taken
    subst taken
    obtain ⟨aligned, within, pointer⟩ := expanded
    have len := chunk_len_bound lzfCompress input bounded s more
    have advanced := congrArg UInt32.toNat (compress_chunk_pointer lzfCompress input s more)
    simp only [UInt32.toNat_add, UInt32.toNat_ofNat'] at advanced
    have amount : byteToRead input.strlen s.read = 3000 ∨ s.read + byteToRead input.strlen s.read = input.strlen := by
      unfold byteToRead chunkSize
      split <;> omega
    have bounds := byte_to_read_bounds input.strlen s.read more
    unfold chunkSize at bounds
    unfold ShortLast at pointer
    constructor
    · rw [compress_chunk_read]
      omega
    · rw [compress_chunk_read]
      omega
    · rw [compress_chunk_read]
      unfold ShortLast
      omega
  · simp only [lzfStep, if_neg more] at taken
    split at taken <;> cases taken
    exact expanded

theorem steps_expanded (bounded : BoundedCompress lzfCompress) (buf1 buf2 before : Nat → UInt8) (s : LzfState)
    (steps : LzfSteps lzfCompress input (lzfStart buf1 buf2 before) s) : Expanded input.strlen s := by
  induction steps with
  | refl => exact ⟨.inl rfl, Nat.zero_le _, .inl (Nat.zero_le _)⟩
  | tail _ taken ih => exact expanded_step lzfCompress input bounded _ _ ih taken

structure Compact (length : Nat) (s : LzfState) : Prop where
  aligned : s.read % 3000 = 0 ∨ s.read = length
  within : s.read ≤ length
  pointer : s.outputPtr.toNat ≤ s.read + 5 * ((s.read + 2999) / 3000) ∨
    length ≤ 6004 ∧ s.read = length ∧ s.outputPtr.toNat ≤ s.read + 5 * ((s.read + 2999) / 3000) + 2

theorem compact_of_expanded (length : Nat) (s : LzfState) (short : length ≤ 8198) (expanded : Expanded length s) :
    Compact length s := by
  obtain ⟨aligned, within, pointer⟩ := expanded
  unfold ShortLast at pointer
  exact ⟨aligned, within, by omega⟩

end Chunk

def WritesWithin (input : CString) : Prop :=
  ∀ lzfCompress lzfDecompress, LzfContract lzfCompress lzfDecompress → ∀ buf1 buf2 outputBuffer k,
    Writes lzfCompress input (lzfStart buf1 buf2 outputBuffer) k → k < compressedBufferSize

theorem short_within (input : CString) (short : input.strlen ≤ 8198) : WritesWithin input := by
  rintro lzfCompress lzfDecompress contract buf1 buf2 outputBuffer k ⟨s, steps, written⟩
  obtain ⟨aligned, within, pointer⟩ := compact_of_expanded input.strlen s short
    (steps_expanded lzfCompress input contract.bounded buf1 buf2 outputBuffer s steps)
  have size : compressedBufferSize = 8214 := rfl
  rcases written with ⟨more, listed⟩ | ⟨_, rfl⟩
  · have len := chunk_len_bound lzfCompress input contract.bounded s more
    have bounds := byte_to_read_bounds input.strlen s.read more
    unfold chunkSize at bounds
    rw [copy_out_indices_range _ _ _ (by omega)] at listed
    omega
  · omega

theorem stored_step (input : CString) (s : LzfState) (more : s.read < input.strlen) :
    lzfStep storedOnly input s = some (compressChunk storedOnly input s) ∧
      (compressChunk storedOnly input s).read = s.read + byteToRead input.strlen s.read ∧
      chunkLen storedOnly input s = byteToRead input.strlen s.read + 5 ∧
      (compressChunk storedOnly input s).outputPtr = s.outputPtr + UInt32.ofNat (byteToRead input.strlen s.read + 5) := by
  have bounds := byte_to_read_bounds input.strlen s.read more
  unfold chunkSize at bounds
  have len : chunkLen storedOnly input s = byteToRead input.strlen s.read + 5 := by
    have stored : ¬ (storedOnly s.read (nextBlock input s.read) (outLen (byteToRead input.strlen s.read))).cs ≠ 0 :=
      not_not.mpr rfl
    simp only [chunkLen, if_neg stored, TYPE0_HDR_SIZE, UInt32.toNat_add, UInt32.toNat_ofNat']
    omega
  refine ⟨if_pos more, compress_chunk_read storedOnly input s, len, ?_⟩
  rw [compress_chunk_pointer storedOnly input s more, len]

-- The third stored chunk, or the NUL behind it, leaves the buffer.
theorem long_not_within (input : CString) (long : 8198 < input.strlen) : ¬ WritesWithin input := by
  intro within
  have full : ∀ read, read + 3000 < input.strlen → byteToRead input.strlen read = 3000 := by
    intro read more
    exact if_pos (by unfold chunkSize; omega)
  have below := within storedOnly (fun _ _ => none) (stored_only_contract _) (fun _ => 0) (fun _ => 0) (fun _ => 0)
  generalize starts : lzfStart (fun _ => 0) (fun _ => 0) (fun _ => 0) = s at below
  have read : s.read = 0 := starts ▸ rfl
  have pointer : s.outputPtr = 0 := starts ▸ rfl
  obtain ⟨first, read1, _, pointer1⟩ := stored_step input s (by omega)
  rw [full s.read (by omega), read] at read1
  rw [full s.read (by omega), pointer] at pointer1
  generalize compressChunk storedOnly input s = t at first read1 pointer1
  obtain ⟨second, read2, _, pointer2⟩ := stored_step input t (by omega)
  rw [full t.read (by omega), read1] at read2
  rw [full t.read (by omega), pointer1] at pointer2
  generalize compressChunk storedOnly input t = u at second read2 pointer2
  have one : LzfSteps storedOnly input s t := .single first
  have two : LzfSteps storedOnly input s u := one.tail second
  obtain ⟨third, read3, len3, pointer3⟩ := stored_step input u (by omega)
  have at6010 : u.outputPtr.toNat = 6010 := by rw [pointer2]; decide
  by_cases edge : input.strlen = 8199
  · have amount : byteToRead input.strlen u.read = 2199 := by
      unfold byteToRead chunkSize
      rw [if_neg (by omega)]
      omega
    rw [amount, pointer2] at pointer3
    have exit : lzfStep storedOnly input (compressChunk storedOnly input u) = none := by
      simp only [lzfStep, read3, amount, BLOCKSIZE]
      rw [if_neg (by omega), if_neg (by omega)]
    have outside := below _ ⟨_, two.tail third, .inr ⟨exit, rfl⟩⟩
    rw [pointer3] at outside
    exact absurd outside (by decide)
  · have amount : 2200 ≤ byteToRead input.strlen u.read ∧ byteToRead input.strlen u.read ≤ 3000 := by
      unfold byteToRead chunkSize
      split <;> omega
    have written : 8214 ∈ copyOutIndices (chunkLen storedOnly input u) u.outputPtr := by
      rw [copy_out_indices_range _ _ _ (by omega)]
      omega
    have outside := below 8214 ⟨u, two, .inl ⟨by omega, written⟩⟩
    exact absurd outside (by decide)

theorem writes_within_iff (input : CString) : WritesWithin input ↔ input.strlen ≤ 8198 := by
  refine ⟨fun within => ?_, short_within input⟩
  by_contra long
  exact long_not_within input (Nat.lt_of_not_le long) within

theorem stored_8199_overflows : 1024 < (repeated 8199).strlen ∧ ¬ WritesWithin (repeated 8199) := by
  have size : (repeated 8199).strlen = 8199 := List.length_replicate
  exact ⟨by omega, long_not_within (repeated 8199) (by omega)⟩

-- The frame of a chunk as it is against the frame with the chunk stored.
theorem chunk_not_longer (lzfCompress : LzfCompress) (bounded : BoundedCompress lzfCompress) (input : CString) (s : LzfState)
    (more : s.read < input.strlen) (long : 4 < byteToRead input.strlen s.read) :
    chunkLen lzfCompress input s ≤ chunkLen storedOnly input s := by
  have stored := (stored_step input s more).2.2.1
  have len := chunk_len_bound lzfCompress input bounded s more
  omega

theorem returned_size (lzfCompress : LzfCompress) (bounded : BoundedCompress lzfCompress) (input : CString)
    (buf1 buf2 before outputBuffer : Nat → UInt8) (n : UInt32)
    (returned : LzfCompressData lzfCompress input (lzfStart buf1 buf2 before) outputBuffer n) :
    n.toNat ≤ input.strlen + 5 * ((input.strlen + 2999) / 3000) ∨
      ShortLast input.strlen ∧ n.toNat ≤ input.strlen + 5 * ((input.strlen + 2999) / 3000) + 2 := by
  obtain ⟨fuel, final, ended, finish⟩ := returned
  obtain ⟨steps, exit⟩ := run_steps lzfCompress input fuel _ final ended
  obtain ⟨_, within, pointer⟩ := steps_expanded lzfCompress input bounded buf1 buf2 before final steps
  simp only [lzfFinish, Prod.mk.injEq] at finish
  obtain ⟨_, rfl⟩ := finish
  rw [drained_at_exit lzfCompress input final within exit] at pointer
  rcases pointer with plain | ⟨short, _, two⟩
  · exact .inl plain
  · exact .inr ⟨short, two⟩

theorem compressed_size_bounded (lzfCompress : LzfCompress) (bounded : BoundedCompress lzfCompress) (input : CString)
    (buf1 buf2 before outputBuffer : Nat → UInt8) (n : UInt32)
    (returned : LzfCompressData lzfCompress input (lzfStart buf1 buf2 before) outputBuffer n) :
    n.toNat ≤ input.strlen + 5 * ((input.strlen + 2999) / 3000) + 2 ∧
    (∀ s, LzfSteps lzfCompress input (lzfStart buf1 buf2 before) s → s.read < input.strlen →
      4 < byteToRead input.strlen s.read → chunkLen lzfCompress input s ≤ chunkLen storedOnly input s) ∧
    (∀ stored m, LzfCompressData storedOnly input (lzfStart buf1 buf2 before) stored m →
      m = UInt32.ofNat (input.strlen + 5 * ((input.strlen + 2999) / 3000))) ∧
    (¬ ShortLast input.strlen → n.toNat ≤ input.strlen + 5 * ((input.strlen + 2999) / 3000)) := by
  have size := returned_size lzfCompress bounded input buf1 buf2 before outputBuffer n returned
  refine ⟨?_, fun s _ more long => chunk_not_longer lzfCompress bounded input s more long, ?_, fun noShort => ?_⟩
  · rcases size with plain | ⟨_, two⟩
    · exact Nat.le_add_right_of_le plain
    · exact two
  · exact fun stored m storedReturned => stored_returns input buf1 buf2 before stored m storedReturned
  · exact size.resolve_right (fun two => noShort two.1)

theorem letters_bounded : ∃ outputBuffer n,
    LzfCompressData (lzfCompressCall freshScratch) (repeated 3100) (lzfStart (fun _ => 0) (fun _ => 0) (fun _ => 0))
      outputBuffer n ∧ n.toNat ≤ 3110 := by
  have size : (repeated 3100).strlen = 3100 := List.length_replicate
  obtain ⟨fuel, final, ended⟩ := other_input_halts (lzfCompressCall freshScratch) (repeated 3100)
    (lzfStart (fun _ => 0) (fun _ => 0) (fun _ => 0)) (by rw [size]; decide) (Nat.zero_le _)
  have bounded := compressed_size_bounded (lzfCompressCall freshScratch) (lzf_call_contract freshScratch).bounded (repeated 3100)
    (fun _ => 0) (fun _ => 0) (fun _ => 0) _ _ ⟨fuel, final, ended, rfl⟩
  refine ⟨_, _, ⟨fuel, final, ended, rfl⟩, ?_⟩
  have longLast : ¬ ShortLast (repeated 3100).strlen := by
    rw [size, ShortLast]
    omega
  have plain := bounded.2.2.2 longLast
  rw [size] at plain
  exact plain

end Aliot
