import Mathlib.Data.List.GetD
import Aliot.LzfCompressor

set_option autoImplicit false

namespace Aliot

-- What a call of lzf_compress finds besides its block: htab and out_data as the stack holds them, and the bytes behind the block.
structure LzfScratch where
  htab : UInt32 → UInt32
  outData : Nat → UInt8
  behind : Nat → UInt8

def blockMemory (block : Bytes) (behind : Nat → UInt8) : Nat → UInt8 := fun i => block.getD i (behind i)

-- lzf_compress as LZFcompress_data calls it; out_len is an unsigned int.
def lzfCompressCall (scratch : Nat → LzfScratch) : LzfCompress := fun call block outLen =>
  let s := scratch call
  let outLen := outLen % 2 ^ 32
  let result := lzfCompress (blockMemory block s.behind) block.length outLen s.htab s.outData
  ⟨result.1, Memory.load result.2 0 outLen⟩

-- The bytes of lzf_compress read back, with the size that the frame tells.
def lzfDecompress (body : Bytes) (us : Nat) : Option Bytes :=
  match LempelZiv.decompress body with
  | none => none
  | some text => if text.length = us then some text else none

theorem block_memory_loaded (block : Bytes) (behind : Nat → UInt8) :
    Memory.load (blockMemory block behind) 0 block.length = block := by
  induction block using List.reverseRecOn with
  | nil => rfl
  | append_singleton front byte ih =>
      have before : Memory.load (blockMemory (front ++ [byte]) behind) 0 front.length =
          Memory.load (blockMemory front behind) 0 front.length := by
        refine Memory.load_congr _ _ _ _ (fun i _ inside => ?_)
        simp only [blockMemory, List.getD_append _ _ _ _ (show i < front.length by omega)]
      have last : blockMemory (front ++ [byte]) behind front.length = byte := by simp [blockMemory]
      rw [List.length_append, List.length_singleton, ← LempelZiv.load_snoc, before, ih, last]

theorem lzf_decompress_told (body text : Bytes) (told : LempelZiv.decompress body = some text) :
    lzfDecompress body text.length = some text := by
  simp only [lzfDecompress, told, if_true]

theorem lzf_call_compresses (scratch : Nat → LzfScratch) (call : Nat) (block : Bytes) (outLen : Nat) :
    Compresses (blockMemory block (scratch call).behind) (scratch call).outData block.length (outLen % 2 ^ 32)
      (lzfCompress (blockMemory block (scratch call).behind) block.length (outLen % 2 ^ 32) (scratch call).htab
        (scratch call).outData) :=
  ends_compresses _ _ _ _ _ (lzf_compress_ends _ _ _ _ _)

theorem lzf_call_contract (scratch : Nat → LzfScratch) : LzfContract (lzfCompressCall scratch) lzfDecompress where
  bounded := fun call block outLen =>
    Nat.le_trans (lzf_call_compresses scratch call block outLen).bounded (Nat.mod_le _ _)
  written := fun call block outLen => by
    have bounded := (lzf_call_compresses scratch call block outLen).bounded
    simp only [lzfCompressCall, Memory.load_length]
    exact bounded
  inverse := fun call block outLen packed => by
    have compresses := lzf_call_compresses scratch call block outLen
    have small : outLen % 2 ^ 32 < 2 ^ 32 := Nat.mod_lt _ (by decide)
    have opened := compresses.inverse small packed
    rw [block_memory_loaded] at opened
    simp only [lzfCompressCall]
    rw [Memory.load_take _ _ _ _ compresses.bounded]
    exact lzf_decompress_told _ _ opened

section Frames

variable (lzfCompress : LzfCompress) (lzfDecompress : Bytes → Nat → Option Bytes)
variable (contract : LzfContract lzfCompress lzfDecompress) (input : CString)

include contract

theorem next_frame_length (read : Nat) (more : read < input.strlen) :
    (nextFrame lzfCompress input read).encode.length ≤ byteToRead input.strlen read + 5 ∨
      byteToRead input.strlen read ≤ 4 ∧
        (nextFrame lzfCompress input read).encode.length ≤ byteToRead input.strlen read + 7 := by
  have length := next_block_length input read more
  have limit := contract.bounded read (nextBlock input read) (outLen (byteToRead input.strlen read))
  generalize callEq : lzfCompress read (nextBlock input read) (outLen (byteToRead input.strlen read)) = call at limit
  by_cases packed : call.cs ≠ 0
  · have frame : nextFrame lzfCompress input read =
        .packed (byteToRead input.strlen read) (call.out.take call.cs.toNat) := by
      simp only [nextFrame, callEq, if_pos packed]
    rw [frame, (frame_lengths _ _).1, List.length_take]
    unfold outLen at limit
    split at limit <;> omega
  · have frame : nextFrame lzfCompress input read = .stored (nextBlock input read) := by
      simp only [nextFrame, callEq, if_neg packed]
    rw [frame, (frame_lengths 0 _).2, length]
    exact .inl (by omega)

-- Every chunk but the last has 3000 bytes.
theorem frames_from_length (fuel read : Nat) :
    (lzfFormat.encodeAll (framesFrom lzfCompress input fuel read)).length ≤
      (input.strlen - read) + 5 * ((input.strlen - read + 2999) / 3000) + 2 := by
  induction fuel generalizing read with
  | zero => exact Nat.zero_le _
  | succ fuel ih =>
      by_cases more : read < input.strlen
      · have later := ih (read + byteToRead input.strlen read)
        have first := next_frame_length lzfCompress lzfDecompress contract input read more
        have bounds := byte_to_read_bounds input.strlen read more
        have amount : byteToRead input.strlen read = 3000 ∨ read + byteToRead input.strlen read = input.strlen := by
          unfold byteToRead chunkSize
          split <;> omega
        simp only [framesFrom, if_pos more]
        rw [FrameFormat.encodeAll, List.flatMap_cons, List.length_append]
        change (nextFrame lzfCompress input read).encode.length + (lzfFormat.encodeAll _).length ≤ _
        rcases amount with whole | last
        · omega
        · have none : framesFrom lzfCompress input fuel (read + byteToRead input.strlen read) = [] := by
            cases fuel with
            | zero => rfl
            | succ fuel => exact if_neg (by omega)
          rw [none]
          change (nextFrame lzfCompress input read).encode.length + 0 ≤ _
          omega
      · simp only [framesFrom, if_neg more]
        exact Nat.zero_le _

theorem frames_of_length :
    (lzfFormat.encodeAll (framesOf lzfCompress input)).length ≤ input.strlen + 5 * ((input.strlen + 2999) / 3000) + 2 :=
  frames_from_length lzfCompress lzfDecompress contract input input.strlen 0

theorem frames_of_decoded : lzfFormat.decodeAll (lzfFormat.encodeAll (framesOf lzfCompress input)) =
    some (framesOf lzfCompress input) :=
  lzfFormat.decode_all_encode _ (fun frame member =>
    (frames_from_good lzfCompress lzfDecompress contract input input.strlen 0 frame member).1)

theorem frames_of_open : (∀ frame ∈ framesOf lzfCompress input, 1 ≤ frame.us ∧ frame.us ≤ 3000) ∧
    unframe lzfDecompress (framesOf lzfCompress input) = some input.bytes :=
  ⟨fun frame member => (frames_from_good lzfCompress lzfDecompress contract input input.strlen 0 frame member).2,
    unframe_frames_from lzfCompress lzfDecompress contract input input.strlen 0 (Nat.le_add_left _ _)⟩

theorem returned_bytes (buf1 buf2 before outputBuffer : Nat → UInt8) (n : UInt32)
    (fits : (lzfFormat.encodeAll (framesOf lzfCompress input)).length < 2 ^ 32)
    (returned : LzfCompressData lzfCompress input (lzfStart buf1 buf2 before) outputBuffer n) :
    Memory.load outputBuffer 0 n.toNat = lzfFormat.encodeAll (framesOf lzfCompress input) ∧ outputBuffer n.toNat = 0 := by
  obtain ⟨fuel, final, ended, finish⟩ := returned
  obtain ⟨emitted, exit⟩ := Loop.run_invariant (lzfStep lzfCompress input) (Emitted lzfCompress input)
    (fun s next kept taken => emitted_step lzfCompress lzfDecompress contract input s next fits kept taken)
    fuel _ final (emitted_start lzfCompress input buf1 buf2 before) ended
  simp only [lzfFinish, Prod.mk.injEq] at finish
  obtain ⟨rfl, rfl⟩ := finish
  refine ⟨?_, Function.update_self _ _ _⟩
  rw [← emitted_at_exit lzfCompress input final emitted exit]
  exact Memory.load_store_disjoint final.outputBuffer final.outputPtr.toNat [0] 0 _ (.inl (by omega))

end Frames

theorem lzf_compress_data_opens (scratch : Nat → LzfScratch) (input : CString) (buf1 buf2 before : Nat → UInt8)
    (different : input.strlen ≠ BLOCKSIZE) (fits : input.strlen + 5 * ((input.strlen + 2999) / 3000) + 2 < 2 ^ 32) :
    ∃ outputBuffer n, LzfCompressData (lzfCompressCall scratch) input (lzfStart buf1 buf2 before) outputBuffer n ∧
      RoundTrip lzfDecompress input outputBuffer n ∧ outputBuffer n.toNat = 0 := by
  obtain ⟨fuel, final, ended⟩ := other_input_halts (lzfCompressCall scratch) input (lzfStart buf1 buf2 before) different
    (Nat.zero_le _)
  have contract := lzf_call_contract scratch
  have returned : LzfCompressData (lzfCompressCall scratch) input (lzfStart buf1 buf2 before) (lzfFinish final).1
    (lzfFinish final).2 := ⟨fuel, final, ended, rfl⟩
  have length := frames_of_length (lzfCompressCall scratch) lzfDecompress contract input
  obtain ⟨bytes, ends⟩ := returned_bytes (lzfCompressCall scratch) lzfDecompress contract input buf1 buf2 before _ _
    (Nat.lt_of_le_of_lt length fits) returned
  obtain ⟨good, opened⟩ := frames_of_open (lzfCompressCall scratch) lzfDecompress contract input
  refine ⟨_, _, returned, ⟨framesOf (lzfCompressCall scratch) input, ?_, good, opened⟩, ends⟩
  rw [bytes]
  exact frames_of_decoded (lzfCompressCall scratch) lzfDecompress contract input

def freshScratch : Nat → LzfScratch := fun _ => ⟨fun _ => 0, fun _ => 0, fun _ => 0⟩

-- Three chunks.
theorem letters_round_trip : ∃ outputBuffer n,
    LzfCompressData (lzfCompressCall freshScratch) (repeated 6500) (lzfStart (fun _ => 0) (fun _ => 0) (fun _ => 0))
      outputBuffer n ∧ RoundTrip lzfDecompress (repeated 6500) outputBuffer n := by
  have size : (repeated 6500).strlen = 6500 := List.length_replicate
  have contract := lzf_call_contract freshScratch
  have length := frames_of_length (lzfCompressCall freshScratch) lzfDecompress contract (repeated 6500)
  obtain ⟨fuel, final, ended⟩ := other_input_halts (lzfCompressCall freshScratch) (repeated 6500)
    (lzfStart (fun _ => 0) (fun _ => 0) (fun _ => 0)) (by rw [size]; decide) (Nat.zero_le _)
  refine ⟨_, _, ⟨fuel, final, ended, rfl⟩, ?_⟩
  exact lzf_compress_data_round_trip (lzfCompressCall freshScratch) lzfDecompress contract (repeated 6500) (fun _ => 0)
    (fun _ => 0) (fun _ => 0) _ _ (by rw [size] at length; omega) ⟨fuel, final, ended, rfl⟩

theorem letters_opened : ∃ outputBuffer n,
    LzfCompressData (lzfCompressCall freshScratch) (repeated 3100) (lzfStart (fun _ => 0) (fun _ => 0) (fun _ => 0))
      outputBuffer n ∧ RoundTrip lzfDecompress (repeated 3100) outputBuffer n ∧ outputBuffer n.toNat = 0 := by
  have size : (repeated 3100).strlen = 3100 := List.length_replicate
  exact lzf_compress_data_opens freshScratch (repeated 3100) _ _ _ (by rw [size]; decide) (by rw [size]; decide)

end Aliot
