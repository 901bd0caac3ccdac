import Aliot.CompressedSize

set_option autoImplicit false

namespace Aliot

section Guarded

variable (lzfCompress : LzfCompress) (input : CString)

-- lzfStep, stopped in front of a chunk that does not leave room for itself and one more byte in compressedBuffer.
def guardedStep (s : LzfState) : Option LzfState :=
  if s.read < input.strlen ∧ compressedBufferSize ≤ s.outputPtr.toNat + chunkLen lzfCompress input s then none
  else lzfStep lzfCompress input s

-- LZFcompress_data with compressedBuffer, none where it never returns or writes behind it.
def compressInto (start : LzfState) : Option Bytes :=
  match Loop.run (guardedStep lzfCompress input) (input.strlen + 1) start with
  | some final =>
      if final.read < input.strlen then none else some (Memory.load (lzfFinish final).1 0 (lzfFinish final).2.toNat)
  | none => none

def framed : Bytes := lzfFormat.encodeAll (framesOf lzfCompress input)

theorem framed_covers : input.strlen ≤ 3000 * (framed lzfCompress input).length := by
  have covers := frames_from_covers lzfCompress input input.strlen 0 (Nat.le_add_left _ _)
  rwa [Nat.zero_add] at covers

theorem guarded_taken (s next : LzfState) (taken : guardedStep lzfCompress input s = some next) :
    lzfStep lzfCompress input s = some next ∧
      (s.read < input.strlen → s.outputPtr.toNat + chunkLen lzfCompress input s < compressedBufferSize) := by
  rw [guardedStep] at taken
  split at taken
  · cases taken
  · rename_i room
    exact ⟨taken, fun more => Nat.lt_of_not_le (fun full => room ⟨more, full⟩)⟩

theorem left_shrinks (different : input.strlen ≠ BLOCKSIZE) (s next : LzfState) (within : ReadWithin input s)
    (taken : lzfStep lzfCompress input s = some next) : input.strlen - next.read < input.strlen - s.read := by
  by_cases more : s.read < input.strlen
  · rw [lzfStep, if_pos more, Option.some.injEq] at taken
    have bounds := byte_to_read_bounds input.strlen s.read more
    rw [← taken, compress_chunk_read]
    omega
  · have drained : s.read = input.strlen := Nat.le_antisymm within (Nat.le_of_not_lt more)
    rw [lzfStep, if_neg more, if_neg (drained ▸ different)] at taken
    cases taken

theorem guarded_exit (s : LzfState) (exit : guardedStep lzfCompress input s = none) :
    s.read < input.strlen ∧ compressedBufferSize ≤ s.outputPtr.toNat + chunkLen lzfCompress input s ∨
      ¬ s.read < input.strlen ∧ lzfStep lzfCompress input s = none := by
  rw [guardedStep] at exit
  split at exit
  · rename_i full
    exact .inl full
  · refine .inr ⟨fun more => ?_, exit⟩
    rw [lzfStep, if_pos more] at exit
    cases exit

section Contract

variable (lzfDecompress : Bytes → Nat → Option Bytes) (contract : LzfContract lzfCompress lzfDecompress)

include contract

theorem chunk_len_frame (s : LzfState) (more : s.read < input.strlen) :
    chunkLen lzfCompress input s = (nextFrame lzfCompress input s.read).encode.length := by
  have bounds := byte_to_read_bounds input.strlen s.read more
  have length := next_block_length input s.read more
  have small := chunk_cs_small lzfCompress lzfDecompress contract input s.read more (nextBlock input s.read)
  have written := contract.written s.read (nextBlock input s.read) (outLen (byteToRead input.strlen s.read))
  unfold chunkSize at bounds small
  simp only [chunkLen, nextFrame]
  split
  · exact type1_length _ _ _ written small
  · exact type0_length _ _ length bounds.2.1

def Confined (s : LzfState) : Prop :=
  Emitted lzfCompress input s ∧ ReadWithin input s ∧ s.outputPtr.toNat < compressedBufferSize

omit contract in
theorem confined_start (buf1 buf2 outputBuffer : Nat → UInt8) :
    Confined lzfCompress input (lzfStart buf1 buf2 outputBuffer) :=
  ⟨emitted_start lzfCompress input buf1 buf2 outputBuffer, Nat.zero_le _, Nat.zero_lt_succ _⟩

theorem confined_step (s next : LzfState) (confined : Confined lzfCompress input s)
    (taken : guardedStep lzfCompress input s = some next) : Confined lzfCompress input next := by
  obtain ⟨emitted, within, below⟩ := confined
  obtain ⟨step, room⟩ := guarded_taken lzfCompress input s next taken
  have kept := read_within_step lzfCompress input s next within step
  by_cases more : s.read < input.strlen
  · rw [lzfStep, if_pos more, Option.some.injEq] at step
    subst step
    have fits := room more
    rw [chunk_len_frame lzfCompress input lzfDecompress contract s more] at fits
    have size : compressedBufferSize = 8214 := rfl
    obtain ⟨advanced, _⟩ := compress_chunk_emits lzfCompress lzfDecompress contract input s more (by omega)
    exact ⟨emitted_chunk lzfCompress lzfDecompress contract input s more (by omega) emitted, kept, by omega⟩
  · rw [lzfStep, if_neg more] at step
    split at step <;> cases step
    exact ⟨emitted, kept, below⟩

-- The frames where they and the NUL find room, unless the call never returns.
theorem compress_into_eq (buf1 buf2 outputBuffer : Nat → UInt8) :
    compressInto lzfCompress input (lzfStart buf1 buf2 outputBuffer) =
      if input.strlen ≠ BLOCKSIZE ∧ (framed lzfCompress input).length < compressedBufferSize then
        some (framed lzfCompress input)
      else none := by
  rw [compressInto]
  cases ended : Loop.run (guardedStep lzfCompress input) (input.strlen + 1) (lzfStart buf1 buf2 outputBuffer) with
  | none =>
      refine (if_neg (fun returns => ?_)).symm
      obtain ⟨final, run⟩ := Loop.run_of_variant (guardedStep lzfCompress input) (ReadWithin input)
        (fun t => input.strlen - t.read)
        (fun s next within taken => read_within_step lzfCompress input s next within (guarded_taken lzfCompress input s next taken).1)
        (fun s next within taken => left_shrinks lzfCompress input returns.1 s next within (guarded_taken lzfCompress input s next taken).1)
        input.strlen (lzfStart buf1 buf2 outputBuffer) (Nat.zero_le _) (Nat.sub_le _ _)
      rw [ended] at run
      cases run
  | some final =>
      obtain ⟨⟨emitted, within, below⟩, exit⟩ := Loop.run_invariant (guardedStep lzfCompress input) (Confined lzfCompress input)
        (confined_step lzfCompress input lzfDecompress contract) _ _ final
        (confined_start lzfCompress input buf1 buf2 outputBuffer) ended
      rcases guarded_exit lzfCompress input final exit with ⟨more, full⟩ | ⟨drained, returned⟩
      · have room := emitted_room lzfCompress input final more emitted
        rw [← chunk_len_frame lzfCompress input lzfDecompress contract final more] at room
        simp only [if_pos more]
        exact (if_neg (fun returns => absurd returns.2 (Nat.not_lt.mpr (Nat.le_trans full room)))).symm
      · have bytes := emitted_at_exit lzfCompress input final emitted returned
        have untouched : Memory.load (lzfFinish final).1 0 (lzfFinish final).2.toNat =
            Memory.load final.outputBuffer 0 final.outputPtr.toNat :=
          Memory.load_store_disjoint final.outputBuffer final.outputPtr.toNat [0] 0 _ (.inl (Nat.le_of_eq (Nat.zero_add _)))
        have length := congrArg List.length bytes
        rw [Memory.load_length] at length
        have different : input.strlen ≠ BLOCKSIZE := by
          intro exact
          rw [lzfStep, if_neg drained, if_pos (Nat.le_antisymm within (Nat.le_of_not_lt drained) |>.trans exact)] at returned
          cases returned
        have room : (framed lzfCompress input).length < compressedBufferSize := by
          rw [framed, ← length]
          exact below
        simp only [if_neg drained]
        rw [if_pos ⟨different, room⟩, untouched, bytes]
        rfl

end Contract

-- A text comes out of a call that returns and writes within the buffer only.
theorem guarded_writes (fuel : Nat) (s final : LzfState) (below : s.outputPtr.toNat < compressedBufferSize)
    (ended : Loop.run (guardedStep lzfCompress input) fuel s = some final) (drained : ¬ final.read < input.strlen) :
    Loop.run (lzfStep lzfCompress input) fuel s = some final ∧
      ∀ k, Writes lzfCompress input s k → k < compressedBufferSize := by
  have size : compressedBufferSize = 8214 := rfl
  induction fuel generalizing s with
  | zero => cases ended
  | succ fuel ih =>
      cases taken : guardedStep lzfCompress input s with
      | none =>
          rw [Loop.run_exit _ _ s taken, Option.some.injEq] at ended
          subst ended
          rcases guarded_exit lzfCompress input s taken with ⟨more, _⟩ | ⟨_, exit⟩
          · exact absurd more drained
          refine ⟨Loop.run_exit _ _ s exit, ?_⟩
          rintro k ⟨t, steps, written⟩
          rcases Relation.ReflTransGen.cases_head steps with rfl | ⟨u, first, _⟩
          · rcases written with ⟨more, _⟩ | ⟨_, rfl⟩
            · exact absurd more drained
            · exact below
          · rw [exit] at first
            cases first
      | some next =>
          obtain ⟨step, room⟩ := guarded_taken lzfCompress input s next taken
          rw [Loop.run_step _ _ s next taken] at ended
          have nextBelow : next.outputPtr.toNat < compressedBufferSize := by
            by_cases more : s.read < input.strlen
            · have fits := room more
              rw [lzfStep, if_pos more, Option.some.injEq] at step
              have advanced := congrArg UInt32.toNat (compress_chunk_pointer lzfCompress input s more)
              rw [UInt32.toNat_add, UInt32.toNat_ofNat'] at advanced
              rw [← step]
              omega
            · rw [lzfStep, if_neg more] at step
              split at step <;> cases step
              exact below
          obtain ⟨run, rest⟩ := ih next nextBelow ended
          refine ⟨(Loop.run_step _ _ s next step).trans run, ?_⟩
          rintro k ⟨t, steps, written⟩
          rcases Relation.ReflTransGen.cases_head steps with rfl | ⟨u, first, later⟩
          · rcases written with ⟨more, listed⟩ | ⟨exit, _⟩
            · have fits := room more
              rw [copy_out_indices_range _ _ _ (by omega)] at listed
              omega
            · rw [step] at exit
              cases exit
          · rw [step, Option.some.injEq] at first
            subst first
            exact rest k ⟨t, later, written⟩

-- Where there is a result, LZFcompress_data has returned with it and kept within the buffer.
theorem compress_into_returned (start : LzfState) (payload : Bytes) (fresh : start.outputPtr = 0)
    (packed : compressInto lzfCompress input start = some payload) :
    ∃ outputBuffer n, LzfCompressData lzfCompress input start outputBuffer n ∧
      (∀ k, Writes lzfCompress input start k → k < compressedBufferSize) ∧ payload = Memory.load outputBuffer 0 n.toNat := by
  rw [compressInto] at packed
  split at packed
  · rename_i final ended
    split at packed
    · cases packed
    · rename_i drained
      obtain ⟨run, inside⟩ := guarded_writes lzfCompress input _ start final (by rw [fresh]; decide) ended drained
      exact ⟨_, _, ⟨_, final, run, rfl⟩, inside, (Option.some.inj packed).symm⟩
  · cases packed

end Guarded

-- LZFcompress_data over lzf_compress.
def lzfCompressText (scratch : Nat → LzfScratch) (start : LzfState) (data : Bytes) : Option Bytes :=
  if nulFree : (0 : UInt8) ∉ data then compressInto (lzfCompressCall scratch) ⟨data, nulFree⟩ start else none

def openText (payload : Bytes) : Option Bytes := (lzfFormat.decodeAll payload).bind (unframe lzfDecompress)

theorem framed_opens (scratch : Nat → LzfScratch) (input : CString) :
    openText (framed (lzfCompressCall scratch) input) = some input.bytes := by
  have contract := lzf_call_contract scratch
  rw [openText, framed, frames_of_decoded (lzfCompressCall scratch) lzfDecompress contract input]
  exact (frames_of_open (lzfCompressCall scratch) lzfDecompress contract input).2

theorem compress_text_eq (scratch : Nat → LzfScratch) (buf1 buf2 outputBuffer : Nat → UInt8) (input : CString) :
    lzfCompressText scratch (lzfStart buf1 buf2 outputBuffer) input.bytes =
      if input.strlen ≠ BLOCKSIZE ∧ (framed (lzfCompressCall scratch) input).length < compressedBufferSize then
        some (framed (lzfCompressCall scratch) input)
      else none := by
  rw [lzfCompressText, dif_pos input.nulFree]
  exact compress_into_eq (lzfCompressCall scratch) input lzfDecompress (lzf_call_contract scratch) buf1 buf2 outputBuffer

-- A text that cannot run over the buffer however badly it packs.
theorem framed_short (scratch : Nat → LzfScratch) (input : CString) (short : input.strlen ≤ 8198) :
    (framed (lzfCompressCall scratch) input).length < compressedBufferSize := by
  have contract := lzf_call_contract scratch
  have length := frames_of_length (lzfCompressCall scratch) lzfDecompress contract input
  have size : compressedBufferSize = 8214 := rfl
  by_cases wide : input.strlen ≤ 8196
  · rw [framed]
    omega
  -- the last of three chunks is no short one
  obtain ⟨fuel, final, ended⟩ := other_input_halts (lzfCompressCall scratch) input
    (lzfStart (fun _ => 0) (fun _ => 0) (fun _ => 0)) (by unfold BLOCKSIZE; omega) (Nat.zero_le _)
  have returned : LzfCompressData (lzfCompressCall scratch) input (lzfStart (fun _ => 0) (fun _ => 0) (fun _ => 0)) _ _ :=
    ⟨fuel, final, ended, rfl⟩
  obtain ⟨bytes, _⟩ := returned_bytes (lzfCompressCall scratch) lzfDecompress contract input _ _ _ _ _ (by omega) returned
  have longLast : ¬ ShortLast input.strlen := by
    unfold ShortLast
    omega
  have bounded := (returned_size (lzfCompressCall scratch) contract.bounded input _ _ _ _ _ returned).resolve_right
    (fun two => longLast two.1)
  have written := congrArg List.length bytes
  rw [Memory.load_length] at written
  rw [framed, ← written]
  omega

end Aliot
