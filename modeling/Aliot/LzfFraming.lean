import Mathlib.Tactic.NormNum
import Aliot.Frames
import Aliot.Lzf

set_option autoImplicit false

namespace Aliot

-- 'Z','V',0 with the block itself, 'Z','V',1 with a compressed body and the size of the block.
inductive Frame where
  | stored (body : Bytes)
  | packed (us : Nat) (body : Bytes)
deriving DecidableEq, Repr

def Frame.us : Frame → Nat
  | .stored body => body.length
  | .packed us _ => us

def highByte (n : Nat) : UInt8 := UInt8.ofNat (n >>> 8)
def lowByte (n : Nat) : UInt8 := UInt8.ofNat (n &&& 0xff)
def joinBytes (high low : UInt8) : Nat := 256 * high.toNat + low.toNat

def Frame.encode : Frame → Bytes
  | .stored body => [90, 86, 0, highByte body.length, lowByte body.length] ++ body
  | .packed us body =>
      [90, 86, 1, highByte body.length, lowByte body.length, highByte us, lowByte us] ++ body

def splitBody (len : Nat) (rest : Bytes) : Option (Bytes × Bytes) :=
  if len ≤ rest.length then some (rest.take len, rest.drop len) else none

def Frame.decode : Bytes → Option (Frame × Bytes)
  | 90 :: 86 :: 0 :: usHigh :: usLow :: rest =>
      (splitBody (joinBytes usHigh usLow) rest).map (fun (body, tail) => (.stored body, tail))
  | 90 :: 86 :: 1 :: csHigh :: csLow :: usHigh :: usLow :: rest =>
      (splitBody (joinBytes csHigh csLow) rest).map (fun (body, tail) => (.packed (joinBytes usHigh usLow) body, tail))
  | _ => none

def Frame.Good : Frame → Prop
  | .stored body => body.length < 65536
  | .packed us body => us < 65536 ∧ body.length < 65536

theorem join_split_bytes (n : Nat) (small : n < 65536) : joinBytes (highByte n) (lowByte n) = n := by
  have mask : n &&& 0xff = n % 256 := Nat.and_two_pow_sub_one_eq_mod n 8
  have shift : n >>> 8 = n / 256 := Nat.shiftRight_eq_div_pow n 8
  simp only [joinBytes, highByte, lowByte, mask, shift, UInt8.toNat_ofNat']
  omega

theorem split_body_append (body rest : Bytes) : splitBody body.length (body ++ rest) = some (body, rest) := by
  simp [splitBody]

theorem frame_round (frame : Frame) (rest : Bytes) (good : frame.Good) :
    Frame.decode (frame.encode ++ rest) = some (frame, rest) := by
  cases frame with
  | stored body =>
      simp only [Frame.encode, List.cons_append, List.nil_append, Frame.decode, join_split_bytes _ good,
        split_body_append, Option.map_some]
  | packed us body =>
      simp only [Frame.encode, List.cons_append, List.nil_append, Frame.decode, join_split_bytes _ good.1,
        join_split_bytes _ good.2, split_body_append, Option.map_some]

def lzfFormat : FrameFormat UInt8 Frame where
  encode := Frame.encode
  decode := Frame.decode
  Good := Frame.Good
  nonempty := by intro frame; cases frame <;> simp [Frame.encode]
  round := frame_round

def unframe (lzfDecompress : Bytes → Nat → Option Bytes) : List Frame → Option Bytes
  | [] => some []
  | .stored body :: frames => (unframe lzfDecompress frames).map (fun tail => body ++ tail)
  | .packed us body :: frames =>
      match lzfDecompress body us with
      | none => none
      | some block => (unframe lzfDecompress frames).map (fun tail => block ++ tail)

-- lzf.h: 0, or the number of bytes used, at most out_len, and these decompress to the original data.
structure LzfContract (lzfCompress : LzfCompress) (lzfDecompress : Bytes → Nat → Option Bytes) : Prop where
  bounded : ∀ call block outLen, (lzfCompress call block outLen).cs.toNat ≤ outLen
  written : ∀ call block outLen, (lzfCompress call block outLen).cs.toNat ≤ (lzfCompress call block outLen).out.length
  inverse : ∀ call block outLen, (lzfCompress call block outLen).cs ≠ 0 →
    lzfDecompress ((lzfCompress call block outLen).out.take (lzfCompress call block outLen).cs.toNat) block.length = some block

def nextBlock (input : CString) (read : Nat) : Bytes :=
  (input.bytes.drop read).take (byteToRead input.strlen read)

def nextFrame (lzfCompress : LzfCompress) (input : CString) (read : Nat) : Frame :=
  let call := lzfCompress read (nextBlock input read) (outLen (byteToRead input.strlen read))
  if call.cs ≠ 0 then .packed (byteToRead input.strlen read) (call.out.take call.cs.toNat)
  else .stored (nextBlock input read)

def framesFrom (lzfCompress : LzfCompress) (input : CString) : Nat → Nat → List Frame
  | 0, _ => []
  | fuel + 1, read =>
      if read < input.strlen then
        nextFrame lzfCompress input read :: framesFrom lzfCompress input fuel (read + byteToRead input.strlen read)
      else []

-- Every chunk has at least one byte, so the input length is fuel enough.
def framesOf (lzfCompress : LzfCompress) (input : CString) : List Frame :=
  framesFrom lzfCompress input input.strlen 0

def RoundTrip (lzfDecompress : Bytes → Nat → Option Bytes) (input : CString)
    (outputBuffer : Nat → UInt8) (n : UInt32) : Prop :=
  ∃ frames, lzfFormat.decodeAll (Memory.load outputBuffer 0 n.toNat) = some frames ∧
    (∀ frame ∈ frames, 1 ≤ frame.us ∧ frame.us ≤ 3000) ∧ unframe lzfDecompress frames = some input.bytes

theorem next_block_length (input : CString) (read : Nat) (more : read < input.strlen) :
    (nextBlock input read).length = byteToRead input.strlen read := by
  have bounds := byte_to_read_bounds input.strlen read more
  unfold CString.strlen at bounds more
  simp only [nextBlock, List.length_take, List.length_drop, CString.strlen]
  omega

theorem next_frame_us (lzfCompress : LzfCompress) (input : CString) (read : Nat) (more : read < input.strlen) :
    (nextFrame lzfCompress input read).us = byteToRead input.strlen read := by
  simp only [nextFrame]
  split
  · rfl
  · exact next_block_length input read more

theorem out_len_small (us : Nat) (small : us ≤ chunkSize) : outLen us ≤ chunkSize := by
  unfold outLen
  split <;> omega

-- Every frame has a byte and no more than a chunk in it.
theorem frames_from_covers (lzfCompress : LzfCompress) (input : CString) (fuel read : Nat)
    (enough : input.strlen ≤ read + fuel) :
    input.strlen ≤ read + 3000 * (lzfFormat.encodeAll (framesFrom lzfCompress input fuel read)).length := by
  induction fuel generalizing read with
  | zero => omega
  | succ fuel ih =>
      by_cases more : read < input.strlen
      · have bounds := byte_to_read_bounds input.strlen read more
        have later := ih (read + byteToRead input.strlen read) (by omega)
        have written := List.length_pos_of_ne_nil (lzfFormat.nonempty (nextFrame lzfCompress input read))
        simp only [framesFrom, if_pos more, FrameFormat.encodeAll, List.flatMap_cons, List.length_append] at later ⊢
        unfold chunkSize at bounds
        omega
      · omega

section Contract

variable (lzfCompress : LzfCompress) (lzfDecompress : Bytes → Nat → Option Bytes)
variable (contract : LzfContract lzfCompress lzfDecompress) (input : CString)

include contract

theorem chunk_cs_small (read : Nat) (more : read < input.strlen) (block : Bytes) :
    (lzfCompress read block (outLen (byteToRead input.strlen read))).cs.toNat ≤ chunkSize :=
  Nat.le_trans (contract.bounded read block _)
    (out_len_small _ (byte_to_read_bounds input.strlen read more).2.1)

theorem next_frame_good (read : Nat) (more : read < input.strlen) : (nextFrame lzfCompress input read).Good := by
  have bounds := byte_to_read_bounds input.strlen read more
  have small := chunk_cs_small lzfCompress lzfDecompress contract input read more (nextBlock input read)
  unfold chunkSize at bounds small
  simp only [nextFrame]
  split
  · simp only [Frame.Good, List.length_take]
    omega
  · simp only [Frame.Good, next_block_length input read more]
    omega

theorem frames_from_good (fuel read : Nat) : ∀ frame ∈ framesFrom lzfCompress input fuel read,
    frame.Good ∧ 1 ≤ frame.us ∧ frame.us ≤ 3000 := by
  induction fuel generalizing read with
  | zero => simp [framesFrom]
  | succ fuel ih =>
      intro frame member
      by_cases more : read < input.strlen
      · simp only [framesFrom, if_pos more, List.mem_cons] at member
        rcases member with same | later
        · subst same
          have bounds := byte_to_read_bounds input.strlen read more
          rw [next_frame_us lzfCompress input read more]
          exact ⟨next_frame_good lzfCompress lzfDecompress contract input read more, bounds.1, bounds.2.1⟩
        · exact ih _ frame later
      · simp [framesFrom, more] at member

theorem unframe_next (read : Nat) (more : read < input.strlen) (frames : List Frame) :
    unframe lzfDecompress (nextFrame lzfCompress input read :: frames) =
      (unframe lzfDecompress frames).map (fun tail => nextBlock input read ++ tail) := by
  simp only [nextFrame]
  split
  · rename_i packed
    have inverse := contract.inverse read (nextBlock input read) (outLen (byteToRead input.strlen read)) packed
    rw [next_block_length input read more] at inverse
    simp only [unframe, inverse]
  · rfl

theorem unframe_frames_from (fuel read : Nat) (enough : input.strlen ≤ read + fuel) :
    unframe lzfDecompress (framesFrom lzfCompress input fuel read) = some (input.bytes.drop read) := by
  induction fuel generalizing read with
  | zero =>
      have past : input.bytes.drop read = [] := List.drop_eq_nil_of_le (by simpa [CString.strlen] using enough)
      simp only [framesFrom, unframe, past]
  | succ fuel ih =>
      by_cases more : read < input.strlen
      · have bounds := byte_to_read_bounds input.strlen read more
        have rest := ih (read + byteToRead input.strlen read) (by omega)
        simp only [framesFrom, if_pos more]
        rw [unframe_next lzfCompress lzfDecompress contract input read more, rest, Option.map_some, nextBlock,
          ← List.drop_drop, List.take_append_drop]
      · have past : input.bytes.drop read = [] :=
          List.drop_eq_nil_of_le (by simpa [CString.strlen] using Nat.le_of_not_gt more)
        simp only [framesFrom, if_neg more, unframe, past]

end Contract

theorem load_shift (mem : Nat → UInt8) (base addr len : Nat) :
    Memory.load (fun i => mem (base + i)) addr len = Memory.load mem (base + addr) len := by
  induction len generalizing addr with
  | zero => rfl
  | succ len ih => simp only [Memory.load, ih, Nat.add_assoc]

theorem copy_out_pointer (header : Nat → UInt8) (len i : Nat) (outputBuffer : Nat → UInt8) (outputPtr : UInt32) :
    (copyOut header len i outputBuffer outputPtr).2 = outputPtr + UInt32.ofNat len := by
  induction len generalizing i outputBuffer outputPtr with
  | zero => simp [copyOut]
  | succ len ih =>
      simp only [copyOut, ih]
      apply UInt32.toNat_inj.mp
      simp only [UInt32.toNat_add, UInt32.toNat_ofNat', UInt32.toNat_one]
      omega

theorem copy_out_store (header : Nat → UInt8) (len i : Nat) (outputBuffer : Nat → UInt8) (outputPtr : UInt32)
    (fits : outputPtr.toNat + len < 2 ^ 32) :
    (copyOut header len i outputBuffer outputPtr).1 =
      Memory.store outputBuffer outputPtr.toNat (Memory.load header i len) := by
  induction len generalizing i outputBuffer outputPtr with
  | zero => rfl
  | succ len ih =>
      have next : (outputPtr + 1).toNat = outputPtr.toNat + 1 := by
        simp only [UInt32.toNat_add, UInt32.toNat_one]
        omega
      simp only [copyOut, Memory.load, Memory.store]
      rw [ih _ _ _ (by omega), next]

theorem copy_out_extends (header : Nat → UInt8) (len : Nat) (outputBuffer : Nat → UInt8) (outputPtr : UInt32)
    (fits : outputPtr.toNat + len < 2 ^ 32) :
    (copyOut header len 0 outputBuffer outputPtr).2.toNat = outputPtr.toNat + len ∧
    Memory.load (copyOut header len 0 outputBuffer outputPtr).1 0 (outputPtr.toNat + len) =
      Memory.load outputBuffer 0 outputPtr.toNat ++ Memory.load header 0 len := by
  constructor
  · rw [copy_out_pointer, UInt32.toNat_add, UInt32.toNat_ofNat']
    omega
  · rw [copy_out_store header len 0 outputBuffer outputPtr fits]
    simpa only [Nat.zero_add, Memory.load_length] using
      Memory.load_store_extend outputBuffer 0 outputPtr.toNat (Memory.load header 0 len)

theorem load_header_body (mem : Nat → UInt8) (start : Nat) (header body : Bytes) (len : Nat) (bound : len ≤ body.length) :
    Memory.load (Memory.store (Memory.store mem (start + header.length) body) start header) start (header.length + len) =
      header ++ body.take len := by
  rw [Memory.load_append, Memory.load_store, Memory.load_store_disjoint _ _ _ _ _ (by omega)]
  have whole := congrArg (List.take len) (Memory.load_store mem (start + header.length) body)
  rw [Memory.load_take _ _ _ _ bound] at whole
  rw [whole]

theorem type1_length (cs : UInt32) (us : Nat) (out : Bytes) (written : cs.toNat ≤ out.length) (small : cs.toNat ≤ 3000) :
    (cs + UInt32.ofNat TYPE1_HDR_SIZE).toNat = (Frame.packed us (out.take cs.toNat)).encode.length := by
  simp only [TYPE1_HDR_SIZE, UInt32.toNat_add, UInt32.toNat_ofNat', Frame.encode, List.length_append,
    List.length_cons, List.length_nil, List.length_take]
  omega

theorem type1_bytes (mem : Nat → UInt8) (cs : UInt32) (us : Nat) (out : Bytes) (written : cs.toNat ≤ out.length) :
    Memory.load (Memory.store (Memory.store mem MAX_HDR_SIZE out) (MAX_HDR_SIZE - TYPE1_HDR_SIZE) (type1Header cs us))
        (MAX_HDR_SIZE - TYPE1_HDR_SIZE) (7 + cs.toNat) = (Frame.packed us (out.take cs.toNat)).encode := by
  have size : (out.take cs.toNat).length = cs.toNat := by simp only [List.length_take]; omega
  simp only [Frame.encode, size]
  exact load_header_body mem 0 (type1Header cs us) out cs.toNat written

theorem type0_length (us : Nat) (block : Bytes) (length : block.length = us) (small : us ≤ 3000) :
    (UInt32.ofNat us + UInt32.ofNat TYPE0_HDR_SIZE).toNat = (Frame.stored block).encode.length := by
  simp only [TYPE0_HDR_SIZE, UInt32.toNat_add, UInt32.toNat_ofNat', Frame.encode, List.length_append,
    List.length_cons, List.length_nil]
  omega

theorem type0_bytes (mem : Nat → UInt8) (us : Nat) (block : Bytes) (length : block.length = us) :
    Memory.load (Memory.store (Memory.store mem MAX_HDR_SIZE block) (MAX_HDR_SIZE - TYPE0_HDR_SIZE) (type0Header us))
        (MAX_HDR_SIZE - TYPE0_HDR_SIZE) (5 + us) = (Frame.stored block).encode := by
  subst length
  have whole := load_header_body mem 2 (type0Header block.length) block block.length (Nat.le_refl _)
  rw [List.take_length] at whole
  exact whole

theorem frame_lengths (us : Nat) (body : Bytes) : (Frame.packed us body).encode.length = 7 + body.length ∧
    (Frame.stored body).encode.length = 5 + body.length := by
  simp only [Frame.encode, List.length_append, List.length_cons, List.length_nil, and_self]

-- What one chunk appends, up to the point where outputPtr would wrap.
theorem compress_chunk_emits (lzfCompress : LzfCompress) (lzfDecompress : Bytes → Nat → Option Bytes)
    (contract : LzfContract lzfCompress lzfDecompress) (input : CString) (s : LzfState) (more : s.read < input.strlen)
    (fits : s.outputPtr.toNat + (nextFrame lzfCompress input s.read).encode.length < 2 ^ 32) :
    (compressChunk lzfCompress input s).outputPtr.toNat =
      s.outputPtr.toNat + (nextFrame lzfCompress input s.read).encode.length ∧
    Memory.load (compressChunk lzfCompress input s).outputBuffer 0 (compressChunk lzfCompress input s).outputPtr.toNat =
      Memory.load s.outputBuffer 0 s.outputPtr.toNat ++ (nextFrame lzfCompress input s.read).encode := by
  have bounds := byte_to_read_bounds input.strlen s.read more
  have length := next_block_length input s.read more
  have small := chunk_cs_small lzfCompress lzfDecompress contract input s.read more (nextBlock input s.read)
  have written := contract.written s.read (nextBlock input s.read) (outLen (byteToRead input.strlen s.read))
  have copied : Memory.load (Memory.store s.buf1 MAX_HDR_SIZE (nextBlock input s.read)) MAX_HDR_SIZE
      (byteToRead input.strlen s.read) = nextBlock input s.read := by
    rw [← length]
    exact Memory.load_store _ _ _
  have block : (input.bytes.drop s.read).take (byteToRead input.strlen s.read) = nextBlock input s.read := rfl
  unfold chunkSize at bounds small
  generalize callEq : lzfCompress s.read (nextBlock input s.read) (outLen (byteToRead input.strlen s.read)) = call
  rw [callEq] at small written
  by_cases packed : call.cs ≠ 0
  · have frame : nextFrame lzfCompress input s.read =
        .packed (byteToRead input.strlen s.read) (call.out.take call.cs.toNat) := by
      simp only [nextFrame, callEq, if_pos packed]
    have len := type1_length call.cs (byteToRead input.strlen s.read) call.out written small
    simp only [compressChunk, block, copied, callEq, if_pos packed]
    rw [frame] at fits ⊢
    rw [← len] at fits ⊢
    obtain ⟨pointer, bytes⟩ := copy_out_extends
      (fun i => Memory.store (Memory.store s.buf2 MAX_HDR_SIZE call.out) (MAX_HDR_SIZE - TYPE1_HDR_SIZE)
        (type1Header call.cs (byteToRead input.strlen s.read)) (MAX_HDR_SIZE - TYPE1_HDR_SIZE + i))
      (call.cs + UInt32.ofNat TYPE1_HDR_SIZE).toNat s.outputBuffer s.outputPtr fits
    refine ⟨pointer, ?_⟩
    rw [pointer, bytes, load_shift, Nat.add_zero, len, (frame_lengths _ _).1, List.length_take, Nat.min_eq_left written,
      type1_bytes _ _ _ _ written]
  · have frame : nextFrame lzfCompress input s.read = .stored (nextBlock input s.read) := by
      simp only [nextFrame, callEq, if_neg packed]
    have len := type0_length (byteToRead input.strlen s.read) (nextBlock input s.read) length bounds.2.1
    simp only [compressChunk, block, copied, callEq, if_neg packed]
    rw [frame] at fits ⊢
    rw [← len] at fits ⊢
    obtain ⟨pointer, bytes⟩ := copy_out_extends
      (fun i => Memory.store (Memory.store s.buf1 MAX_HDR_SIZE (nextBlock input s.read)) (MAX_HDR_SIZE - TYPE0_HDR_SIZE)
        (type0Header (byteToRead input.strlen s.read)) (MAX_HDR_SIZE - TYPE0_HDR_SIZE + i))
      (UInt32.ofNat (byteToRead input.strlen s.read) + UInt32.ofNat TYPE0_HDR_SIZE).toNat s.outputBuffer s.outputPtr fits
    refine ⟨pointer, ?_⟩
    rw [pointer, bytes, load_shift, Nat.add_zero, len, (frame_lengths 0 _).2, length, type0_bytes _ _ _ length]

-- The frames written so far and the ones still to come are those of the input.
def Emitted (lzfCompress : LzfCompress) (input : CString) (s : LzfState) : Prop :=
  ∃ done fuel, input.strlen ≤ s.read + fuel ∧
    done ++ framesFrom lzfCompress input fuel s.read = framesOf lzfCompress input ∧
    s.outputPtr.toNat = (lzfFormat.encodeAll done).length ∧
    Memory.load s.outputBuffer 0 s.outputPtr.toNat = lzfFormat.encodeAll done

theorem emitted_start (lzfCompress : LzfCompress) (input : CString) (buf1 buf2 outputBuffer : Nat → UInt8) :
    Emitted lzfCompress input (lzfStart buf1 buf2 outputBuffer) :=
  ⟨[], input.strlen, Nat.le_add_left _ _, rfl, rfl, rfl⟩

theorem next_frame_encoded (lzfCompress : LzfCompress) (input : CString) (read : Nat) (done : List Frame) :
    lzfFormat.encodeAll (done ++ [nextFrame lzfCompress input read]) =
      lzfFormat.encodeAll done ++ (nextFrame lzfCompress input read).encode := by
  rw [lzfFormat.encode_all_append]
  simp only [FrameFormat.encodeAll, List.flatMap_cons, List.flatMap_nil, List.append_nil, lzfFormat]

theorem emitted_chunk (lzfCompress : LzfCompress) (lzfDecompress : Bytes → Nat → Option Bytes)
    (contract : LzfContract lzfCompress lzfDecompress) (input : CString) (s : LzfState) (more : s.read < input.strlen)
    (room : s.outputPtr.toNat + (nextFrame lzfCompress input s.read).encode.length < 2 ^ 32)
    (emitted : Emitted lzfCompress input s) : Emitted lzfCompress input (compressChunk lzfCompress input s) := by
  obtain ⟨done, fuel, enough, whole, pointer, bytes⟩ := emitted
  cases fuel with
  | zero => omega
  | succ fuel =>
      have bounds := byte_to_read_bounds input.strlen s.read more
      simp only [framesFrom, if_pos more] at whole
      obtain ⟨advanced, extended⟩ := compress_chunk_emits lzfCompress lzfDecompress contract input s more room
      have one := next_frame_encoded lzfCompress input s.read done
      refine ⟨done ++ [nextFrame lzfCompress input s.read], fuel, ?_, ?_, ?_, ?_⟩
      · rw [compress_chunk_read]
        omega
      · rw [compress_chunk_read, List.append_assoc]
        exact whole
      · rw [advanced, one, List.length_append, pointer]
      · rw [extended, one, bytes]

-- The frames of the input take at least what is written after the next one.
theorem emitted_room (lzfCompress : LzfCompress) (input : CString) (s : LzfState) (more : s.read < input.strlen)
    (emitted : Emitted lzfCompress input s) :
    s.outputPtr.toNat + (nextFrame lzfCompress input s.read).encode.length ≤
      (lzfFormat.encodeAll (framesOf lzfCompress input)).length := by
  obtain ⟨done, fuel, enough, whole, pointer, _⟩ := emitted
  cases fuel with
  | zero => omega
  | succ fuel =>
      simp only [framesFrom, if_pos more] at whole
      rw [← whole, lzfFormat.encode_all_append, List.length_append, pointer]
      simp only [FrameFormat.encodeAll, List.flatMap_cons, List.length_append]
      change _ ≤ _ + ((nextFrame lzfCompress input s.read).encode.length + _)
      omega

theorem emitted_step (lzfCompress : LzfCompress) (lzfDecompress : Bytes → Nat → Option Bytes)
    (contract : LzfContract lzfCompress lzfDecompress) (input : CString) (s next : LzfState)
    (fits : (lzfFormat.encodeAll (framesOf lzfCompress input)).length < 2 ^ 32)
    (emitted : Emitted lzfCompress input s) (taken : lzfStep lzfCompress input s = some next) :
    Emitted lzfCompress input next := by
  by_cases more : s.read < input.strlen
  · simp only [lzfStep, if_pos more, Option.some.injEq] at taken
    subst taken
    have room := emitted_room lzfCompress input s more emitted
    exact emitted_chunk lzfCompress lzfDecompress contract input s more (Nat.lt_of_le_of_lt room fits) emitted
  · simp only [lzfStep, if_neg more] at taken
    split at taken <;> cases taken
    exact emitted

theorem emitted_at_exit (lzfCompress : LzfCompress) (input : CString) (s : LzfState)
    (emitted : Emitted lzfCompress input s) (exit : lzfStep lzfCompress input s = none) :
    Memory.load s.outputBuffer 0 s.outputPtr.toNat = lzfFormat.encodeAll (framesOf lzfCompress input) := by
  obtain ⟨done, fuel, _, whole, _, bytes⟩ := emitted
  have drained : ¬ s.read < input.strlen := by
    intro more
    simp [lzfStep, more] at exit
  have rest : framesFrom lzfCompress input fuel s.read = [] := by
    cases fuel with
    | zero => rfl
    | succ fuel => simp only [framesFrom, if_neg drained]
  rw [rest, List.append_nil] at whole
  rw [bytes, whole]

theorem lzf_compress_data_round_trip (lzfCompress : LzfCompress) (lzfDecompress : Bytes → Nat → Option Bytes)
    (contract : LzfContract lzfCompress lzfDecompress) (input : CString)
    (buf1 buf2 before outputBuffer : Nat → UInt8) (n : UInt32)
    (fits : (lzfFormat.encodeAll (framesOf lzfCompress input)).length < 2 ^ 32)
    (returned : LzfCompressData lzfCompress input (lzfStart buf1 buf2 before) outputBuffer n) :
    RoundTrip lzfDecompress input outputBuffer n := by
  obtain ⟨fuel, final, ended, finish⟩ := returned
  obtain ⟨emitted, exit⟩ := Loop.run_invariant (lzfStep lzfCompress input) (Emitted lzfCompress input)
    (fun s next kept taken => emitted_step lzfCompress lzfDecompress contract input s next fits kept taken)
    fuel _ final (emitted_start lzfCompress input buf1 buf2 before) ended
  have bytes := emitted_at_exit lzfCompress input final emitted exit
  have good := frames_from_good lzfCompress lzfDecompress contract input input.strlen 0
  simp only [lzfFinish, Prod.mk.injEq] at finish
  obtain ⟨rfl, rfl⟩ := finish
  -- the final NUL lies behind the n bytes
  have untouched : Memory.load (Function.update final.outputBuffer final.outputPtr.toNat 0) 0 final.outputPtr.toNat =
      Memory.load final.outputBuffer 0 final.outputPtr.toNat :=
    Memory.load_store_disjoint final.outputBuffer final.outputPtr.toNat [0] 0 _ (by omega)
  refine ⟨framesOf lzfCompress input, ?_, fun frame member => (good frame member).2, ?_⟩
  · rw [untouched, bytes]
    exact lzfFormat.decode_all_encode _ (fun frame member => (good frame member).1)
  · exact unframe_frames_from lzfCompress lzfDecompress contract input input.strlen 0 (by omega)

theorem stored_only_contract (lzfDecompress : Bytes → Nat → Option Bytes) : LzfContract storedOnly lzfDecompress where
  bounded := fun _ _ _ => Nat.zero_le _
  written := fun _ _ _ => Nat.zero_le _
  inverse := fun _ _ _ packed => absurd rfl packed

-- Stored frames only: five bytes of header for every chunk begun, modulo 2^32.
def StoredPointer (length : Nat) (s : LzfState) : Prop :=
  (s.read % 3000 = 0 ∨ s.read = length) ∧ s.read ≤ length ∧
    s.outputPtr = UInt32.ofNat (s.read + 5 * ((s.read + 2999) / 3000))

theorem stored_pointer_step (input : CString) (s next : LzfState) (pointer : StoredPointer input.strlen s)
    (taken : lzfStep storedOnly input s = some next) : StoredPointer input.strlen next := by
  obtain ⟨aligned, within, value⟩ := pointer
  by_cases more : s.read < input.strlen
  · simp only [lzfStep, if_pos more, Option.some.injEq] at taken
    subst taken
    have moved : (compressChunk storedOnly input s).outputPtr =
        s.outputPtr + UInt32.ofNat (UInt32.ofNat (byteToRead input.strlen s.read) + UInt32.ofNat TYPE0_HDR_SIZE).toNat := by
      simp only [compressChunk, storedOnly, ne_eq, not_true, if_false, copy_out_pointer]
    simp only [StoredPointer, compress_chunk_read]
    have amount : byteToRead input.strlen s.read = 3000 ∨ s.read + byteToRead input.strlen s.read = input.strlen := by
      unfold byteToRead chunkSize
      split <;> omega
    have bounds := byte_to_read_bounds input.strlen s.read more
    unfold chunkSize at bounds
    refine ⟨by omega, by omega, ?_⟩
    rw [moved, value]
    apply UInt32.toNat_inj.mp
    simp only [TYPE0_HDR_SIZE, UInt32.toNat_add, UInt32.toNat_ofNat']
    omega
  · simp only [lzfStep, if_neg more] at taken
    split at taken <;> cases taken
    exact ⟨aligned, within, value⟩

-- The loop ends with the whole input read.
theorem drained_at_exit (lzfCompress : LzfCompress) (input : CString) (s : LzfState) (within : s.read ≤ input.strlen)
    (exit : lzfStep lzfCompress input s = none) : s.read = input.strlen := by
  refine Nat.le_antisymm within (Nat.le_of_not_gt ?_)
  intro more
  simp only [lzfStep, if_pos more] at exit
  cases exit

theorem stored_returns (input : CString) (buf1 buf2 before outputBuffer : Nat → UInt8) (n : UInt32)
    (returned : LzfCompressData storedOnly input (lzfStart buf1 buf2 before) outputBuffer n) :
    n = UInt32.ofNat (input.strlen + 5 * ((input.strlen + 2999) / 3000)) := by
  obtain ⟨fuel, final, ended, finish⟩ := returned
  have start : StoredPointer input.strlen (lzfStart buf1 buf2 before) := ⟨Or.inl rfl, Nat.zero_le _, by simp [lzfStart]⟩
  obtain ⟨⟨_, within, value⟩, exit⟩ := Loop.run_invariant _ (StoredPointer input.strlen)
    (stored_pointer_step input) fuel _ final start ended
  rw [drained_at_exit storedOnly input final within exit] at value
  simp only [lzfFinish, Prod.mk.injEq] at finish
  rw [← finish.2, value]

-- 1429274 stored frames take 2^32 bytes: outputPtr comes back to 0 and so does the result.
theorem lzf_compress_data_wraps : ¬ ∀ (lzfCompress : LzfCompress) (lzfDecompress : Bytes → Nat → Option Bytes)
    (_ : LzfContract lzfCompress lzfDecompress) (input : CString)
    (buf1 buf2 before outputBuffer : Nat → UInt8) (n : UInt32),
    LzfCompressData lzfCompress input (lzfStart buf1 buf2 before) outputBuffer n →
      RoundTrip lzfDecompress input outputBuffer n := by
  intro claimed
  have size : (repeated 4287820926).strlen = 4287820926 := List.length_replicate
  obtain ⟨fuel, final, ended⟩ := other_input_halts storedOnly (repeated 4287820926)
    (lzfStart (fun _ => 0) (fun _ => 0) (fun _ => 0)) (by rw [size]; decide) (Nat.zero_le _)
  have zero : final.outputPtr = 0 := by
    rw [stored_returns (repeated 4287820926) _ _ _ _ final.outputPtr ⟨fuel, final, ended, rfl⟩, size]
    rfl
  obtain ⟨frames, decoded, _, opened⟩ := claimed storedOnly (fun _ _ => none) (stored_only_contract _)
    (repeated 4287820926) (fun _ => 0) (fun _ => 0) (fun _ => 0) _ _ ⟨fuel, final, ended, rfl⟩
  rw [zero] at decoded
  cases decoded
  have lengths := congrArg (Option.map List.length) opened
  simp only [unframe, Option.map_some, List.length_nil, Option.some.injEq] at lengths
  unfold CString.strlen at size
  omega

end Aliot
