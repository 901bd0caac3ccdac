import Mathlib.Data.UInt
import Aliot.CString
import Aliot.Loop
import Aliot.Memory

set_option autoImplicit false

namespace Aliot

def BLOCKSIZE : Nat := 1024 * 8 - 1
def MAX_HDR_SIZE : Nat := 7
def TYPE0_HDR_SIZE : Nat := 5
def TYPE1_HDR_SIZE : Nat := 7
def chunkSize : Nat := 3000

-- The header of lzf_compress allows other results in other runs, so a call also sees the input offset.
structure LzfCall where
  cs : UInt32
  out : Bytes

abbrev LzfCompress := Nat → Bytes → Nat → LzfCall

structure LzfState where
  read : Nat
  buf1 : Nat → UInt8
  buf2 : Nat → UInt8
  outputBuffer : Nat → UInt8
  outputPtr : UInt32

def byteToRead (length read : Nat) : Nat :=
  if length - read > chunkSize then chunkSize else length - read

-- The out_len argument: four bytes short of the chunk, or the chunk itself when it is that small.
def outLen (us : Nat) : Nat := if us > 4 then us - 4 else us

def type1Header (cs : UInt32) (us : Nat) : Bytes :=
  [90, 86, 1, UInt8.ofNat (cs.toNat >>> 8), UInt8.ofNat (cs.toNat &&& 0xff),
    UInt8.ofNat (us >>> 8), UInt8.ofNat (us &&& 0xff)]

def type0Header (us : Nat) : Bytes :=
  [90, 86, 0, UInt8.ofNat (us >>> 8), UInt8.ofNat (us &&& 0xff)]

-- The copying for loop; outputPtr is an unsigned int and wraps.
def copyOut (header : Nat → UInt8) : Nat → Nat → (Nat → UInt8) → UInt32 → (Nat → UInt8) × UInt32
  | 0, _, outputBuffer, outputPtr => (outputBuffer, outputPtr)
  | len + 1, i, outputBuffer, outputPtr =>
      copyOut header len (i + 1) (Function.update outputBuffer outputPtr.toNat (header i)) (outputPtr + 1)

def compressChunk (lzfCompress : LzfCompress) (input : CString) (s : LzfState) : LzfState :=
  let us := byteToRead input.strlen s.read
  let buf1 := Memory.store s.buf1 MAX_HDR_SIZE ((input.bytes.drop s.read).take us)
  let call := lzfCompress s.read (Memory.load buf1 MAX_HDR_SIZE us) (outLen us)
  let buf2 := Memory.store s.buf2 MAX_HDR_SIZE call.out
  if call.cs ≠ 0 then
    let buf2 := Memory.store buf2 (MAX_HDR_SIZE - TYPE1_HDR_SIZE) (type1Header call.cs us)
    let len := call.cs + UInt32.ofNat TYPE1_HDR_SIZE
    let copied := copyOut (fun i => buf2 (MAX_HDR_SIZE - TYPE1_HDR_SIZE + i)) len.toNat 0 s.outputBuffer s.outputPtr
    ⟨s.read + us, buf1, buf2, copied.1, copied.2⟩
  else
    let buf1 := Memory.store buf1 (MAX_HDR_SIZE - TYPE0_HDR_SIZE) (type0Header us)
    let len := UInt32.ofNat us + UInt32.ofNat TYPE0_HDR_SIZE
    let copied := copyOut (fun i => buf1 (MAX_HDR_SIZE - TYPE0_HDR_SIZE + i)) len.toNat 0 s.outputBuffer s.outputPtr
    ⟨s.read + us, buf1, buf2, copied.1, copied.2⟩

-- One step is one test of the inner condition with the chunk it guards, or one test of the outer one.
def lzfStep (lzfCompress : LzfCompress) (input : CString) (s : LzfState) : Option LzfState :=
  if s.read < input.strlen then some (compressChunk lzfCompress input s)
  else if s.read = BLOCKSIZE then some s
  else none

-- The scratch buffers start with whatever the stack holds.
def lzfStart (buf1 buf2 outputBuffer : Nat → UInt8) : LzfState := ⟨0, buf1, buf2, outputBuffer, 0⟩

def lzfFinish (s : LzfState) : (Nat → UInt8) × UInt32 :=
  (Function.update s.outputBuffer s.outputPtr.toNat 0, s.outputPtr)

def LzfCompressData (lzfCompress : LzfCompress) (input : CString) (start : LzfState)
    (outputBuffer : Nat → UInt8) (n : UInt32) : Prop :=
  ∃ fuel final, Loop.run (lzfStep lzfCompress input) fuel start = some final ∧
    lzfFinish final = (outputBuffer, n)

theorem compress_chunk_read (lzfCompress : LzfCompress) (input : CString) (s : LzfState) :
    (compressChunk lzfCompress input s).read = s.read + byteToRead input.strlen s.read := by
  simp only [compressChunk]
  split <;> rfl

theorem byte_to_read_bounds (length read : Nat) (more : read < length) :
    1 ≤ byteToRead length read ∧ byteToRead length read ≤ chunkSize ∧ read + byteToRead length read ≤ length := by
  unfold byteToRead chunkSize
  split <;> omega

def ReadWithin (input : CString) (s : LzfState) : Prop := s.read ≤ input.strlen

theorem read_within_step (lzfCompress : LzfCompress) (input : CString) (s next : LzfState)
    (within : ReadWithin input s) (taken : lzfStep lzfCompress input s = some next) : ReadWithin input next := by
  unfold lzfStep at taken
  split at taken
  · rename_i more
    cases taken
    have bounds := byte_to_read_bounds input.strlen s.read more
    simp only [ReadWithin, compress_chunk_read]
    omega
  · split at taken <;> cases taken
    exact within

theorem blocksize_input_runs_on (lzfCompress : LzfCompress) (input : CString) (s : LzfState)
    (exact : input.strlen = BLOCKSIZE) (start : ReadWithin input s) : ¬ Loop.Halts (lzfStep lzfCompress input) s := by
  refine Loop.not_halts_of_progress (lzfStep lzfCompress input) (ReadWithin input) ?_ s start
  intro t within
  by_cases more : t.read < input.strlen
  · have taken : lzfStep lzfCompress input t = some (compressChunk lzfCompress input t) := by
      simp only [lzfStep, if_pos more]
    exact ⟨_, taken, read_within_step lzfCompress input t _ within taken⟩
  · have full : t.read = BLOCKSIZE := by
      unfold ReadWithin at within
      omega
    exact ⟨t, by simp only [lzfStep, if_neg more, if_pos full], within⟩

theorem other_input_halts (lzfCompress : LzfCompress) (input : CString) (s : LzfState)
    (different : input.strlen ≠ BLOCKSIZE) (start : ReadWithin input s) : Loop.Halts (lzfStep lzfCompress input) s := by
  refine Loop.halts_of_variant (lzfStep lzfCompress input) (ReadWithin input)
    (fun t => input.strlen - t.read) (read_within_step lzfCompress input) ?_ s start
  intro t next within taken
  unfold lzfStep at taken
  split at taken
  · rename_i more
    cases taken
    have bounds := byte_to_read_bounds input.strlen t.read more
    simp only [compress_chunk_read]
    omega
  · rename_i done
    split at taken
    · rename_i full
      unfold ReadWithin at within
      omega
    · cases taken

-- An input of exactly BLOCKSIZE bytes keeps the outer condition true for ever.
theorem lzf_compress_data_halts_iff (lzfCompress : LzfCompress) (input : CString)
    (buf1 buf2 outputBuffer : Nat → UInt8) :
    Loop.Halts (lzfStep lzfCompress input) (lzfStart buf1 buf2 outputBuffer) ↔ input.strlen ≠ BLOCKSIZE := by
  constructor
  · intro halts exact
    exact blocksize_input_runs_on lzfCompress input _ exact (Nat.zero_le _) halts
  · intro different
    exact other_input_halts lzfCompress input _ different (Nat.zero_le _)

def storedOnly : LzfCompress := fun _ _ _ => ⟨0, []⟩

def repeated (length : Nat) : CString where
  bytes := List.replicate length 97
  nulFree := by simp [List.mem_replicate]

theorem lzf_compress_data_hangs : ¬ ∀ (lzfCompress : LzfCompress) (input : CString)
    (buf1 buf2 outputBuffer : Nat → UInt8),
    Loop.Halts (lzfStep lzfCompress input) (lzfStart buf1 buf2 outputBuffer) := by
  intro always
  have halts := always storedOnly (repeated BLOCKSIZE) (fun _ => 0) (fun _ => 0) (fun _ => 0)
  exact blocksize_input_runs_on storedOnly (repeated BLOCKSIZE) _ List.length_replicate (Nat.zero_le _) halts

end Aliot
