import Mathlib.Data.UInt
import Mathlib.Logic.Function.Basic
import Aliot.LempelZiv
import Aliot.LzfFraming

set_option autoImplicit false

namespace Aliot

-- lzf_c.c with the settings of lzfP.h on a 64-bit machine: HLOG 16, VERY_FAST 1, INIT_HTAB 0, LZF_USE_OFFSETS 1.
def HLOG : Nat := 16
def HSIZE : Nat := 2 ^ HLOG
def MAX_LIT : Nat := 2 ^ 5
def MAX_OFF : Nat := 2 ^ 13
def MAX_REF : Nat := 2 ^ 8 + 2 ^ 3

section Compress

variable (inData : Nat → UInt8) (inLen outLen : Nat)

def FRST (p : Nat) : UInt32 := (inData p).toUInt32 <<< UInt32.ofNat 8 ||| (inData (p + 1)).toUInt32

def NEXT (v : UInt32) (p : Nat) : UInt32 := v <<< UInt32.ofNat 8 ||| (inData (p + 2)).toUInt32

def IDX (h : UInt32) : UInt32 := ((h >>> UInt32.ofNat (3 * 8 - HLOG)) - h * UInt32.ofNat 5) &&& UInt32.ofNat (HSIZE - 1)

-- ip and op are offsets into in_data and out_data, a slot of htab is an offset into in_data.
structure LzfWork where
  ip : Nat
  op : Nat
  lit : Nat
  hval : UInt32
  htab : UInt32 → UInt32
  outData : Nat → UInt8

-- The unrolled comparisons, with whether all of them were passed.
def compareOn (ref ip : Nat) : Nat → Nat → Nat × Bool
  | 0, len => (len, true)
  | left + 1, len => if inData (ref + (len + 1)) ≠ inData (ip + (len + 1)) then (len + 1, false) else compareOn ref ip left (len + 1)

-- do len++; while (len < maxlen && ref[len] == ip[len]): it turns at most maxlen times.
def extendMatch (ref ip maxlen : Nat) : Nat → Nat → Nat
  | 0, len => len + 1
  | left + 1, len =>
      if len + 1 < maxlen ∧ inData (ref + (len + 1)) = inData (ip + (len + 1)) then extendMatch ref ip maxlen left (len + 1)
      else len + 1

def matchLength (ref ip maxlen : Nat) : Nat :=
  if maxlen > 16 then
    let (len, passed) := compareOn inData ref ip 16 2
    if passed then extendMatch inData ref ip maxlen maxlen len else len
  else extendMatch inData ref ip maxlen maxlen 2

-- op [- lit - 1] = lit - 1, which is 255 for an empty run.
def stopRun (outData : Nat → UInt8) (op lit : Nat) : Nat → UInt8 :=
  Function.update outData (op - lit - 1) (UInt8.ofNat (lit + 255))

-- lit++; *op++ = *ip++, and a run of MAX_LIT is stopped.
def copyLiteral (s : LzfWork) : LzfWork :=
  let outData := Function.update s.outData s.op (inData s.ip)
  if s.lit + 1 = MAX_LIT then ⟨s.ip + 1, s.op + 1 + 1, 0, s.hval, s.htab, stopRun outData (s.op + 1) (s.lit + 1)⟩
  else ⟨s.ip + 1, s.op + 1, s.lit + 1, s.hval, s.htab, outData⟩

-- The two slots that VERY_FAST sets behind a match.
def hashBehind (s : LzfWork) : LzfWork :=
  let ip := s.ip - 1 - 1
  let hval := NEXT inData (FRST inData ip) ip
  let htab := Function.update s.htab (IDX hval) (UInt32.ofNat ip)
  let ip := ip + 1
  let hval := NEXT inData hval ip
  let htab := Function.update htab (IDX hval) (UInt32.ofNat ip)
  { s with ip := ip + 1, hval := hval, htab := htab }

-- A match at `ref`; error: return 0.
def copyMatch (s : LzfWork) (ref : Nat) : Except (Nat → UInt8) LzfWork :=
  let off := s.ip - ref - 1
  let noLit := if s.lit = 0 then 1 else 0
  let maxlen := min (inLen - s.ip - 2) MAX_REF
  if s.op + 3 + 1 ≥ outLen ∧ s.op - noLit + 3 + 1 ≥ outLen then .error s.outData
  else
    let outData := stopRun s.outData s.op s.lit
    let op := s.op - noLit
    let len := matchLength inData ref s.ip maxlen - 2
    let coded :=
      if len < 7 then [UInt8.ofNat (off >>> 8 + len <<< 5)]
      else [UInt8.ofNat (off >>> 8 + 7 <<< 5), UInt8.ofNat (len - 7)]
    let outData := Memory.store outData op (coded ++ [UInt8.ofNat off])
    let s := ⟨s.ip + 1 + (len + 1), op + coded.length + 1 + 1, 0, s.hval, s.htab, outData⟩
    if s.ip + 2 ≥ inLen then .ok s else .ok (hashBehind inData s)

-- A round of the loop while ip < in_end - 2. The difference off wraps to a huge number where ref is not in front of ip.
def lzfRound (s : LzfWork) : Except (Nat → UInt8) LzfWork :=
  let hval := NEXT inData s.hval s.ip
  let ref := (s.htab (IDX hval)).toNat
  let s := { s with hval := hval, htab := Function.update s.htab (IDX hval) (UInt32.ofNat s.ip) }
  if (ref < s.ip ∧ s.ip - ref - 1 < MAX_OFF) ∧ ref > 0 ∧ inData (ref + 2) = inData (s.ip + 2) ∧
      inData ref = inData s.ip ∧ inData (ref + 1) = inData (s.ip + 1) then
    copyMatch inData inLen outLen s ref
  else if s.op ≥ outLen then .error s.outData
  else .ok (copyLiteral inData s)

-- Every round reads at least one byte, so in_len rounds are enough.
def lzfRounds : Nat → LzfWork → Except (Nat → UInt8) LzfWork
  | 0, s => .ok s
  | fuel + 1, s =>
      if s.ip + 2 < inLen then
        match lzfRound inData inLen outLen s with
        | .error outData => .error outData
        | .ok next => lzfRounds fuel next
      else .ok s

def lzfTail : Nat → LzfWork → LzfWork
  | 0, s => s
  | left + 1, s => lzfTail left (copyLiteral inData s)

-- The result with what out_data holds afterwards.
def lzfCompress (htab : UInt32 → UInt32) (outData : Nat → UInt8) : UInt32 × (Nat → UInt8) :=
  if inLen = 0 ∨ outLen = 0 then (0, outData)
  else
    match lzfRounds inData inLen outLen inLen ⟨0, 1, 0, FRST inData 0, htab, outData⟩ with
    | .error outData => (0, outData)
    | .ok s =>
        if s.op + 3 > outLen then (0, s.outData)
        else
          let s := lzfTail inData (inLen - s.ip) s
          (UInt32.ofNat (s.op - if s.lit = 0 then 1 else 0), stopRun s.outData s.op s.lit)

end Compress

section Lengths

variable (inData : Nat → UInt8) (ref ip : Nat)

-- The first `n` bytes at ref and at ip are the same.
def SameFor (n : Nat) : Prop := ∀ i, i < n → inData (ref + i) = inData (ip + i)

theorem same_for_succ (n : Nat) (same : SameFor inData ref ip n) (next : inData (ref + n) = inData (ip + n)) :
    SameFor inData ref ip (n + 1) := by
  intro i inside
  rcases Nat.lt_succ_iff_lt_or_eq.mp inside with before | rfl
  · exact same i before
  · exact next

theorem compare_on_spec (left len : Nat) (same : SameFor inData ref ip (len + 1)) :
    SameFor inData ref ip (compareOn inData ref ip left len).1 ∧ (compareOn inData ref ip left len).1 ≤ len + left ∧
      (len < (compareOn inData ref ip left len).1 ∨ (compareOn inData ref ip left len).2 = true) ∧
      ((compareOn inData ref ip left len).2 = true → (compareOn inData ref ip left len).1 = len + left ∧
        SameFor inData ref ip (len + left + 1)) := by
  induction left generalizing len with
  | zero => exact ⟨fun i inside => same i (Nat.lt_succ_of_lt inside), Nat.le_refl _, .inr rfl, fun _ => ⟨rfl, same⟩⟩
  | succ left ih =>
      simp only [compareOn]
      by_cases different : inData (ref + (len + 1)) ≠ inData (ip + (len + 1))
      · rw [if_pos different]
        exact ⟨same, by omega, .inl (Nat.lt_succ_self len), fun passed => by cases passed⟩
      · rw [if_neg different]
        obtain ⟨found, bound, stopped, passed⟩ := ih (len + 1)
          (same_for_succ inData ref ip (len + 1) same (not_not.mp different))
        rw [show len + 1 + left = len + (left + 1) by omega] at bound passed
        exact ⟨found, bound, stopped.imp (fun more => by omega) id, passed⟩

theorem extend_match_spec (maxlen left len : Nat) (same : SameFor inData ref ip (len + 1)) :
    SameFor inData ref ip (extendMatch inData ref ip maxlen left len) ∧
      len + 1 ≤ extendMatch inData ref ip maxlen left len ∧
      extendMatch inData ref ip maxlen left len ≤ max (len + 1) maxlen := by
  induction left generalizing len with
  | zero => exact ⟨same, Nat.le_refl _, Nat.le_max_left _ _⟩
  | succ left ih =>
      simp only [extendMatch]
      by_cases more : len + 1 < maxlen ∧ inData (ref + (len + 1)) = inData (ip + (len + 1))
      · rw [if_pos more]
        obtain ⟨found, low, high⟩ := ih (len + 1) (same_for_succ inData ref ip (len + 1) same more.2)
        exact ⟨found, by omega, by omega⟩
      · rw [if_neg more]
        exact ⟨same, Nat.le_refl _, Nat.le_max_left _ _⟩

-- A match of three bytes at least, of MAX_REF at most, inside the input.
theorem match_length_spec (inLen : Nat) (room : ip + 2 < inLen) (same : SameFor inData ref ip 3) :
    SameFor inData ref ip (matchLength inData ref ip (min (inLen - ip - 2) MAX_REF)) ∧
      3 ≤ matchLength inData ref ip (min (inLen - ip - 2) MAX_REF) ∧
      matchLength inData ref ip (min (inLen - ip - 2) MAX_REF) ≤ 264 ∧
      ip + matchLength inData ref ip (min (inLen - ip - 2) MAX_REF) ≤ inLen := by
  have limit : min (inLen - ip - 2) MAX_REF ≤ 264 ∧ min (inLen - ip - 2) MAX_REF ≤ inLen - ip - 2 :=
    ⟨Nat.min_le_right _ _, Nat.min_le_left _ _⟩
  generalize min (inLen - ip - 2) MAX_REF = maxlen at limit
  simp only [matchLength]
  by_cases long : maxlen > 16
  · rw [if_pos long]
    obtain ⟨found, bound, stopped, passed⟩ := compare_on_spec inData ref ip 16 2 same
    generalize compareOn inData ref ip 16 2 = result at found bound stopped passed
    obtain ⟨len, whole⟩ := result
    cases whole with
    | true =>
        obtain ⟨rfl, all⟩ := passed rfl
        obtain ⟨found, low, high⟩ := extend_match_spec inData ref ip maxlen maxlen (2 + 16) all
        exact ⟨found, by simp only [if_true]; omega, by simp only [if_true]; omega, by simp only [if_true]; omega⟩
    | false =>
        have more : 2 < len := stopped.resolve_right Bool.false_ne_true
        exact ⟨found, more, by simp only [Bool.false_eq_true, if_false] at *; omega, by simp only [Bool.false_eq_true, if_false] at *; omega⟩
  · rw [if_neg long]
    obtain ⟨found, low, high⟩ := extend_match_spec inData ref ip maxlen maxlen 2 same
    exact ⟨found, low, by omega, by omega⟩

end Lengths

open LempelZiv (Token GoodToken tokenFormat encodeToken expandToken)

-- The first op bytes of out_data are tokens that tell the first ip bytes of in_data.
def Told (inData outData : Nat → UInt8) (op ip : Nat) : Prop :=
  ∃ tokens : List (Token UInt8), (∀ token ∈ tokens, GoodToken token) ∧
    Memory.load outData 0 op = tokenFormat.encodeAll tokens ∧ LempelZiv.expand tokens [] = some (Memory.load inData 0 ip)

section Told

variable (inData : Nat → UInt8)

theorem told_start (outData : Nat → UInt8) : Told inData outData 0 0 := ⟨[], by simp, rfl, rfl⟩

theorem told_decompress (outData : Nat → UInt8) (op ip : Nat) (told : Told inData outData op ip) :
    LempelZiv.decompress (Memory.load outData 0 op) = some (Memory.load inData 0 ip) := by
  obtain ⟨tokens, good, bytes, text⟩ := told
  rw [bytes]
  exact LempelZiv.decompress_encoded tokens _ good text

theorem told_congr (outData other : Nat → UInt8) (op ip : Nat) (same : ∀ k, k < op → other k = outData k)
    (told : Told inData outData op ip) : Told inData other op ip := by
  obtain ⟨tokens, good, bytes, text⟩ := told
  refine ⟨tokens, good, ?_, text⟩
  rw [← bytes]
  exact Memory.load_congr other outData 0 op (fun k _ inside => same k (by omega))

-- A token written behind what is told.
theorem told_token (outData other : Nat → UInt8) (op ip next : Nat) (token : Token UInt8) (good : GoodToken token)
    (told : Told inData outData op ip) (expands : expandToken (Memory.load inData 0 ip) token = some (Memory.load inData 0 next))
    (same : ∀ k, k < op → other k = outData k) (written : Memory.load other op (encodeToken token).length = encodeToken token) :
    Told inData other (op + (encodeToken token).length) next := by
  obtain ⟨tokens, goods, bytes, text⟩ := told_congr inData outData other op ip same told
  refine ⟨tokens ++ [token], ?_, ?_, ?_⟩
  · intro each listed
    rcases List.mem_append.mp listed with before | last
    · exact goods each before
    · exact List.mem_singleton.mp last ▸ good
  · rw [Memory.load_append, bytes, Nat.zero_add, written, tokenFormat.encode_all_append]
    simp only [FrameFormat.encodeAll, List.flatMap_cons, List.flatMap_nil, List.append_nil, tokenFormat]
  · rw [LempelZiv.expand_then tokens token [] _ text, expands]

-- Stopping a run makes its literals a token; an empty run is undone.
theorem stop_told (outData : Nat → UInt8) (op ip lit : Nat) (told : Told inData outData (op - lit - 1) (ip - lit))
    (run : Memory.load outData (op - lit) lit = Memory.load inData (ip - lit) lit) (begun : lit < op) (read : lit ≤ ip)
    (short : lit ≤ 32) : Told inData (stopRun outData op lit) (op - if lit = 0 then 1 else 0) ip := by
  have untouched : ∀ k, k ≠ op - lit - 1 → stopRun outData op lit k = outData k :=
    fun k other => Function.update_of_ne other _ _
  by_cases empty : lit = 0
  · subst empty
    rw [if_pos rfl]
    exact told_congr inData outData _ _ _ (fun k inside => untouched k (by omega)) told
  · rw [if_neg empty, Nat.sub_zero]
    obtain ⟨base, rfl⟩ : ∃ base, op = base + (lit + 1) := ⟨op - lit - 1, by omega⟩
    have start : base + (lit + 1) - lit - 1 = base ∧ base + (lit + 1) - lit = base + 1 := by omega
    rw [start.1] at told untouched
    rw [start.2] at run
    have code : UInt8.ofNat (lit + 255) = UInt8.ofNat (lit - 1) := by
      apply UInt8.toNat_inj.mp
      simp only [UInt8.toNat_ofNat']
      omega
    have token : encodeToken (.literals (Memory.load inData (ip - lit) lit)) =
        UInt8.ofNat (lit + 255) :: Memory.load inData (ip - lit) lit := by
      rw [encodeToken, Memory.load_length, code]
    have length : (encodeToken (.literals (Memory.load inData (ip - lit) lit))).length = lit + 1 := by
      rw [token, List.length_cons, Memory.load_length]
    have next := told_token inData outData (stopRun outData (base + (lit + 1)) lit) base (ip - lit) ip
      (.literals (Memory.load inData (ip - lit) lit)) ?_ told ?_ (fun k inside => untouched k (by omega)) ?_
    · rw [length] at next
      exact next
    · simp only [GoodToken, Memory.load_length]
      omega
    · have whole := Memory.load_append inData 0 (ip - lit) lit
      rw [Nat.zero_add, Nat.sub_add_cancel read] at whole
      rw [expandToken, whole]
    · rw [length, token, Memory.load, ← run]
      have first : stopRun outData (base + (lit + 1)) lit base = UInt8.ofNat (lit + 255) := by
        rw [stopRun, start.1, Function.update_self]
      rw [first, Memory.load_congr _ outData (base + 1) lit (fun k low _ => untouched k (by omega))]

end Told

-- Where the loop stands: `lit` bytes of the open run behind what is told, and nothing written from out_len on.
structure Packing (inData before : Nat → UInt8) (inLen outLen : Nat) (s : LzfWork) : Prop where
  told : Told inData s.outData (s.op - s.lit - 1) (s.ip - s.lit)
  run : Memory.load s.outData (s.op - s.lit) s.lit = Memory.load inData (s.ip - s.lit) s.lit
  begun : s.lit < s.op
  read : s.lit ≤ s.ip
  within : s.ip ≤ inLen
  short : s.lit < 32
  room : s.op ≤ outLen + 1
  open_room : s.lit ≠ 0 → s.op ≤ outLen
  frame : ∀ k, outLen ≤ k → s.outData k = before k

section Packing

variable (inData before : Nat → UInt8) (inLen outLen : Nat)

-- The slots and the hash value have no part in it.
theorem packing_hash (s : LzfWork) (hval : UInt32) (htab : UInt32 → UInt32) (packing : Packing inData before inLen outLen s) :
    Packing inData before inLen outLen { s with hval := hval, htab := htab } :=
  ⟨packing.told, packing.run, packing.begun, packing.read, packing.within, packing.short, packing.room, packing.open_room,
    packing.frame⟩

theorem hash_behind_same (s : LzfWork) (two : 2 ≤ s.ip) :
    ∃ hval htab, hashBehind inData s = { s with hval := hval, htab := htab } := by
  have back : s.ip - 1 - 1 + 1 + 1 = s.ip := by omega
  simp only [hashBehind, back]
  exact ⟨_, _, rfl⟩

theorem copy_literal_packing (s : LzfWork) (packing : Packing inData before inLen outLen s) (more : s.ip < inLen)
    (fits : s.op < outLen) : Packing inData before inLen outLen (copyLiteral inData s) ∧ (copyLiteral inData s).ip = s.ip + 1 ∧
      ((copyLiteral inData s).op = s.op + 1 ∨ (copyLiteral inData s).op = s.op + 2 ∧ (copyLiteral inData s).lit = 0 ∧ s.lit = 31) := by
  obtain ⟨told, run, begun, read, within, short, room, openRoom, frame⟩ := packing
  have untouched : ∀ k, k ≠ s.op → Function.update s.outData s.op (inData s.ip) k = s.outData k :=
    fun k other => Function.update_of_ne other _ _
  have places : s.op + 1 - (s.lit + 1) = s.op - s.lit ∧ s.ip + 1 - (s.lit + 1) = s.ip - s.lit := by omega
  have toldOn : Told inData (Function.update s.outData s.op (inData s.ip)) (s.op + 1 - (s.lit + 1) - 1) (s.ip + 1 - (s.lit + 1)) := by
    rw [places.1, places.2]
    exact told_congr inData s.outData _ _ _ (fun k inside => untouched k (by omega)) told
  have runOn : Memory.load (Function.update s.outData s.op (inData s.ip)) (s.op + 1 - (s.lit + 1)) (s.lit + 1) =
      Memory.load inData (s.ip + 1 - (s.lit + 1)) (s.lit + 1) := by
    have front := Memory.load_congr (Function.update s.outData s.op (inData s.ip)) s.outData (s.op - s.lit) s.lit
      (fun k _ high => untouched k (by omega))
    have last : s.op - s.lit + s.lit = s.op ∧ s.ip - s.lit + s.lit = s.ip := by omega
    rw [places.1, places.2, Memory.load_append, Memory.load_append, front, run, last.1, last.2]
    simp only [Memory.load, Function.update_self]
  by_cases full : s.lit + 1 = MAX_LIT
  · have thirty : s.lit = 31 := Nat.succ.inj full
    have stopped := stop_told inData _ (s.op + 1) (s.ip + 1) (s.lit + 1) toldOn runOn (by omega) (by omega) (by omega)
    rw [if_neg (Nat.succ_ne_zero _), Nat.sub_zero] at stopped
    have roomOn : s.op + 1 + 1 ≤ outLen + 1 := by omega
    have frameOn : ∀ k, outLen ≤ k →
        stopRun (Function.update s.outData s.op (inData s.ip)) (s.op + 1) (s.lit + 1) k = before k := by
      intro k far
      rw [stopRun, Function.update_of_ne (by omega), untouched k (by omega), frame k far]
    have shape : copyLiteral inData s = ⟨s.ip + 1, s.op + 1 + 1, 0, s.hval, s.htab,
        stopRun (Function.update s.outData s.op (inData s.ip)) (s.op + 1) (s.lit + 1)⟩ := if_pos full
    rw [shape]
    exact ⟨⟨stopped, rfl, Nat.succ_pos _, Nat.zero_le _, more, Nat.succ_pos 31, roomOn, fun none => absurd rfl none, frameOn⟩, rfl,
      .inr ⟨rfl, rfl, thirty⟩⟩
  · have notFull : s.lit + 1 ≠ 32 := full
    have frameOn : ∀ k, outLen ≤ k → Function.update s.outData s.op (inData s.ip) k = before k := by
      intro k far
      rw [untouched k (by omega), frame k far]
    have shape : copyLiteral inData s =
        ⟨s.ip + 1, s.op + 1, s.lit + 1, s.hval, s.htab, Function.update s.outData s.op (inData s.ip)⟩ := if_neg full
    rw [shape]
    exact ⟨⟨toldOn, runOn, Nat.succ_lt_succ begun, Nat.succ_le_succ read, more, Nat.lt_of_le_of_ne short notFull,
      Nat.succ_le_succ (Nat.le_of_lt fits), fun _ => fits, frameOn⟩, rfl, .inl rfl⟩

theorem coded_match (off length : Nat) (low : 3 ≤ length) :
    (if length - 2 < 7 then [UInt8.ofNat (off >>> 8 + (length - 2) <<< 5)]
      else [UInt8.ofNat (off >>> 8 + 7 <<< 5), UInt8.ofNat (length - 2 - 7)]) ++ [UInt8.ofNat off] =
      encodeToken (.copy (off + 1) length) := by
  have shifts : off >>> 8 = off / 256 ∧ (length - 2) <<< 5 = (length - 2) * 32 ∧ 7 <<< 5 = 224 :=
    ⟨Nat.shiftRight_eq_div_pow off 8, Nat.shiftLeft_eq _ 5, rfl⟩
  have rest : length - 2 - 7 = length - 9 := by omega
  simp only [encodeToken, shifts, rest, Nat.add_sub_cancel]
  split <;> rfl

theorem token_length (off length : Nat) : (encodeToken (.copy (off + 1) length)).length ≤ 3 := by
  simp only [encodeToken]
  split <;> simp

theorem copy_match_packing (s : LzfWork) (ref : Nat) (packing : Packing inData before inLen outLen s) (more : s.ip + 2 < inLen)
    (front : ref < s.ip) (near : s.ip - ref - 1 < MAX_OFF) (same : SameFor inData ref s.ip 3) :
    copyMatch inData inLen outLen s ref = .error s.outData ∨
      ∃ next, copyMatch inData inLen outLen s ref = .ok next ∧ Packing inData before inLen outLen next ∧ s.ip < next.ip := by
  have off : MAX_OFF = 8192 := rfl
  have stopped := stop_told inData s.outData s.op s.ip s.lit packing.told packing.run packing.begun packing.read
    (Nat.le_of_lt packing.short)
  obtain ⟨found, low, high, inside⟩ := match_length_spec inData ref s.ip inLen more same
  simp only [copyMatch]
  generalize matchLength inData ref s.ip (min (inLen - s.ip - 2) MAX_REF) = length at *
  have begun := packing.begun
  have opening : s.op - s.lit - 1 ≤ s.op - (if s.lit = 0 then 1 else 0) ∧ s.op - (if s.lit = 0 then 1 else 0) ≤ s.op := by
    split <;> omega
  generalize s.op - (if s.lit = 0 then 1 else 0) = op at *
  by_cases full : s.op + 3 + 1 ≥ outLen ∧ op + 3 + 1 ≥ outLen
  · exact .inl (if_pos full)
  · right
    have fits : op + 4 < outLen := by omega
    rw [if_neg full, coded_match _ _ low]
    have width : ∀ coded : Bytes, op + coded.length + 1 + 1 = op + (coded ++ [UInt8.ofNat (s.ip - ref - 1)]).length + 1 := by
      intro coded
      simp only [List.length_append, List.length_cons, List.length_nil]
      omega
    rw [width, coded_match _ _ low]
    have size := token_length (s.ip - ref - 1) length
    have told := told_token inData _ (Memory.store (stopRun s.outData s.op s.lit) op (encodeToken (.copy (s.ip - ref - 1 + 1) length)))
      op s.ip (s.ip + length) (.copy (s.ip - ref - 1 + 1) length) ?_ stopped ?_
      (fun k before => Memory.store_outside _ _ _ _ (by omega)) (Memory.load_store _ _ _)
    generalize encodeToken (.copy (s.ip - ref - 1 + 1) length) = coded at *
    · have read : s.ip + 1 + (length - 2 + 1) = s.ip + length := by omega
      rw [read]
      have packed : Packing inData before inLen outLen ⟨s.ip + length, op + coded.length + 1, 0, s.hval, s.htab,
          Memory.store (stopRun s.outData s.op s.lit) op coded⟩ := by
        refine ⟨told, rfl, Nat.succ_pos _, Nat.zero_le _, inside, Nat.succ_pos 31, ?_, fun none => absurd rfl none, ?_⟩
        · show op + coded.length + 1 ≤ outLen + 1
          omega
        · intro k far
          show Memory.store (stopRun s.outData s.op s.lit) op coded k = before k
          rw [Memory.store_outside _ _ _ _ (by omega), stopRun, Function.update_of_ne (by omega), packing.frame k far]
      have ahead : s.ip < s.ip + length := by omega
      by_cases last : s.ip + length + 2 ≥ inLen
      · exact ⟨_, if_pos last, packed, ahead⟩
      · obtain ⟨hval, htab, behind⟩ := hash_behind_same inData ⟨s.ip + length, op + coded.length + 1, 0, s.hval, s.htab,
          Memory.store (stopRun s.outData s.op s.lit) op coded⟩ (by show 2 ≤ s.ip + length; omega)
        refine ⟨_, if_neg last, ?_, ?_⟩
        · rw [behind]
          exact packing_hash inData before inLen outLen _ hval htab packed
        · rw [behind]
          exact ahead
    · exact ⟨by omega, low, high⟩
    · have back : s.ip - (s.ip - ref - 1 + 1) = ref := by omega
      refine LempelZiv.copy_back_load inData (s.ip - ref - 1 + 1) length s.ip (by omega) (by omega) ?_
      intro i within
      rw [back]
      exact found i within

theorem lzf_round_packing (s : LzfWork) (packing : Packing inData before inLen outLen s) (more : s.ip + 2 < inLen) :
    lzfRound inData inLen outLen s = .error s.outData ∨
      ∃ next, lzfRound inData inLen outLen s = .ok next ∧ Packing inData before inLen outLen next ∧ s.ip < next.ip := by
  have hashed := packing_hash inData before inLen outLen s (NEXT inData s.hval s.ip)
    (Function.update s.htab (IDX (NEXT inData s.hval s.ip)) (UInt32.ofNat s.ip)) packing
  simp only [lzfRound]
  generalize (s.htab (IDX (NEXT inData s.hval s.ip))).toNat = ref
  by_cases found : (ref < s.ip ∧ s.ip - ref - 1 < MAX_OFF) ∧ ref > 0 ∧ inData (ref + 2) = inData (s.ip + 2) ∧
      inData ref = inData s.ip ∧ inData (ref + 1) = inData (s.ip + 1)
  · rw [if_pos found]
    obtain ⟨⟨front, near⟩, _, third, first, second⟩ := found
    have same : SameFor inData ref s.ip 3 := by
      intro i inside
      obtain rfl | rfl | rfl : i = 0 ∨ i = 1 ∨ i = 2 := by omega
      · exact first
      · exact second
      · exact third
    exact copy_match_packing inData before inLen outLen _ ref hashed more front near same
  · rw [if_neg found]
    by_cases full : s.op ≥ outLen
    · exact .inl (if_pos full)
    · rw [if_neg full]
      obtain ⟨packed, read, _⟩ := copy_literal_packing inData before inLen outLen _ hashed
        (Nat.lt_of_le_of_lt (Nat.le_add_right _ 2) more) (Nat.lt_of_not_le full)
      exact .inr ⟨_, rfl, packed, read ▸ Nat.lt_succ_self s.ip⟩

-- Whether the rounds end or give up, nothing behind out_len is written; where they end, two bytes at most are left.
theorem lzf_rounds_packing (fuel : Nat) (s : LzfWork) (packing : Packing inData before inLen outLen s)
    (enough : inLen ≤ s.ip + fuel) :
    (∃ outData, lzfRounds inData inLen outLen fuel s = .error outData ∧ ∀ k, outLen ≤ k → outData k = before k) ∨
      ∃ final, lzfRounds inData inLen outLen fuel s = .ok final ∧ Packing inData before inLen outLen final ∧ inLen ≤ final.ip + 2 := by
  induction fuel generalizing s with
  | zero => exact .inr ⟨s, rfl, packing, by omega⟩
  | succ fuel ih =>
      simp only [lzfRounds]
      by_cases more : s.ip + 2 < inLen
      · rw [if_pos more]
        rcases lzf_round_packing inData before inLen outLen s packing more with given | ⟨next, taken, packed, ahead⟩
        · rw [given]
          exact .inl ⟨s.outData, rfl, packing.frame⟩
        · rw [taken]
          exact ih next packed (by omega)
      · rw [if_neg more]
        exact .inr ⟨s, rfl, packing, by omega⟩

-- The bytes that are left find room behind the last test.
theorem lzf_tail_packing (s : LzfWork) (packing : Packing inData before inLen outLen s) (fits : s.op + 3 ≤ outLen)
    (left : inLen ≤ s.ip + 2) : Packing inData before inLen outLen (lzfTail inData (inLen - s.ip) s) ∧
      (lzfTail inData (inLen - s.ip) s).ip = inLen ∧ (lzfTail inData (inLen - s.ip) s).op ≤ outLen := by
  have within := packing.within
  obtain none | one | two : inLen - s.ip = 0 ∨ inLen - s.ip = 1 ∨ inLen - s.ip = 2 := by omega
  · rw [none]
    have whole : s.ip = inLen := by omega
    have room : s.op ≤ outLen := by omega
    exact ⟨packing, whole, room⟩
  · obtain ⟨packed, read, grown⟩ := copy_literal_packing inData before inLen outLen s packing (by omega) (by omega)
    rw [one]
    have whole : (copyLiteral inData s).ip = inLen := by omega
    have room : (copyLiteral inData s).op ≤ outLen := by omega
    exact ⟨packed, whole, room⟩
  · obtain ⟨packed, read, grown⟩ := copy_literal_packing inData before inLen outLen s packing (by omega) (by omega)
    obtain ⟨packed, read', grown'⟩ := copy_literal_packing inData before inLen outLen _ packed (by omega) (by omega)
    rw [two]
    have whole : (copyLiteral inData (copyLiteral inData s)).ip = inLen := by omega
    have room : (copyLiteral inData (copyLiteral inData s)).op ≤ outLen := by omega
    exact ⟨packed, whole, room⟩

end Packing

theorem packing_start (inData outData : Nat → UInt8) (htab : UInt32 → UInt32) (inLen outLen : Nat) :
    Packing inData outData inLen outLen ⟨0, 1, 0, FRST inData 0, htab, outData⟩ where
  told := told_start inData outData
  run := rfl
  begun := Nat.succ_pos 0
  read := Nat.le_refl 0
  within := Nat.zero_le _
  short := Nat.succ_pos 31
  room := Nat.succ_le_succ (Nat.zero_le _)
  open_room := fun none => absurd rfl none
  frame := fun _ _ => rfl

-- What lzf.h promises, whatever the hash table holds when the call starts.
structure Compresses (inData outData : Nat → UInt8) (inLen outLen : Nat) (result : UInt32 × (Nat → UInt8)) : Prop where
  bounded : result.1.toNat ≤ outLen
  inside : ∀ k, outLen ≤ k → result.2 k = outData k
  inverse : outLen < 2 ^ 32 → result.1 ≠ 0 →
    LempelZiv.decompress (Memory.load result.2 0 result.1.toNat) = some (Memory.load inData 0 inLen)

-- The ways lzf_compress ends: it gives up, or the run of the bytes it has packed is closed within out_len.
inductive Ends (inData outData : Nat → UInt8) (inLen outLen : Nat) : UInt32 × (Nat → UInt8) → Prop
  | nothing (other : Nat → UInt8) (inside : ∀ k, outLen ≤ k → other k = outData k) : Ends inData outData inLen outLen (0, other)
  | packed (last : LzfWork) (packing : Packing inData outData inLen outLen last) (whole : last.ip = inLen) (room : last.op ≤ outLen) :
      Ends inData outData inLen outLen
        (UInt32.ofNat (last.op - if last.lit = 0 then 1 else 0), stopRun last.outData last.op last.lit)

theorem lzf_compress_ends (inData outData : Nat → UInt8) (htab : UInt32 → UInt32) (inLen outLen : Nat) :
    Ends inData outData inLen outLen (lzfCompress inData inLen outLen htab outData) := by
  simp only [lzfCompress]
  by_cases empty : inLen = 0 ∨ outLen = 0
  · rw [if_pos empty]
    exact .nothing outData (fun _ _ => rfl)
  rw [if_neg empty]
  rcases lzf_rounds_packing inData outData inLen outLen inLen _ (packing_start inData outData htab inLen outLen)
    (Nat.le_add_left _ _) with ⟨other, given, inside⟩ | ⟨s, ended, packing, left⟩
  · rw [given]
    exact .nothing other inside
  rw [ended]
  by_cases full : s.op + 3 > outLen
  · simp only [if_pos full]
    exact .nothing s.outData packing.frame
  simp only [if_neg full]
  obtain ⟨packed, whole, room⟩ := lzf_tail_packing inData outData inLen outLen s packing (Nat.le_of_not_lt full) left
  exact .packed _ packed whole room

theorem ends_compresses (inData outData : Nat → UInt8) (inLen outLen : Nat) (result : UInt32 × (Nat → UInt8))
    (ends : Ends inData outData inLen outLen result) : Compresses inData outData inLen outLen result := by
  rcases ends with ⟨other, inside⟩ | ⟨last, packed, whole, room⟩
  · exact ⟨Nat.zero_le _, inside, fun _ packed => absurd rfl packed⟩
  have told := stop_told inData last.outData last.op last.ip last.lit packed.told packed.run packed.begun packed.read
    (Nat.le_of_lt packed.short)
  have begun := packed.begun
  have opening : last.op - (if last.lit = 0 then 1 else 0) ≤ outLen := by
    split <;> omega
  generalize last.op - (if last.lit = 0 then 1 else 0) = size at told opening
  refine ⟨?_, ?_, ?_⟩
  · simp only [UInt32.toNat_ofNat']
    omega
  · intro k far
    simp only [stopRun]
    rw [Function.update_of_ne (by omega), packed.frame k far]
  · intro small _
    have exact : (UInt32.ofNat size).toNat = size := by
      simp only [UInt32.toNat_ofNat']
      omega
    simp only [exact]
    rw [← whole]
    exact told_decompress inData _ size last.ip told

theorem lzf_compress_compresses (inData outData : Nat → UInt8) (htab : UInt32 → UInt32) (inLen outLen : Nat) :
    Compresses inData outData inLen outLen (lzfCompress inData inLen outLen htab outData) :=
  ends_compresses inData outData inLen outLen _ (lzf_compress_ends inData outData htab inLen outLen)

section Reads

variable (inData other : Nat → UInt8) (inLen outLen : Nat) (agree : ∀ i, i < inLen → other i = inData i)

include agree

theorem next_agrees (v : UInt32) (p : Nat) (inside : p + 2 < inLen) : NEXT other v p = NEXT inData v p := by
  rw [NEXT, NEXT, agree _ inside]

theorem frst_agrees (p : Nat) (inside : p + 1 < inLen) : FRST other p = FRST inData p := by
  rw [FRST, FRST, agree _ inside, agree p (by omega)]

theorem compare_on_agrees (ref ip left len : Nat) (front : ref < ip) (inside : ip + len + left < inLen) :
    compareOn other ref ip left len = compareOn inData ref ip left len := by
  induction left generalizing len with
  | zero => rfl
  | succ left ih =>
      simp only [compareOn]
      rw [agree _ (by omega), agree _ (by omega), ih (len + 1) (by omega)]

theorem extend_match_agrees (ref ip maxlen left len : Nat) (front : ref < ip) (inside : ip + maxlen < inLen) :
    extendMatch other ref ip maxlen left len = extendMatch inData ref ip maxlen left len := by
  induction left generalizing len with
  | zero => rfl
  | succ left ih =>
      simp only [extendMatch]
      by_cases more : len + 1 < maxlen
      · rw [agree _ (by omega), agree _ (by omega), ih]
      · rw [if_neg (fun both => more both.1), if_neg (fun both => more both.1)]

theorem match_length_agrees (ref ip : Nat) (front : ref < ip) (room : ip + 2 < inLen) :
    matchLength other ref ip (min (inLen - ip - 2) MAX_REF) = matchLength inData ref ip (min (inLen - ip - 2) MAX_REF) := by
  have limit : min (inLen - ip - 2) MAX_REF ≤ inLen - ip - 2 := Nat.min_le_left _ _
  generalize min (inLen - ip - 2) MAX_REF = maxlen at limit
  have extended := fun len => extend_match_agrees inData other inLen agree ref ip maxlen maxlen len front (by omega)
  simp only [matchLength, extended]
  by_cases long : maxlen > 16
  · rw [if_pos long, if_pos long, compare_on_agrees inData other inLen agree ref ip 16 2 front (by omega)]
  · rw [if_neg long, if_neg long]

theorem hash_behind_agrees (s : LzfWork) (two : 2 ≤ s.ip) (more : s.ip + 2 < inLen) : hashBehind other s = hashBehind inData s := by
  simp only [hashBehind, frst_agrees inData other inLen agree (s.ip - 1 - 1) (by omega),
    next_agrees inData other inLen agree _ (s.ip - 1 - 1) (by omega),
    next_agrees inData other inLen agree _ (s.ip - 1 - 1 + 1) (by omega)]

theorem copy_literal_agrees (s : LzfWork) (more : s.ip < inLen) : copyLiteral other s = copyLiteral inData s := by
  simp only [copyLiteral, agree s.ip more]

theorem copy_match_agrees (s : LzfWork) (ref : Nat) (front : ref < s.ip) (more : s.ip + 2 < inLen) :
    copyMatch other inLen outLen s ref = copyMatch inData inLen outLen s ref := by
  have behind := fun op outData len (short : ¬ s.ip + 1 + (len + 1) + 2 ≥ inLen) =>
    hash_behind_agrees inData other inLen agree ⟨s.ip + 1 + (len + 1), op, 0, s.hval, s.htab, outData⟩
      (by show 2 ≤ s.ip + 1 + (len + 1); omega) (Nat.lt_of_not_le short)
  simp only [copyMatch, match_length_agrees inData other inLen agree ref s.ip front more]
  generalize matchLength inData ref s.ip (min (inLen - s.ip - 2) MAX_REF) - 2 = len
  by_cases whole : s.ip + 1 + (len + 1) + 2 ≥ inLen
  · simp only [if_pos whole]
  · simp only [if_neg whole, behind _ _ len whole]

theorem lzf_round_agrees (s : LzfWork) (more : s.ip + 2 < inLen) :
    lzfRound other inLen outLen s = lzfRound inData inLen outLen s := by
  have hashed := next_agrees inData other inLen agree s.hval s.ip more
  have literal := fun hval htab => copy_literal_agrees inData other inLen agree { s with hval := hval, htab := htab }
    (Nat.lt_of_le_of_lt (Nat.le_add_right _ 2) more)
  have matched := fun hval htab ref (front : ref < s.ip) =>
    copy_match_agrees inData other inLen outLen agree { s with hval := hval, htab := htab } ref front more
  simp only [lzfRound, hashed, literal, agree _ more, agree s.ip (by omega), agree (s.ip + 1) (by omega)]
  generalize (s.htab (IDX (NEXT inData s.hval s.ip))).toNat = ref
  by_cases front : ref < s.ip ∧ s.ip - ref - 1 < MAX_OFF
  · rw [agree (ref + 2) (by omega), agree ref (by omega), agree (ref + 1) (by omega), matched _ _ ref front.1]
  · have missed : ∀ rest : Prop, ¬ ((ref < s.ip ∧ s.ip - ref - 1 < MAX_OFF) ∧ rest) := fun _ found => front found.1
    rw [if_neg (missed _), if_neg (missed _)]

theorem lzf_rounds_agree (fuel : Nat) (s : LzfWork) : lzfRounds other inLen outLen fuel s = lzfRounds inData inLen outLen fuel s := by
  induction fuel generalizing s with
  | zero => rfl
  | succ fuel ih =>
      simp only [lzfRounds]
      by_cases more : s.ip + 2 < inLen
      · rw [if_pos more, if_pos more, lzf_round_agrees inData other inLen outLen agree s more]
        cases lzfRound inData inLen outLen s with
        | error outData => rfl
        | ok next => exact ih next
      · rw [if_neg more, if_neg more]

theorem lzf_tail_agrees (left : Nat) (s : LzfWork) (inside : s.ip + left ≤ inLen) :
    lzfTail other left s = lzfTail inData left s := by
  induction left generalizing s with
  | zero => rfl
  | succ left ih =>
      have next : (copyLiteral inData s).ip = s.ip + 1 := by
        simp only [copyLiteral]
        split <;> rfl
      rw [lzfTail, lzfTail, copy_literal_agrees inData other inLen agree s (by omega), ih _ (by omega)]

end Reads

-- The one byte that FRST may read behind an input of length one reaches nothing but hval.
theorem lzf_tail_hval (inData : Nat → UInt8) (left : Nat) (s : LzfWork) (hval : UInt32) :
    lzfTail inData left { s with hval := hval } = { lzfTail inData left s with hval := hval } := by
  induction left generalizing s with
  | zero => rfl
  | succ left ih =>
      have one : copyLiteral inData { s with hval := hval } = { copyLiteral inData s with hval := hval } := by
        simp only [copyLiteral]
        split <;> rfl
      rw [lzfTail, lzfTail, one, ih]

theorem lzf_compress_reads_inside (inData other outData : Nat → UInt8) (htab : UInt32 → UInt32) (inLen outLen : Nat)
    (agree : ∀ i, i < inLen → other i = inData i) :
    lzfCompress other inLen outLen htab outData = lzfCompress inData inLen outLen htab outData := by
  have rounds := lzf_rounds_agree inData other inLen outLen agree
  simp only [lzfCompress, rounds]
  by_cases single : inLen ≤ 1
  · have stay : ∀ s : LzfWork, lzfRounds inData inLen outLen inLen s = .ok s := by
      intro s
      obtain rfl | rfl : inLen = 0 ∨ inLen = 1 := by omega
      · rfl
      · rw [lzfRounds, if_neg (by omega)]
    simp only [stay]
    have first : (⟨0, 1, 0, FRST other 0, htab, outData⟩ : LzfWork) =
        { (⟨0, 1, 0, FRST inData 0, htab, outData⟩ : LzfWork) with hval := FRST other 0 } := rfl
    rw [lzf_tail_agrees inData other inLen agree _ _ (by show 0 + (inLen - 0) ≤ inLen; omega), first, lzf_tail_hval]
  · rw [frst_agrees inData other inLen agree 0 (by omega)]
    cases ended : lzfRounds inData inLen outLen inLen ⟨0, 1, 0, FRST inData 0, htab, outData⟩ with
    | error outData => rfl
    | ok s =>
        have within : s.ip ≤ inLen := by
          rcases lzf_rounds_packing inData outData inLen outLen inLen _ (packing_start inData outData htab inLen outLen)
            (Nat.le_add_left _ _) with ⟨_, given, _⟩ | ⟨final, reached, packing, _⟩
          · rw [given] at ended
            cases ended
          · rw [reached] at ended
            obtain rfl := Except.ok.inj ended
            exact packing.within
        simp only [lzf_tail_agrees inData other inLen agree (inLen - s.ip) s (by omega)]

def letters (i : Nat) : UInt8 := 97 + UInt8.ofNat (i % 5)

-- 64 letters become 13 bytes, whatever follows them, with references anywhere in a table that is left over.
theorem letters_read_inside : lzfCompress (fun i => if i < 64 then letters i else 0) 64 68 (fun slot => slot) (fun _ => 0) =
      lzfCompress letters 64 68 (fun slot => slot) (fun _ => 0) ∧
    (lzfCompress letters 64 68 (fun slot => slot) (fun _ => 0)).1 = 13 :=
  ⟨lzf_compress_reads_inside letters (fun i => if i < 64 then letters i else 0) (fun _ => 0) (fun slot => slot) 64 68
    (fun _ inside => if_pos inside), by decide +kernel⟩

end Aliot
