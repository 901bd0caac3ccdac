import Aliot.PaddedLength

set_option autoImplicit false

namespace Aliot

def MQTTPACKET_READ_ERROR : Int := -1

-- What is still to come and what each call of getfn finds: so many bytes, 0 for call again, none for an error.
structure PolledSocket where
  stream : Bytes
  answers : List (Option Nat)

structure MQTTTransport where
  sck : PolledSocket
  multiplier : Nat
  rem_len : Nat
  len : Nat
  state : Nat

-- A read of the packet: the value returned, the caller's buffer and the transport.
structure Readnb where
  rc : Int
  buf : Nat → UInt8
  trp : MQTTTransport

def getfn (sck : PolledSocket) (count : Nat) : Int × Bytes × PolledSocket :=
  match sck.answers with
  | [] => (0, [], sck)
  | none :: answers => (-1, [], ⟨sck.stream, answers⟩)
  | some ready :: answers =>
      let bytes := sck.stream.take (min ready count)
      (bytes.length, bytes, ⟨sck.stream.drop (min ready count), answers⟩)

-- The do-while of MQTTPacket_decodenb: len has counted a call before it is known to find a byte.
def decodenbLoop : Nat → MQTTTransport → Int × MQTTTransport
  | 0, trp => (MQTTPACKET_READ_ERROR, { trp with len := trp.len + 1 })
  | left + 1, trp =>
      let trp := { trp with len := trp.len + 1 }
      let (frc, bytes, sck) := getfn trp.sck 1
      let trp := { trp with sck := sck }
      if frc = -1 then (MQTTPACKET_READ_ERROR, trp)
      else if frc = 0 then (0, trp)
      else
        let c := bytes.headD 0
        let trp := { trp with
          rem_len := trp.rem_len + (c &&& 127).toNat * trp.multiplier, multiplier := trp.multiplier * 128 }
        if c &&& 128 ≠ 0 then decodenbLoop left trp else (trp.len, trp)

def mqttPacketDecodenb (trp : MQTTTransport) : Int × MQTTTransport :=
  let trp := if trp.len = 0 then { trp with multiplier := 1, rem_len := 0 } else trp
  decodenbLoop (MAX_NO_OF_REMAINING_LENGTH_BYTES - trp.len) trp

-- The cases of the switch, each falling through to the one defined before it.
def readnbBody (buf : Nat → UInt8) (trp : MQTTTransport) : Readnb :=
  let (frc, bytes, sck) := getfn trp.sck trp.rem_len
  let buf := Memory.store buf trp.len bytes
  let trp := { trp with sck := sck }
  if frc = -1 then ⟨-1, buf, { trp with state := 0 }⟩
  else if frc = 0 then ⟨0, buf, trp⟩
  else
    let trp := { trp with rem_len := trp.rem_len - bytes.length, len := trp.len + bytes.length }
    if trp.rem_len ≠ 0 then ⟨0, buf, trp⟩ else ⟨headerType (buf 0), buf, { trp with state := 0 }⟩

def readnbSize (buflen : Nat) (buf : Nat → UInt8) (decoded : Int × MQTTTransport) : Readnb :=
  let (frc, trp) := decoded
  if frc = MQTTPACKET_READ_ERROR then ⟨-1, buf, { trp with state := 0 }⟩
  else if frc = 0 then ⟨0, buf, trp⟩
  else
    let encoded := mqttPacketEncode trp.rem_len
    let buf := Memory.store buf 1 encoded
    let trp := { trp with len := 1 + encoded.length }
    if trp.rem_len + trp.len > buflen then ⟨-1, buf, { trp with state := 0 }⟩
    else readnbBody buf { trp with state := 2 }

def readnbLength (buflen : Nat) (buf : Nat → UInt8) (trp : MQTTTransport) : Readnb :=
  readnbSize buflen buf (mqttPacketDecodenb trp)

def readnbHeader (buflen : Nat) (buf : Nat → UInt8) (trp : MQTTTransport) : Readnb :=
  let (frc, bytes, sck) := getfn trp.sck 1
  let buf := Memory.store buf 0 bytes
  let trp := { trp with sck := sck }
  if frc = -1 then ⟨-1, buf, { trp with state := 0 }⟩
  else if frc = 0 then ⟨0, buf, trp⟩
  else readnbLength buflen buf { trp with len := 0, state := 1 }

def mqttPacketReadnb (buflen : Nat) (buf : Nat → UInt8) (trp : MQTTTransport) : Readnb :=
  if trp.state = 2 then readnbBody buf trp
  else if trp.state = 1 then readnbLength buflen buf trp
  else readnbHeader buflen buf { trp with state := 0 }

-- The caller's loop: up to calls times, as long as it is told to call again.
def pollnb (buflen : Nat) : Nat → (Nat → UInt8) → MQTTTransport → Readnb
  | 0, buf, trp => ⟨0, buf, trp⟩
  | calls + 1, buf, trp =>
      let read := mqttPacketReadnb buflen buf trp
      if read.rc = 0 then pollnb buflen calls read.buf read.trp else read

def pollPackets (buflen calls : Nat) : Nat → (Nat → UInt8) → MQTTTransport → List Readnb
  | 0, _, _ => []
  | packets + 1, buf, trp =>
      let read := pollnb buflen calls buf trp
      read :: pollPackets buflen calls packets read.buf read.trp

-- The calls of getfn that find the bytes of the length field, up to its last one.
def Brings : Nat → List Nat → Prop
  | 0, answers => answers = []
  | _ + 1, [] => False
  | bytes + 1, 0 :: answers => Brings (bytes + 1) answers
  | bytes + 1, (_ + 1) :: answers => Brings bytes answers

-- The calls that find a body of this size.
def FillsBody : Nat → List Nat → Prop
  | _, [] => False
  | size, ready :: answers => if ready < size then FillsBody (size - ready) answers else answers = []

-- A packet and how it arrives: what the calls of getfn find before the first byte, in it, in the length and in the body.
structure PolledArrival (buflen : Nat) where
  packet : PaddedPacket buflen
  idle : Nat
  ready : Nat
  lengths : List Nat
  chunks : List Nat
  typed : headerType packet.header ≠ 0
  brings : Brings packet.field.length lengths
  fills : FillsBody packet.body.length chunks

variable {buflen : Nat}

def PolledArrival.answers (arrival : PolledArrival buflen) : List Nat :=
  List.replicate arrival.idle 0 ++ (arrival.ready + 1) :: (arrival.lengths ++ arrival.chunks)

-- There is a body, and getfn is called at most four times for the length.
def PolledArrival.Prompt (arrival : PolledArrival buflen) : Prop :=
  arrival.packet.body ≠ [] ∧ arrival.lengths.length ≤ MAX_NO_OF_REMAINING_LENGTH_BYTES

structure Received (packet : PaddedPacket buflen) (rest : Bytes) (read : Readnb) : Prop where
  returned : read.rc = headerType packet.header
  held : Memory.load read.buf 0 packet.canonical.wire.length = packet.canonical.wire
  consumed : read.trp.sck.stream = rest

def ReceivedInOrder : List (PaddedPacket buflen) → Bytes → List Readnb → Prop
  | [], _, reads => reads = []
  | packet :: packets, rest, reads => ∃ read later, reads = read :: later ∧
      Received packet (sentBytes packets ++ rest) read ∧ ReceivedInOrder packets rest later

-- What the caller's loop makes of a read that has returned.
def resume (buflen calls : Nat) (read : Readnb) : Readnb :=
  if read.rc = 0 then pollnb buflen calls read.buf read.trp else read

theorem pollnb_succ (calls : Nat) (buf : Nat → UInt8) (trp : MQTTTransport) :
    pollnb buflen (calls + 1) buf trp = resume buflen calls (mqttPacketReadnb buflen buf trp) := rfl

theorem ended_nonempty (field : Bytes) (ended : VarInt.Ended field) : field ≠ [] :=
  fun empty => by simp [empty, VarInt.Ended] at ended

theorem getfn_quiet (stream : Bytes) (answers : List (Option Nat)) (count : Nat) :
    getfn ⟨stream, some 0 :: answers⟩ count = (0, [], ⟨stream, answers⟩) := by
  simp [getfn]

theorem getfn_byte (byte : UInt8) (stream : Bytes) (ready : Nat) (answers : List (Option Nat)) :
    getfn ⟨byte :: stream, some (ready + 1) :: answers⟩ 1 = (1, [byte], ⟨stream, answers⟩) := by
  simp [getfn]

theorem decodenb_quiet (left : Nat) (trp : MQTTTransport) (stream : Bytes) (answers : List (Option Nat))
    (sck : trp.sck = ⟨stream, some 0 :: answers⟩) :
    decodenbLoop (left + 1) trp = (0, { trp with len := trp.len + 1, sck := ⟨stream, answers⟩ }) := by
  simp [decodenbLoop, sck, getfn_quiet]

def MQTTTransport.withDigit (trp : MQTTTransport) (byte : UInt8) (sck : PolledSocket) : MQTTTransport :=
  { trp with
    sck := sck, len := trp.len + 1, rem_len := trp.rem_len + VarInt.group byte * trp.multiplier,
    multiplier := trp.multiplier * 128 }

theorem decodenb_byte (left : Nat) (trp : MQTTTransport) (byte : UInt8) (stream : Bytes) (ready : Nat)
    (answers : List (Option Nat)) (sck : trp.sck = ⟨byte :: stream, some (ready + 1) :: answers⟩) :
    decodenbLoop (left + 1) trp =
      if VarInt.continues byte then decodenbLoop left (trp.withDigit byte ⟨stream, answers⟩)
      else (((trp.len + 1 : Nat) : Int), trp.withDigit byte ⟨stream, answers⟩) := by
  simp only [decodenbLoop, sck, getfn_byte, List.headD_cons, group_bits, continues_bit]
  rfl

-- The call that finds nothing ends; the next one goes on in the length with one try less.
theorem resume_quiet (left calls : Nat) (buf : Nat → UInt8) (trp : MQTTTransport) (stream : Bytes)
    (answers : List (Option Nat)) (state : trp.state = 1)
    (position : trp.len + (left + 1) = MAX_NO_OF_REMAINING_LENGTH_BYTES)
    (sck : trp.sck = ⟨stream, some 0 :: answers⟩) :
    resume buflen (calls + 1) (readnbSize buflen buf (decodenbLoop (left + 1) trp)) =
      resume buflen calls (readnbSize buflen buf (decodenbLoop left
        { trp with len := trp.len + 1, sck := ⟨stream, answers⟩ })) := by
  have tries : MAX_NO_OF_REMAINING_LENGTH_BYTES - (trp.len + 1) = left := by omega
  rw [decodenb_quiet left trp stream answers sck]
  simp only [readnbSize, resume, MQTTPACKET_READ_ERROR, pollnb_succ]
  simp [mqttPacketReadnb, readnbLength, readnbSize, mqttPacketDecodenb, state, tries, MQTTPACKET_READ_ERROR]

theorem size_in_time (lengths : List Nat) (field stream : Bytes) (later : List (Option Nat)) (left calls : Nat)
    (buf : Nat → UInt8) (trp : MQTTTransport) (ended : VarInt.Ended field) (brings : Brings field.length lengths)
    (state : trp.state = 1) (position : trp.len + left = MAX_NO_OF_REMAINING_LENGTH_BYTES)
    (sck : trp.sck = ⟨field ++ stream, lengths.map some ++ later⟩) (enough : lengths.length ≤ calls)
    (prompt : lengths.length ≤ left) :
    ∃ remaining read, calls ≤ remaining + lengths.length ∧ read.sck = ⟨stream, later⟩ ∧
      read.rem_len = trp.rem_len + VarInt.value field * trp.multiplier ∧ 0 < read.len ∧
      resume buflen calls (readnbSize buflen buf (decodenbLoop left trp)) =
        resume buflen remaining (readnbSize buflen buf (read.len, read)) := by
  induction lengths generalizing field left calls trp with
  | nil =>
      cases field with
      | nil => cases ended
      | cons byte field => cases brings
  | cons ready lengths ih =>
      obtain ⟨byte, field, rfl⟩ := List.exists_cons_of_ne_nil (ended_nonempty field ended)
      obtain ⟨left, rfl⟩ := Nat.exists_eq_succ_of_ne_zero (n := left) (fun none => by simp [none] at prompt)
      cases ready with
      | zero =>
          obtain ⟨calls, rfl⟩ := Nat.exists_eq_succ_of_ne_zero (n := calls) (fun none => by simp [none] at enough)
          rw [resume_quiet left calls buf trp _ _ state position sck]
          obtain ⟨remaining, read, spent, came, value, counted, same⟩ := ih (byte :: field) left calls
            { trp with len := trp.len + 1, sck := ⟨byte :: field ++ stream, lengths.map some ++ later⟩ } ended brings state
            (by simp only; omega) rfl (by simpa using enough) (by simpa using prompt)
          exact ⟨remaining, read, by simp only [List.length_cons]; omega, came, value, counted, same⟩
      | succ ready =>
          rw [decodenb_byte left trp byte (field ++ stream) ready (lengths.map some ++ later) sck]
          by_cases more : VarInt.continues byte = true
          · rw [if_pos more]
            rw [VarInt.Ended, if_pos more] at ended
            obtain ⟨remaining, read, spent, came, value, counted, same⟩ := ih field left calls
              (trp.withDigit byte ⟨field ++ stream, lengths.map some ++ later⟩) ended brings state
              (by simp only [MQTTTransport.withDigit]; omega) rfl (by simp only [List.length_cons] at enough; omega)
              (by simpa using prompt)
            refine ⟨remaining, read, by simp only [List.length_cons]; omega, came, ?_, counted, same⟩
            simp only [value, MQTTTransport.withDigit, VarInt.value]
            ring
          · rw [VarInt.Ended, if_neg more] at ended
            subst ended
            have last : lengths = [] := by simpa [Brings] using brings
            subst last
            rw [if_neg more]
            exact ⟨calls, trp.withDigit byte ⟨stream, later⟩, by simp, rfl,
              by simp [MQTTTransport.withDigit, VarInt.value], Nat.succ_pos _, rfl⟩

theorem size_late (lengths : List Nat) (field stream : Bytes) (later : List (Option Nat)) (left calls : Nat)
    (buf : Nat → UInt8) (trp : MQTTTransport) (ended : VarInt.Ended field) (brings : Brings field.length lengths)
    (state : trp.state = 1) (position : trp.len + left = MAX_NO_OF_REMAINING_LENGTH_BYTES)
    (sck : trp.sck = ⟨field ++ stream, lengths.map some ++ later⟩) (late : left < lengths.length) :
    (resume buflen calls (readnbSize buflen buf (decodenbLoop left trp))).rc ≤ 0 := by
  induction lengths generalizing field left calls trp with
  | nil => simp at late
  | cons ready lengths ih =>
      obtain ⟨byte, field, rfl⟩ := List.exists_cons_of_ne_nil (ended_nonempty field ended)
      cases left with
      | zero => simp [decodenbLoop, readnbSize, resume]
      | succ left =>
          cases ready with
          | zero =>
              cases calls with
              | zero => simp [decodenb_quiet left trp _ _ sck, readnbSize, resume, pollnb, MQTTPACKET_READ_ERROR]
              | succ calls =>
                  rw [resume_quiet left calls buf trp _ _ state position sck]
                  exact ih (byte :: field) left calls
                    { trp with len := trp.len + 1, sck := ⟨byte :: field ++ stream, lengths.map some ++ later⟩ } ended brings
                    state (by simp only; omega) rfl (by simpa using late)
          | succ ready =>
              rw [decodenb_byte left trp byte (field ++ stream) ready (lengths.map some ++ later) sck]
              by_cases more : VarInt.continues byte = true
              · rw [if_pos more]
                rw [VarInt.Ended, if_pos more] at ended
                exact ih field left calls (trp.withDigit byte ⟨field ++ stream, lengths.map some ++ later⟩) ended brings state
                  (by simp only [MQTTTransport.withDigit]; omega) rfl (by simpa using late)
              · rw [VarInt.Ended, if_neg more] at ended
                subst ended
                have last : lengths = [] := by simpa [Brings] using brings
                simp [last] at late

def MQTTTransport.withChunk (trp : MQTTTransport) (bytes : Bytes) (sck : PolledSocket) : MQTTTransport :=
  { trp with sck := sck, rem_len := trp.rem_len - bytes.length, len := trp.len + bytes.length }

theorem body_part (buf : Nat → UInt8) (trp : MQTTTransport) (bytes : Bytes) (sck : PolledSocket)
    (found : getfn trp.sck trp.rem_len = ((bytes.length : Int), bytes, sck)) (part : bytes.length < trp.rem_len) :
    readnbBody buf trp = ⟨0, Memory.store buf trp.len bytes, trp.withChunk bytes sck⟩ := by
  have missing : trp.rem_len - bytes.length ≠ 0 := by omega
  have counted : (bytes.length : Int) ≠ -1 := by omega
  simp only [readnbBody, found, if_neg counted, if_pos missing]
  split
  · rename_i nothing
    have empty : bytes = [] := List.length_eq_zero_iff.mp (by omega)
    subst empty
    rfl
  · rfl

theorem body_last (buf : Nat → UInt8) (trp : MQTTTransport) (bytes : Bytes) (sck : PolledSocket)
    (found : getfn trp.sck trp.rem_len = ((bytes.length : Int), bytes, sck)) (last : bytes.length = trp.rem_len)
    (positive : 0 < bytes.length) :
    readnbBody buf trp = ⟨headerType (Memory.store buf trp.len bytes 0), Memory.store buf trp.len bytes,
      { trp.withChunk bytes sck with state := 0 }⟩ := by
  have complete : ¬ trp.rem_len - bytes.length ≠ 0 := by omega
  have counted : (bytes.length : Int) ≠ -1 := by omega
  have something : (bytes.length : Int) ≠ 0 := by omega
  simp only [readnbBody, found, if_neg counted, if_neg something, if_neg complete]
  rfl

theorem getfn_body (body stream : Bytes) (ready : Nat) (answers : List (Option Nat)) (available : ready ≤ body.length) :
    getfn ⟨body ++ stream, some ready :: answers⟩ body.length =
      (((body.take ready).length : Int), body.take ready, ⟨body.drop ready ++ stream, answers⟩) := by
  simp only [getfn, Nat.min_eq_left available, List.take_append_of_le_length available,
    List.drop_append_of_le_length available]

theorem resume_body (calls : Nat) (buf : Nat → UInt8) (trp : MQTTTransport) (state : trp.state = 2) :
    resume buflen (calls + 1) ⟨0, buf, trp⟩ = resume buflen calls (readnbBody buf trp) := by
  have continued : mqttPacketReadnb buflen buf trp = readnbBody buf trp := if_pos state
  rw [← continued]
  rfl

-- Inside the body each call stores what it finds behind the bytes before.
theorem body_filled (chunks : List Nat) (body stream : Bytes) (later : List (Option Nat)) (calls : Nat)
    (buf : Nat → UInt8) (trp : MQTTTransport) (nonempty : body ≠ []) (fills : FillsBody body.length chunks)
    (state : trp.state = 2) (left : trp.rem_len = body.length)
    (sck : trp.sck = ⟨body ++ stream, chunks.map some ++ later⟩) (enough : chunks.length ≤ calls + 1)
    (typed : headerType (Memory.store buf trp.len body 0) ≠ 0) :
    ∃ trp', resume buflen calls (readnbBody buf trp) =
        ⟨headerType (Memory.store buf trp.len body 0), Memory.store buf trp.len body, trp'⟩ ∧
      trp'.state = 0 ∧ trp'.sck = ⟨stream, later⟩ := by
  induction chunks generalizing body calls buf trp with
  | nil => cases fills
  | cons ready chunks ih =>
      have positive := List.length_pos_iff.mpr nonempty
      by_cases short : ready < body.length
      · rw [FillsBody, if_pos short] at fills
        have more : chunks ≠ [] := fun none => by simp [none, FillsBody] at fills
        obtain ⟨calls, rfl⟩ := Nat.exists_eq_succ_of_ne_zero (n := calls) (fun none => by
          simp [none] at enough
          exact more enough)
        have split : body.take ready ++ body.drop ready = body := List.take_append_drop ready body
        have took : (body.take ready).length = ready := by rw [List.length_take]; omega
        have stored : Memory.store (Memory.store buf trp.len (body.take ready)) (trp.len + ready) (body.drop ready) =
            Memory.store buf trp.len body := by
          rw [← split, Memory.store_append, took, split]
        have found : getfn trp.sck trp.rem_len = (((body.take ready).length : Int), body.take ready,
            ⟨body.drop ready ++ stream, chunks.map some ++ later⟩) := by
          rw [sck, left]
          exact getfn_body body stream ready (chunks.map some ++ later) (Nat.le_of_lt short)
        rw [body_part buf trp _ _ found (by omega), resume_body calls (Memory.store buf trp.len (body.take ready))
          (trp.withChunk (body.take ready) ⟨body.drop ready ++ stream, chunks.map some ++ later⟩) state]
        have position : (trp.withChunk (body.take ready) ⟨body.drop ready ++ stream, chunks.map some ++ later⟩).len =
            trp.len + ready := congrArg (trp.len + ·) took
        obtain ⟨trp', same, idle, behind⟩ := ih (body.drop ready) calls (Memory.store buf trp.len (body.take ready))
          (trp.withChunk (body.take ready) ⟨body.drop ready ++ stream, chunks.map some ++ later⟩)
          (List.ne_nil_of_length_pos (by rw [List.length_drop]; omega)) (by rwa [List.length_drop]) state
          (by simp only [MQTTTransport.withChunk, took, List.length_drop, left]) rfl
          (by simp only [List.length_cons] at enough; omega) (by rwa [position, stored])
        rw [position, stored] at same
        exact ⟨trp', same, idle, behind⟩
      · rw [FillsBody, if_neg short] at fills
        subst fills
        have found : getfn trp.sck trp.rem_len = ((body.length : Int), body, ⟨stream, later⟩) := by
          rw [sck, left]
          simp [getfn, Nat.min_eq_right (Nat.le_of_not_lt short)]
        rw [body_last buf trp body _ found left.symm positive]
        refine ⟨{ trp.withChunk body ⟨stream, later⟩ with state := 0 }, if_neg ?_, rfl, rfl⟩
        exact fun zero => typed (Int.ofNat_eq_zero.mp zero)

theorem idle_polls (idle calls : Nat) (buf : Nat → UInt8) (trp : MQTTTransport) (stream : Bytes)
    (answers : List (Option Nat)) (fresh : trp.state = 0)
    (sck : trp.sck = ⟨stream, List.replicate idle (some 0) ++ answers⟩) :
    pollnb buflen (calls + idle) buf trp = pollnb buflen calls buf { trp with sck := ⟨stream, answers⟩ } := by
  induction idle generalizing trp with
  | zero =>
      simp only [List.replicate_zero, List.nil_append] at sck
      simp only [← sck, Nat.add_zero]
  | succ idle ih =>
      have nothing : mqttPacketReadnb buflen buf trp =
          ⟨0, buf, { trp with sck := ⟨stream, List.replicate idle (some 0) ++ answers⟩, state := 0 }⟩ := by
        simp [mqttPacketReadnb, readnbHeader, fresh, sck, List.replicate_succ, getfn_quiet, Memory.store]
      rw [← Nat.add_assoc, pollnb_succ, nothing]
      have later := ih { trp with sck := ⟨stream, List.replicate idle (some 0) ++ answers⟩, state := 0 } rfl rfl
      rw [resume, if_pos rfl, later, ← fresh]

theorem header_read (buf : Nat → UInt8) (trp : MQTTTransport) (header : UInt8) (stream : Bytes) (ready : Nat)
    (answers : List (Option Nat)) (fresh : trp.state = 0) (sck : trp.sck = ⟨header :: stream, some (ready + 1) :: answers⟩) :
    mqttPacketReadnb buflen buf trp = readnbSize buflen (Memory.store buf 0 [header])
      (decodenbLoop MAX_NO_OF_REMAINING_LENGTH_BYTES ⟨⟨stream, answers⟩, 1, 0, 0, 1⟩) := by
  simp [mqttPacketReadnb, readnbHeader, readnbLength, mqttPacketDecodenb, fresh, sck, getfn_byte]

-- The buffer once the whole packet is in it.
def packetStored (packet : PaddedPacket buflen) (buf : Nat → UInt8) : Nat → UInt8 :=
  Memory.store (Memory.store (Memory.store buf 0 [packet.header]) 1 (VarInt.encode packet.body.length))
    (1 + (VarInt.encode packet.body.length).length) packet.body

theorem packet_stored_type (packet : PaddedPacket buflen) (buf : Nat → UInt8) :
    headerType (packetStored packet buf 0) = headerType packet.header := by
  rw [packetStored, Memory.store_outside _ _ _ _ (by omega), Memory.store_outside _ _ _ _ (by omega)]
  rfl

theorem packet_stored_wire (packet : PaddedPacket buflen) (buf : Nat → UInt8) :
    Memory.load (packetStored packet buf) 0 packet.canonical.wire.length = packet.canonical.wire := by
  have whole : packetStored packet buf = Memory.store buf 0 packet.canonical.wire := by
    have parts : packet.canonical.wire = [packet.header] ++ (VarInt.encode packet.body.length ++ packet.body) := rfl
    rw [parts, Memory.store_append, Memory.store_append]
    rfl
  rw [whole, Memory.load_store]

-- The size is known and fits, so that the call goes on into the body.
theorem size_fits (packet : PaddedPacket buflen) (buf : Nat → UInt8) (trp : MQTTTransport) (positive : 0 < trp.len)
    (left : trp.rem_len = packet.body.length) :
    readnbSize buflen buf (trp.len, trp) = readnbBody (Memory.store buf 1 (VarInt.encode packet.body.length))
      { trp with len := 1 + (VarInt.encode packet.body.length).length, state := 2 } := by
  have fits := packet.fits
  have counted : (trp.len : Int) ≠ MQTTPACKET_READ_ERROR := by simp only [MQTTPACKET_READ_ERROR]; omega
  have something : (trp.len : Int) ≠ 0 := by omega
  simp only [readnbSize, if_neg counted, if_neg something, mqtt_packet_encode_refines, left]
  exact if_neg (by omega)

theorem sent_split (packet : PaddedPacket buflen) (rest : Bytes) :
    packet.sent ++ rest = packet.header :: (packet.field ++ (packet.body ++ rest)) := by
  simp [PaddedPacket.sent]

-- The loop has the first byte and goes on with the length.
theorem arrival_begins (arrival : PolledArrival buflen) (rest : Bytes) (later : List (Option Nat)) (calls : Nat)
    (buf : Nat → UInt8) (trp : MQTTTransport) (fresh : trp.state = 0)
    (sck : trp.sck = ⟨arrival.packet.sent ++ rest, arrival.answers.map some ++ later⟩) :
    pollnb buflen (calls + 1 + arrival.idle) buf trp =
      resume buflen calls (readnbSize buflen (Memory.store buf 0 [arrival.packet.header])
        (decodenbLoop MAX_NO_OF_REMAINING_LENGTH_BYTES ⟨⟨arrival.packet.field ++ (arrival.packet.body ++ rest),
          arrival.lengths.map some ++ (arrival.chunks.map some ++ later)⟩, 1, 0, 0, 1⟩)) := by
  rw [idle_polls arrival.idle (calls + 1) buf trp (arrival.packet.sent ++ rest)
    (some (arrival.ready + 1) :: (arrival.lengths.map some ++ (arrival.chunks.map some ++ later))) fresh
    (by simp [sck, PolledArrival.answers]), pollnb_succ]
  rw [header_read buf { trp with sck := ⟨arrival.packet.sent ++ rest, some (arrival.ready + 1) ::
      (arrival.lengths.map some ++ (arrival.chunks.map some ++ later))⟩ } arrival.packet.header
    (arrival.packet.field ++ (arrival.packet.body ++ rest)) arrival.ready
    (arrival.lengths.map some ++ (arrival.chunks.map some ++ later)) fresh (by rw [sent_split])]

theorem prompt_received (arrival : PolledArrival buflen) (rest : Bytes) (later : List (Option Nat)) (calls : Nat)
    (buf : Nat → UInt8) (trp : MQTTTransport) (prompt : arrival.Prompt) (fresh : trp.state = 0)
    (sck : trp.sck = ⟨arrival.packet.sent ++ rest, arrival.answers.map some ++ later⟩)
    (enough : arrival.answers.length ≤ calls) :
    Received arrival.packet rest (pollnb buflen calls buf trp) ∧ (pollnb buflen calls buf trp).trp.state = 0 ∧
      (pollnb buflen calls buf trp).trp.sck = ⟨rest, later⟩ := by
  have length : arrival.answers.length = arrival.lengths.length + arrival.chunks.length + 1 + arrival.idle := by
    simp only [PolledArrival.answers, List.length_append, List.length_replicate, List.length_cons]
    omega
  obtain ⟨spare, rfl⟩ := Nat.exists_eq_add_of_le enough
  have began := arrival_begins arrival rest later (arrival.lengths.length + arrival.chunks.length + spare) buf trp fresh sck
  obtain ⟨remaining, read, spent, came, value, counted, sized⟩ := size_in_time arrival.lengths arrival.packet.field
    (arrival.packet.body ++ rest) (arrival.chunks.map some ++ later) MAX_NO_OF_REMAINING_LENGTH_BYTES
    (arrival.lengths.length + arrival.chunks.length + spare) (Memory.store buf 0 [arrival.packet.header])
    ⟨⟨arrival.packet.field ++ (arrival.packet.body ++ rest),
      arrival.lengths.map some ++ (arrival.chunks.map some ++ later)⟩, 1, 0, 0, 1⟩
    arrival.packet.ended arrival.brings rfl rfl rfl (by omega) prompt.2
  have size : read.rem_len = arrival.packet.body.length := by
    rw [value, arrival.packet.announces]
    simp
  obtain ⟨trp', filled, idle, behind⟩ := body_filled arrival.chunks arrival.packet.body rest later remaining
    (Memory.store (Memory.store buf 0 [arrival.packet.header]) 1 (VarInt.encode arrival.packet.body.length))
    { read with len := 1 + (VarInt.encode arrival.packet.body.length).length, state := 2 } prompt.1 arrival.fills rfl size
    came (by omega) (by
      have type := packet_stored_type arrival.packet buf
      rw [packetStored] at type
      rw [type]
      exact arrival.typed)
  have result : pollnb buflen (arrival.answers.length + spare) buf trp =
      ⟨headerType arrival.packet.header, packetStored arrival.packet buf, trp'⟩ := by
    rw [← packet_stored_type arrival.packet buf, packetStored, ← filled,
      ← size_fits arrival.packet _ read counted size, ← sized, ← began]
    congr 1
    omega
  rw [result]
  exact ⟨⟨rfl, packet_stored_wire arrival.packet buf, congrArg PolledSocket.stream behind⟩, idle, behind⟩

-- A body of no bytes is asked for with a count of 0, which any getfn answers with 0: call again.
theorem empty_body_stuck (calls : Nat) (buf : Nat → UInt8) (trp : MQTTTransport) (state : trp.state = 2)
    (left : trp.rem_len = 0) : (resume buflen calls (readnbBody buf trp)).rc ≤ 0 := by
  induction calls generalizing buf trp with
  | zero =>
      have nothing : (readnbBody buf trp).rc ≤ 0 := by
        simp only [readnbBody, getfn, left, Nat.min_zero]
        split <;> simp
      simp only [resume, pollnb]
      split
      · exact Int.le_refl 0
      · exact nothing
  | succ calls ih =>
      cases answers : trp.sck.answers with
      | nil =>
          have quiet : readnbBody buf trp = ⟨0, buf, trp⟩ := by
            simp [readnbBody, getfn, left, answers, Memory.store]
            rw [← left]
          rw [quiet, resume_body calls buf trp state]
          exact ih buf trp state left
      | cons answer answers' =>
          cases answer with
          | none => simp [readnbBody, getfn, left, answers, resume]
          | some ready =>
              have quiet : readnbBody buf trp = ⟨0, buf, { trp with sck := ⟨trp.sck.stream, answers'⟩ }⟩ := by
                simp [readnbBody, getfn, left, answers, Memory.store]
              rw [quiet, resume_body calls buf { trp with sck := ⟨trp.sck.stream, answers'⟩ } state]
              exact ih buf { trp with sck := ⟨trp.sck.stream, answers'⟩ } state left

theorem late_refused (arrival : PolledArrival buflen) (rest : Bytes) (later : List (Option Nat)) (calls : Nat)
    (buf : Nat → UInt8) (trp : MQTTTransport) (late : ¬ arrival.Prompt) (fresh : trp.state = 0)
    (sck : trp.sck = ⟨arrival.packet.sent ++ rest, arrival.answers.map some ++ later⟩)
    (enough : arrival.answers.length ≤ calls) : (pollnb buflen calls buf trp).rc ≤ 0 := by
  obtain ⟨spare, rfl⟩ := Nat.exists_eq_add_of_le enough
  have began := arrival_begins arrival rest later (arrival.lengths.length + arrival.chunks.length + spare) buf trp fresh sck
  have total : arrival.lengths.length + arrival.chunks.length + spare + 1 + arrival.idle =
      arrival.answers.length + spare := by
    simp only [PolledArrival.answers, List.length_append, List.length_replicate, List.length_cons]
    omega
  rw [total] at began
  rw [began]
  by_cases inTime : arrival.lengths.length ≤ MAX_NO_OF_REMAINING_LENGTH_BYTES
  · have empty : arrival.packet.body = [] := by
      by_contra nonempty
      exact late ⟨nonempty, inTime⟩
    obtain ⟨remaining, read, spent, came, value, counted, sized⟩ := size_in_time arrival.lengths arrival.packet.field
      (arrival.packet.body ++ rest) (arrival.chunks.map some ++ later) MAX_NO_OF_REMAINING_LENGTH_BYTES
      (arrival.lengths.length + arrival.chunks.length + spare) (Memory.store buf 0 [arrival.packet.header])
      ⟨⟨arrival.packet.field ++ (arrival.packet.body ++ rest),
        arrival.lengths.map some ++ (arrival.chunks.map some ++ later)⟩, 1, 0, 0, 1⟩
      arrival.packet.ended arrival.brings rfl rfl rfl (by omega) inTime
    have size : read.rem_len = arrival.packet.body.length := by
      rw [value, arrival.packet.announces]
      simp
    rw [sized, size_fits arrival.packet _ read counted size]
    refine empty_body_stuck remaining _ _ rfl ?_
    simp only [size, empty, List.length_nil]
  · exact size_late arrival.lengths arrival.packet.field (arrival.packet.body ++ rest) (arrival.chunks.map some ++ later)
      MAX_NO_OF_REMAINING_LENGTH_BYTES _ _ _ arrival.packet.ended arrival.brings rfl rfl rfl (Nat.lt_of_not_le inTime)

-- Packets are received whatever the parts they arrive in, unless they have no body or their length takes a fifth call.
theorem readnb_in_order_iff (arrivals : List (PolledArrival buflen)) (rest : Bytes) (later : List (Option Nat)) (calls : Nat)
    (buf : Nat → UInt8) (trp : MQTTTransport) (fresh : trp.state = 0)
    (sck : trp.sck = ⟨sentBytes (arrivals.map PolledArrival.packet) ++ rest,
      (arrivals.flatMap PolledArrival.answers).map some ++ later⟩)
    (enough : ∀ arrival ∈ arrivals, arrival.answers.length ≤ calls) :
    ReceivedInOrder (arrivals.map PolledArrival.packet) rest (pollPackets buflen calls arrivals.length buf trp) ↔
      ∀ arrival ∈ arrivals, arrival.Prompt := by
  induction arrivals generalizing buf trp with
  | nil => simp [ReceivedInOrder, pollPackets]
  | cons arrival arrivals ih =>
      have first : trp.sck = ⟨arrival.packet.sent ++ (sentBytes (arrivals.map PolledArrival.packet) ++ rest),
          arrival.answers.map some ++ ((arrivals.flatMap PolledArrival.answers).map some ++ later)⟩ := by
        simp [sck, sentBytes]
      have budget := enough arrival List.mem_cons_self
      simp only [List.map_cons, ReceivedInOrder, List.length_cons, pollPackets, List.forall_mem_cons]
      by_cases prompt : arrival.Prompt
      · obtain ⟨received, idle, behind⟩ := prompt_received arrival _ _ calls buf trp prompt fresh first budget
        have others := ih (pollnb buflen calls buf trp).buf (pollnb buflen calls buf trp).trp idle behind
          (fun other member => enough other (List.mem_cons_of_mem _ member))
        constructor
        · rintro ⟨read, reads, same, -, inOrder⟩
          obtain ⟨-, rfl⟩ := List.cons.inj same
          exact ⟨prompt, others.mp inOrder⟩
        · rintro ⟨-, later⟩
          exact ⟨_, _, rfl, received, others.mpr later⟩
      · have refused := late_refused arrival _ _ calls buf trp prompt fresh first budget
        constructor
        · rintro ⟨read, reads, same, received, -⟩
          obtain ⟨rfl, -⟩ := List.cons.inj same
          have returned := received.returned
          have typed := arrival.typed
          omega
        · rintro ⟨held, -⟩
          exact absurd held prompt

-- A SUBACK whose length is asked for three times and whose body comes in two parts.
def slowSuback : PolledArrival 16 where
  packet := ⟨0x90, [3], [0, 1, 0], by simp [VarInt.Ended, VarInt.continues], by decide, by decide, by decide⟩
  idle := 2
  ready := 0
  lengths := [0, 0, 1]
  chunks := [2, 0, 5]
  typed := by decide
  brings := rfl
  fills := by simp [FillsBody]

theorem slow_suback_received : ReceivedInOrder [slowSuback.packet] []
    (pollPackets 16 9 1 (fun _ => 0) ⟨⟨[0x90, 3, 0, 1, 0], slowSuback.answers.map some⟩, 0, 0, 0, 0⟩) :=
  (readnb_in_order_iff [slowSuback] [] [] 9 (fun _ => 0) ⟨⟨[0x90, 3, 0, 1, 0], slowSuback.answers.map some⟩, 0, 0, 0, 0⟩
    rfl rfl (by decide)).mpr (by simp [PolledArrival.Prompt, slowSuback, MAX_NO_OF_REMAINING_LENGTH_BYTES])

-- The caller may go on after any result.
def readnbCalls (buflen : Nat) : Nat → (Nat → UInt8) → MQTTTransport → (Nat → UInt8) × MQTTTransport
  | 0, buf, trp => (buf, trp)
  | calls + 1, buf, trp =>
      let read := mqttPacketReadnb buflen buf trp
      readnbCalls buflen calls read.buf read.trp

-- The size so far has at most as many digits as tries were made.
structure Counted (trp : MQTTTransport) : Prop where
  below : trp.rem_len < trp.multiplier
  digits : trp.multiplier ≤ 128 ^ trp.len
  tries : trp.len ≤ MAX_NO_OF_REMAINING_LENGTH_BYTES

structure TransportWithin (buflen : Nat) (trp : MQTTTransport) : Prop where
  length : trp.state = 1 → Counted trp
  body : trp.state = 2 → trp.len + trp.rem_len ≤ buflen

structure KeptWithin (buflen : Nat) (buf : Nat → UInt8) (read : Readnb) : Prop where
  within : TransportWithin buflen read.trp
  outside : ∀ i, max buflen (1 + MAX_NO_OF_REMAINING_LENGTH_BYTES) ≤ i → read.buf i = buf i

theorem getfn_found_le (sck : PolledSocket) (count : Nat) : (getfn sck count).2.1.length ≤ count := by
  unfold getfn
  split <;> simp only [List.length_nil, List.length_take] <;> omega

theorem reset_within (trp : MQTTTransport) (reset : trp.state = 0) : TransportWithin buflen trp :=
  ⟨fun one => absurd (reset.symm.trans one) (by decide), fun two => absurd (reset.symm.trans two) (by decide)⟩

theorem decodenb_loop_counted (left : Nat) (trp : MQTTTransport) (counted : Counted trp)
    (position : trp.len + left = MAX_NO_OF_REMAINING_LENGTH_BYTES) :
    (decodenbLoop left trp).1 = MQTTPACKET_READ_ERROR ∨
      Counted (decodenbLoop left trp).2 ∧ (decodenbLoop left trp).2.state = trp.state := by
  induction left generalizing trp with
  | zero => exact .inl rfl
  | succ left ih =>
      have wider : 128 ^ trp.len ≤ 128 ^ (trp.len + 1) := Nat.pow_le_pow_right (by decide) (Nat.le_succ _)
      have tries : trp.len + 1 ≤ MAX_NO_OF_REMAINING_LENGTH_BYTES := by omega
      simp only [decodenbLoop, group_bits, continues_bit]
      split
      · exact .inl rfl
      · split
        · exact .inr ⟨⟨counted.below, Nat.le_trans counted.digits wider, tries⟩, rfl⟩
        · have digit : VarInt.group ((getfn trp.sck 1).2.1.headD 0) < 128 := Nat.mod_lt _ (by decide)
          have next : Counted (trp.withDigit ((getfn trp.sck 1).2.1.headD 0) (getfn trp.sck 1).2.2) := by
            refine ⟨?_, ?_, tries⟩
            · have product := Nat.mul_le_mul_right trp.multiplier (Nat.le_of_lt_succ digit)
              have below := counted.below
              simp only [MQTTTransport.withDigit]
              omega
            · have digits := counted.digits
              simp only [MQTTTransport.withDigit, Nat.pow_succ]
              omega
          split
          · exact ih (trp.withDigit _ _) next (by simp only [MQTTTransport.withDigit]; omega)
          · exact .inr ⟨next, rfl⟩

theorem body_kept (buf : Nat → UInt8) (trp : MQTTTransport) (state : trp.state = 2)
    (fits : trp.len + trp.rem_len ≤ buflen) : KeptWithin buflen buf (readnbBody buf trp) := by
  have found := getfn_found_le trp.sck trp.rem_len
  have outside : ∀ i, max buflen (1 + MAX_NO_OF_REMAINING_LENGTH_BYTES) ≤ i →
      Memory.store buf trp.len (getfn trp.sck trp.rem_len).2.1 i = buf i := fun i high =>
    Memory.store_outside _ _ _ _ (.inr (by omega))
  simp only [readnbBody]
  split
  · exact ⟨reset_within _ rfl, outside⟩
  · split
    · exact ⟨⟨fun one => absurd (state.symm.trans one) (by decide), fun _ => fits⟩, outside⟩
    · split
      · refine ⟨⟨fun one => absurd (state.symm.trans one) (by decide), fun _ => ?_⟩, outside⟩
        simp only
        omega
      · exact ⟨reset_within _ rfl, outside⟩

theorem length_kept (buf : Nat → UInt8) (trp : MQTTTransport) (state : trp.state = 1)
    (counted : trp.len = 0 ∨ Counted trp) : KeptWithin buflen buf (readnbLength buflen buf trp) := by
  have decoded : (mqttPacketDecodenb trp).1 = MQTTPACKET_READ_ERROR ∨
      Counted (mqttPacketDecodenb trp).2 ∧ (mqttPacketDecodenb trp).2.state = 1 := by
    rw [← state, mqttPacketDecodenb]
    split
    · rename_i first
      have initial : Counted { trp with multiplier := 1, rem_len := 0 } :=
        ⟨Nat.zero_lt_one, Nat.one_le_pow _ _ (by decide), by simp only [first]; decide⟩
      exact decodenb_loop_counted _ _ initial (by simp only [first]; decide)
    · rename_i again
      have before := counted.resolve_left again
      exact decodenb_loop_counted _ trp before (Nat.add_sub_cancel' before.tries)
  unfold readnbLength readnbSize
  generalize mqttPacketDecodenb trp = result at decoded
  obtain ⟨frc, read⟩ := result
  simp only at decoded ⊢
  split
  · exact ⟨reset_within _ rfl, fun _ _ => rfl⟩
  · rename_i valid
    obtain ⟨known, phase⟩ := decoded.resolve_left valid
    split
    · exact ⟨⟨fun _ => known, fun two => absurd (phase.symm.trans two) (by decide)⟩, fun _ _ => rfl⟩
    · have small : read.rem_len < 128 ^ 4 := Nat.lt_of_lt_of_le known.below
        (Nat.le_trans known.digits (Nat.pow_le_pow_right (by decide) known.tries))
      have encoded : (mqttPacketEncode read.rem_len).length ≤ MAX_NO_OF_REMAINING_LENGTH_BYTES := by
        rw [mqtt_packet_encode_refines]
        exact VarInt.encode_length_le 3 _ small
      have outside : ∀ i, max buflen (1 + MAX_NO_OF_REMAINING_LENGTH_BYTES) ≤ i →
          Memory.store buf 1 (mqttPacketEncode read.rem_len) i = buf i := fun i high =>
        Memory.store_outside _ _ _ _ (.inr (by omega))
      split
      · exact ⟨reset_within _ rfl, outside⟩
      · rename_i fits
        have kept : KeptWithin buflen _ _ := body_kept (Memory.store buf 1 (mqttPacketEncode read.rem_len))
          { read with len := 1 + (mqttPacketEncode read.rem_len).length, state := 2 } rfl (by simp only; omega)
        exact ⟨kept.within, fun i high => (kept.outside i high).trans (outside i high)⟩

theorem readnb_kept (buf : Nat → UInt8) (trp : MQTTTransport) (within : TransportWithin buflen trp) :
    KeptWithin buflen buf (mqttPacketReadnb buflen buf trp) := by
  unfold mqttPacketReadnb
  split
  · rename_i state
    exact body_kept buf trp state (within.body state)
  · split
    · rename_i state
      exact length_kept buf trp state (.inr (within.length state))
    · have found := getfn_found_le trp.sck 1
      have outside : ∀ i, max buflen (1 + MAX_NO_OF_REMAINING_LENGTH_BYTES) ≤ i →
          Memory.store buf 0 (getfn trp.sck 1).2.1 i = buf i := fun i high => Memory.store_outside _ _ _ _ (.inr (by omega))
      simp only [readnbHeader]
      split
      · exact ⟨reset_within _ rfl, outside⟩
      · split
        · exact ⟨reset_within _ rfl, outside⟩
        · have kept : KeptWithin buflen _ _ := length_kept (Memory.store buf 0 (getfn trp.sck 1).2.1)
            { trp with sck := (getfn trp.sck 1).2.2, len := 0, state := 1 } rfl (.inl rfl)
          exact ⟨kept.within, fun i high => (kept.outside i high).trans (outside i high)⟩

-- Whatever arrives and however often the caller goes on, also after errors.
theorem readnb_writes_inside (calls : Nat) (buf : Nat → UInt8) (trp : MQTTTransport)
    (within : TransportWithin buflen trp) (i : Nat) (high : max buflen (1 + MAX_NO_OF_REMAINING_LENGTH_BYTES) ≤ i) :
    (readnbCalls buflen calls buf trp).1 i = buf i := by
  induction calls generalizing buf trp with
  | zero => rfl
  | succ calls ih =>
      have kept := readnb_kept buf trp within
      exact (ih _ _ kept.within).trans (kept.outside i high)

theorem sixteen_bytes_written_inside :
    (readnbCalls 16 7 (fun _ => 0) ⟨⟨[0x90, 0x80], [some 2, none, some 1]⟩, 0, 0, 0, 0⟩).1 16 = 0 :=
  readnb_writes_inside 7 (fun _ => 0) ⟨⟨[0x90, 0x80], [some 2, none, some 1]⟩, 0, 0, 0, 0⟩ (reset_within _ rfl) 16
    (by decide)

end Aliot
