import Aliot.Loop
import Aliot.ReadPacket

set_option autoImplicit false

namespace Aliot

inductive Errno where
  | ENOTCONN
  | ECONNRESET
  | other (code : Nat)
deriving DecidableEq

inductive RecvResult where
  | received (bytes : Bytes)
  | error (errno : Errno)

-- What a recv finds before the peer is gone: some bytes or an error.
inductive SocketInput where
  | data (first : UInt8) (more : Bytes)
  | error (errno : Errno)
deriving DecidableEq

-- How recv goes on once the peer is gone: it returns 0, or -1 with one of two errnos.
inductive Gone where
  | closed
  | notConnected
  | reset
deriving DecidableEq

structure Socket where
  arrivals : List SocketInput
  gone : Gone

def Gone.result : Gone → RecvResult
  | .closed => .received []
  | .notConnected => .error .ENOTCONN
  | .reset => .error .ECONNRESET

-- Bytes that were not asked for stay for the next recv.
def requeue : Bytes → List SocketInput → List SocketInput
  | [], arrivals => arrivals
  | first :: more, arrivals => .data first more :: arrivals

def recv (socket : Socket) (len : Nat) : RecvResult × Socket :=
  match socket.arrivals with
  | [] => (socket.gone.result, socket)
  | .error errno :: arrivals => (.error errno, ⟨arrivals, socket.gone⟩)
  | .data first more :: arrivals =>
      (.received ((first :: more).take len), ⟨requeue ((first :: more).drop len) arrivals, socket.gone⟩)

-- `broken` is bytes = -1 with the break.
structure Reading where
  socket : Socket
  buffer : Bytes
  broken : Bool

def recvStep (len : Int) (r : Reading) : Option Reading :=
  if r.broken = false ∧ (r.buffer.length : Int) < len then
    match recv r.socket (len - r.buffer.length).toNat with
    | (.error errno, socket) => some ⟨socket, r.buffer, errno ≠ .ENOTCONN ∧ errno ≠ .ECONNRESET⟩
    | (.received bytes, socket) => some ⟨socket, r.buffer ++ bytes, false⟩
  else none

def Reading.result (r : Reading) : Int := if r.broken then -1 else r.buffer.length

def linuxRead (socket : Socket) (len : Int) (fuel : Nat) : Option Reading :=
  Loop.run (recvStep len) fuel ⟨socket, [], false⟩

def SocketInput.bytes : SocketInput → Bytes
  | .data first more => first :: more
  | .error _ => []

def arrivingBytes (arrivals : List SocketInput) : Bytes := arrivals.flatMap SocketInput.bytes

def breaks : SocketInput → Bool
  | .error (.other _) => true
  | _ => false

-- The call returns, with an error or fewer bytes than asked for unless they have all arrived.
def EndReported (socket : Socket) (len : Int) : Prop :=
  ∃ fuel final, linuxRead socket len fuel = some final ∧
    (final.result < len ∨ len ≤ (arrivingBytes socket.arrivals).length)

-- Enough bytes before the end, or an error that leaves the loop.
def BreaksOrFills (socket : Socket) (len : Int) : Prop :=
  len ≤ (arrivingBytes socket.arrivals).length ∨ ∃ arrival ∈ socket.arrivals, breaks arrival = true

theorem requeue_bytes (bytes : Bytes) (arrivals : List SocketInput) :
    arrivingBytes (requeue bytes arrivals) = bytes ++ arrivingBytes arrivals := by
  cases bytes <;> rfl

theorem requeue_breaks (bytes : Bytes) (arrivals : List SocketInput) :
    (∃ arrival ∈ requeue bytes arrivals, breaks arrival = true) ↔ ∃ arrival ∈ arrivals, breaks arrival = true := by
  cases bytes with
  | nil => rfl
  | cons first more => simp [requeue, breaks]

-- What one pass can do while bytes are outstanding.
theorem recv_step_cases (len : Int) (r : Reading) (running : r.broken = false) (outstanding : (r.buffer.length : Int) < len) :
    (r.socket.arrivals = [] ∧ recvStep len r = some r) ∨
    (∃ errno arrivals, r.socket.arrivals = .error errno :: arrivals ∧
      recvStep len r = some ⟨⟨arrivals, r.socket.gone⟩, r.buffer, breaks (.error errno)⟩) ∨
    ∃ first more arrivals, ∃ asked : Nat, r.socket.arrivals = .data first more :: arrivals ∧
      (asked : Int) = len - r.buffer.length ∧ recvStep len r =
        some ⟨⟨requeue ((first :: more).drop asked) arrivals, r.socket.gone⟩, r.buffer ++ (first :: more).take asked, false⟩ := by
  obtain ⟨⟨arrivals, gone⟩, buffer, broken⟩ := r
  obtain rfl : broken = false := running
  have asked : ((len - buffer.length).toNat : Int) = len - buffer.length := Int.toNat_of_nonneg (by simp only at outstanding; omega)
  simp only [recvStep, outstanding, and_self, if_true, recv]
  cases arrivals with
  | nil =>
      refine .inl ⟨rfl, ?_⟩
      cases gone <;> simp [Gone.result]
  | cons arrival arrivals =>
      refine .inr ?_
      cases arrival with
      | error errno =>
          refine .inl ⟨errno, arrivals, rfl, ?_⟩
          cases errno <;> simp [breaks]
      | data first more => exact .inr ⟨first, more, arrivals, _, rfl, asked, rfl⟩

theorem recv_step_ended (len : Int) (r : Reading) (ended : recvStep len r = none) : r.broken = true ∨ len ≤ r.buffer.length := by
  by_contra running
  simp only [not_or, Bool.not_eq_true, Int.not_le] at running
  rcases recv_step_cases len r running.1 running.2 with ⟨_, taken⟩ | ⟨_, _, _, taken⟩ | ⟨_, _, _, _, _, _, taken⟩ <;>
    exact absurd (taken.symm.trans ended) (Option.some_ne_none _)

theorem recv_step_running (len : Int) (r next : Reading) (taken : recvStep len r = some next) :
    r.broken = false ∧ (r.buffer.length : Int) < len := by
  unfold recvStep at taken
  split at taken
  · rename_i running
    exact running
  · cases taken

-- No byte is lost, and the loop cannot come to the end of the arrivals with bytes outstanding.
structure Receiving (len : Int) (stream : Bytes) (r : Reading) : Prop where
  whole : r.buffer ++ arrivingBytes r.socket.arrivals = stream
  asked : r.broken = false → r.buffer.length ≤ max 0 len
  short : r.broken = true → r.buffer.length < len

theorem receiving_step (len : Int) (stream : Bytes) (r next : Reading) (inv : Receiving len stream r)
    (taken : recvStep len r = some next) : Receiving len stream next := by
  obtain ⟨running, outstanding⟩ := recv_step_running len r next taken
  have whole := inv.whole
  rcases recv_step_cases len r running outstanding with ⟨_, same⟩ | ⟨errno, arrivals, shape, same⟩ |
    ⟨first, more, arrivals, asked, shape, count, same⟩
  · obtain rfl := Option.some.inj (taken.symm.trans same)
    exact inv
  · obtain rfl := Option.some.inj (taken.symm.trans same)
    rw [shape] at whole
    exact ⟨whole, fun _ => by simp only; omega, fun _ => outstanding⟩
  · obtain rfl := Option.some.inj (taken.symm.trans same)
    rw [shape] at whole
    refine ⟨?_, fun _ => ?_, nofun⟩
    · simp only [requeue_bytes, List.append_assoc]
      rw [← List.append_assoc (List.take _ _), List.take_append_drop]
      exact whole
    · simp only [List.length_append, List.length_take]
      omega

def arrivalWeight (arrivals : List SocketInput) : Nat := arrivals.length + (arrivingBytes arrivals).length

def readingWeight (r : Reading) : Nat := if r.broken then 0 else arrivalWeight r.socket.arrivals + 1

theorem requeue_weight (bytes : Bytes) (arrivals : List SocketInput) :
    arrivalWeight (requeue bytes arrivals) ≤ bytes.length + arrivalWeight arrivals + 1 := by
  cases bytes with
  | nil => simp [requeue]
  | cons first more =>
      simp only [requeue, arrivalWeight, arrivingBytes, List.length_cons, List.flatMap_cons, SocketInput.bytes, List.length_append]
      omega

-- Each recv before the end takes an error or a byte away.
theorem reading_smaller (len : Int) (r next : Reading) (more : r.socket.arrivals ≠ []) (taken : recvStep len r = some next) :
    readingWeight next < readingWeight r := by
  obtain ⟨running, outstanding⟩ := recv_step_running len r next taken
  rcases recv_step_cases len r running outstanding with ⟨none, _⟩ | ⟨errno, arrivals, shape, same⟩ |
    ⟨first, rest, arrivals, asked, shape, count, same⟩
  · exact absurd none more
  · obtain rfl := Option.some.inj (taken.symm.trans same)
    simp only [readingWeight, running, shape, arrivalWeight, arrivingBytes, List.flatMap_cons, SocketInput.bytes, List.nil_append,
      List.length_cons]
    split
    · exact Nat.succ_pos _
    · simp only [Bool.false_eq_true, if_false]
      omega
  · obtain rfl := Option.some.inj (taken.symm.trans same)
    have queued := requeue_weight ((first :: rest).drop asked) arrivals
    have some : 0 < asked := by omega
    simp only [readingWeight, running, shape, Bool.false_eq_true, if_false]
    simp only [arrivalWeight, arrivingBytes, List.flatMap_cons, SocketInput.bytes, List.length_cons, List.length_append,
      List.length_drop] at queued ⊢
    omega

def AbleToEnd (len : Int) (stream : Bytes) (r : Reading) : Prop :=
  r.broken = true ∨ len ≤ stream.length ∨ ∃ arrival ∈ r.socket.arrivals, breaks arrival = true

theorem able_step (len : Int) (stream : Bytes) (r next : Reading) (able : AbleToEnd len stream r)
    (taken : recvStep len r = some next) : AbleToEnd len stream next := by
  obtain ⟨running, outstanding⟩ := recv_step_running len r next taken
  rcases able with broken | enough | breaking
  · rw [running] at broken
    cases broken
  · exact .inr (.inl enough)
  · rcases recv_step_cases len r running outstanding with ⟨_, same⟩ | ⟨errno, arrivals, shape, same⟩ |
      ⟨first, more, arrivals, asked, shape, _, same⟩
    · obtain rfl := Option.some.inj (taken.symm.trans same)
      exact .inr (.inr breaking)
    · obtain rfl := Option.some.inj (taken.symm.trans same)
      rw [shape] at breaking
      obtain ⟨arrival, listed, breaking⟩ := breaking
      rcases List.mem_cons.mp listed with rfl | later
      · exact .inl breaking
      · exact .inr (.inr ⟨arrival, later, breaking⟩)
    · obtain rfl := Option.some.inj (taken.symm.trans same)
      rw [shape] at breaking
      obtain ⟨arrival, listed, breaking⟩ := breaking
      rcases List.mem_cons.mp listed with rfl | later
      · cases breaking
      · exact .inr (.inr ((requeue_breaks _ _).mpr ⟨arrival, later, breaking⟩))

theorem able_arrivals (len : Int) (stream : Bytes) (r next : Reading) (inv : Receiving len stream r)
    (able : AbleToEnd len stream r) (taken : recvStep len r = some next) : r.socket.arrivals ≠ [] := by
  obtain ⟨running, outstanding⟩ := recv_step_running len r next taken
  intro none
  have whole := inv.whole
  rw [none] at whole
  obtain rfl : r.buffer = stream := by simpa [arrivingBytes] using whole
  rcases able with broken | enough | ⟨arrival, listed, _⟩
  · rw [running] at broken
    cases broken
  · omega
  · rw [none] at listed
    cases listed

theorem receiving_start (socket : Socket) (len : Int) :
    Receiving len (arrivingBytes socket.arrivals) ⟨socket, [], false⟩ :=
  ⟨rfl, fun _ => by simp, nofun⟩

theorem able_returns (socket : Socket) (len : Int) (able : BreaksOrFills socket len) :
    ∃ fuel final, linuxRead socket len fuel = some final := by
  refine Loop.halts_of_variant (recvStep len)
    (fun r => Receiving len (arrivingBytes socket.arrivals) r ∧ AbleToEnd len (arrivingBytes socket.arrivals) r) readingWeight
    (fun r next inv taken => ⟨receiving_step len _ r next inv.1 taken, able_step len _ r next inv.2 taken⟩)
    (fun r next inv taken => reading_smaller len r next (able_arrivals len _ r next inv.1 inv.2 taken) taken)
    ⟨socket, [], false⟩ ⟨receiving_start socket len, .inr able⟩

theorem result_short (len : Int) (stream : Bytes) (final : Reading) (inv : Receiving len stream final)
    (ended : recvStep len final = none) : final.result < len ∨ len ≤ stream.length := by
  rw [← inv.whole, List.length_append]
  rcases recv_step_ended len final ended with broken | full
  · refine .inl ?_
    have outstanding := inv.short broken
    rw [Reading.result, if_pos broken]
    omega
  · exact .inr (by omega)

-- With the peer gone, recv returns at once and changes nothing; an error of the two errnos is passed over.
theorem unable_runs_on (socket : Socket) (len : Int) (unable : ¬ BreaksOrFills socket len) :
    ¬ Loop.Halts (recvStep len) ⟨socket, [], false⟩ := by
  obtain ⟨short, unbroken⟩ := not_or.mp unable
  refine Loop.not_halts_of_progress (recvStep len)
    (fun r => r.broken = false ∧ r.buffer ++ arrivingBytes r.socket.arrivals = arrivingBytes socket.arrivals ∧
      ¬ ∃ arrival ∈ r.socket.arrivals, breaks arrival = true) ?_ ⟨socket, [], false⟩ ⟨rfl, rfl, unbroken⟩
  rintro r ⟨running, whole, unbroken⟩
  have held := congrArg List.length whole
  rw [List.length_append] at held
  have outstanding : (r.buffer.length : Int) < len := by omega
  rcases recv_step_cases len r running outstanding with ⟨_, same⟩ | ⟨errno, arrivals, shape, same⟩ |
    ⟨first, more, arrivals, asked, shape, _, same⟩
  · exact ⟨r, same, running, whole, unbroken⟩
  · rw [shape] at whole unbroken
    refine ⟨_, same, ?_, whole, fun ⟨arrival, listed, breaking⟩ => unbroken ⟨arrival, .tail _ listed, breaking⟩⟩
    exact Bool.eq_false_iff.mpr (fun breaking => unbroken ⟨_, .head _, breaking⟩)
  · rw [shape] at whole unbroken
    refine ⟨_, same, rfl, ?_, fun breaking => ?_⟩
    · simp only [requeue_bytes, List.append_assoc]
      rw [← List.append_assoc (List.take _ _), List.take_append_drop]
      exact whole
    · obtain ⟨arrival, listed, breaking⟩ := (requeue_breaks _ _).mp breaking
      exact unbroken ⟨arrival, .tail _ listed, breaking⟩

theorem linux_read_returns_iff (socket : Socket) (len : Int) : EndReported socket len ↔ BreaksOrFills socket len := by
  constructor
  · rintro ⟨fuel, final, returned, _⟩
    by_contra unable
    exact unable_runs_on socket len unable ⟨fuel, final, returned⟩
  · intro able
    obtain ⟨fuel, final, returned⟩ := able_returns socket len able
    obtain ⟨inv, ended⟩ := Loop.run_invariant (recvStep len) (Receiving len (arrivingBytes socket.arrivals))
      (receiving_step len _) fuel _ final (receiving_start socket len) returned
    exact ⟨fuel, final, returned, result_short len _ final inv ended⟩

-- One byte is asked for, and the broker has closed the connection.
theorem closed_connection_hangs : ¬ EndReported ⟨[], .closed⟩ 1 := by
  rintro ⟨fuel, final, returned, _⟩
  exact unable_runs_on ⟨[], .closed⟩ 1 (by simp [BreaksOrFills, arrivingBytes]) ⟨fuel, final, returned⟩

-- Where it returns, linux_read is the mqttread that the packet reader calls, with all bytes in time or cut off.
theorem linux_read_timed (socket : Socket) (len fuel : Nat) (final : Reading)
    (returned : linuxRead socket len fuel = some final) :
    ∃ timing, mqttread ⟨arrivingBytes socket.arrivals, [timing]⟩ len =
      ⟨final.buffer, final.result, ⟨arrivingBytes final.socket.arrivals, []⟩⟩ := by
  obtain ⟨inv, ended⟩ := Loop.run_invariant (recvStep len) (Receiving len (arrivingBytes socket.arrivals))
    (receiving_step len _) fuel _ final (receiving_start socket len) returned
  rw [← inv.whole]
  by_cases broken : final.broken = true
  · have outstanding := inv.short broken
    have allowed : min final.buffer.length len = final.buffer.length := by omega
    have short : ¬ final.buffer.length = len := by omega
    refine ⟨.cut final.buffer.length false, ?_⟩
    simp only [mqttread, allowance, allowed, List.take_left, short, if_false, List.drop_left, Reading.result, broken, if_true,
      List.tail_cons]
  · have enough := (recv_step_ended len final ended).resolve_left broken
    have most := inv.asked (Bool.eq_false_iff.mpr broken)
    have full : final.buffer.length = len := by omega
    refine ⟨.full, ?_⟩
    simp only [mqttread, allowance, ← full, List.take_left, if_true, List.drop_left, Reading.result, broken, List.tail_cons]
    rfl

end Aliot
