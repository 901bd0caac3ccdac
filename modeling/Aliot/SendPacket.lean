import Aliot.Loop
import Aliot.ReadPacket

set_option autoImplicit false

namespace Aliot

-- By the number of the call: whether expired(timer) is true, and the bytes mqttwrite takes; none is a failure.
structure Transport (length : Nat) where
  expired : Nat → Bool
  mqttwrite : Nat → Option Nat
  requested : ∀ k n, mqttwrite k = some n → n ≤ length

structure SendState where
  calls : Nat
  sent : Nat
  wire : Bytes
deriving DecidableEq

-- Every call asks for `length` bytes from &buf[sent] on, not for the outstanding ones.
def sendStep {length : Nat} (buf : Nat → UInt8) (t : Transport length) (s : SendState) : Option SendState :=
  if s.sent < length ∧ t.expired s.calls = false then
    (t.mqttwrite s.calls).map (fun n => ⟨s.calls + 1, s.sent + n, s.wire ++ Memory.load buf s.sent n⟩)
  else none

def sendResult (length : Nat) (s : SendState) : Int := if s.sent = length then SUCCESS else FAILURE

def sendPacketLoop {length : Nat} (buf : Nat → UInt8) (t : Transport length) (fuel : Nat) : Option (Int × Bytes) :=
  (Loop.run (sendStep buf t) fuel ⟨0, 0, []⟩).map (fun s => (sendResult length s, s.wire))

def SentWhole {length : Nat} (buf : Nat → UInt8) (t : Transport length) : Prop :=
  ∃ fuel rc wire, sendPacketLoop buf t fuel = some (rc, wire) ∧ wire <+: Memory.load buf 0 length ∧
    (rc = SUCCESS ↔ length ≤ wire.length) ∧ (rc = SUCCESS ∨ rc = FAILURE)

-- The bytes taken by the first k calls.
def bytesTaken {length : Nat} (t : Transport length) : Nat → Nat
  | 0 => 0
  | k + 1 => bytesTaken t k + (t.mqttwrite k).getD 0

def SendContinues {length : Nat} (t : Transport length) (k : Nat) : Prop :=
  bytesTaken t k < length ∧ t.expired k = false ∧ t.mqttwrite k ≠ none

-- The packet is out, the timer has expired or a write fails.
def SendEnds {length : Nat} (t : Transport length) : Prop := ∃ k, ¬ SendContinues t k

def WithinOutstanding {length : Nat} (t : Transport length) : Prop :=
  ∀ k, (∀ i ≤ k, SendContinues t i) → bytesTaken t (k + 1) ≤ length

section Send

variable {length : Nat} (buf : Nat → UInt8) (t : Transport length)

def sendStateAt (k : Nat) : SendState := ⟨k, bytesTaken t k, Memory.load buf 0 (bytesTaken t k)⟩

theorem step_continues (k : Nat) (more : SendContinues t k) : sendStep buf t (sendStateAt buf t k) = some (sendStateAt buf t (k + 1)) := by
  obtain ⟨outstanding, running, accepted⟩ := more
  obtain ⟨n, write⟩ := Option.ne_none_iff_exists'.mp accepted
  simp only [sendStep, sendStateAt, outstanding, running, and_self, if_true, write, Option.map_some, bytesTaken, Option.getD_some,
    Memory.load_append, Nat.zero_add]

theorem step_ends (k : Nat) (ended : ¬ SendContinues t k) : sendStep buf t (sendStateAt buf t k) = none := by
  rw [sendStep]
  by_cases running : (sendStateAt buf t k).sent < length ∧ t.expired (sendStateAt buf t k).calls = false
  · rw [if_pos running]
    have failed : t.mqttwrite k = none := by
      by_contra accepted
      exact ended ⟨running.1, running.2, accepted⟩
    exact congrArg (Option.map _) failed
  · rw [if_neg running]

theorem run_continues (fuel k : Nat) (more : ∀ i < k, SendContinues t i) :
    Loop.run (sendStep buf t) (fuel + k) (sendStateAt buf t 0) = Loop.run (sendStep buf t) fuel (sendStateAt buf t k) := by
  induction k generalizing fuel with
  | zero => rfl
  | succ k ih =>
      have last := Loop.run_step (sendStep buf t) fuel _ _ (step_continues buf t k (more k (Nat.lt_succ_self k)))
      rw [← last, Nat.add_comm k 1, ← Nat.add_assoc]
      exact ih (fuel + 1) (fun i below => more i (Nat.lt_succ_of_lt below))

theorem run_ends (k : Nat) (more : ∀ i < k, SendContinues t i) (ended : ¬ SendContinues t k) :
    Loop.run (sendStep buf t) (1 + k) (sendStateAt buf t 0) = some (sendStateAt buf t k) := by
  rw [run_continues buf t 1 k more, Loop.run_exit _ 0 _ (step_ends buf t k ended)]

theorem send_ended (fuel : Nat) (final : SendState) (run : Loop.run (sendStep buf t) fuel (sendStateAt buf t 0) = some final) :
    SendEnds t := by
  by_contra running
  have forever : ∀ k, SendContinues t k := fun k => by_contra fun ended => running ⟨k, ended⟩
  refine Loop.not_halts_of_progress (sendStep buf t) (fun s => ∃ k, s = sendStateAt buf t k) ?_ _ ⟨0, rfl⟩ ⟨fuel, final, run⟩
  rintro s ⟨k, rfl⟩
  exact ⟨_, step_continues buf t k (forever k), k + 1, rfl⟩

theorem first_end (ends : SendEnds t) : ∃ k, (∀ i < k, SendContinues t i) ∧ ¬ SendContinues t k := by
  classical
  exact ⟨Nat.find ends, fun i below => not_not.mp (Nat.find_min ends below), Nat.find_spec ends⟩

theorem sent_at (k : Nat) : (sendStateAt buf t k).wire.length = bytesTaken t k := Memory.load_length buf 0 (bytesTaken t k)

theorem send_packet_whole_iff : SentWhole buf t ↔ SendEnds t ∧ WithinOutstanding t := by
  constructor
  · rintro ⟨fuel, rc, wire, sent, front, _⟩
    obtain ⟨final, run, same⟩ := Option.map_eq_some_iff.mp sent
    obtain ⟨rfl, rfl⟩ := Prod.mk.inj same
    refine ⟨send_ended buf t fuel final run, fun k more => ?_⟩
    by_contra overshoot
    have stopped : ¬ SendContinues t (k + 1) := fun next => overshoot (Nat.le_of_lt next.1)
    have ended := run_ends buf t (k + 1) (fun i below => more i (Nat.le_of_lt_succ below)) stopped
    obtain rfl := Loop.run_deterministic (sendStep buf t) _ _ _ _ _ run ended
    have short := front.length_le
    rw [sent_at, Memory.load_length] at short
    exact overshoot short
  · rintro ⟨ends, within⟩
    obtain ⟨k, more, ended⟩ := first_end t ends
    have bound : bytesTaken t k ≤ length := by
      cases k with
      | zero => exact Nat.zero_le _
      | succ k => exact within k (fun i below => more i (Nat.lt_succ_of_le below))
    refine ⟨1 + k, sendResult length (sendStateAt buf t k), (sendStateAt buf t k).wire, ?_, ?_, ?_, ?_⟩
    · exact congrArg (Option.map _) (run_ends buf t k more ended)
    · have front := List.take_prefix (bytesTaken t k) (Memory.load buf 0 length)
      rwa [Memory.load_take buf 0 length (bytesTaken t k) bound] at front
    · rw [sent_at, sendResult]
      by_cases all : (sendStateAt buf t k).sent = length
      · rw [if_pos all]
        exact iff_of_true rfl (Nat.le_of_eq all.symm)
      · rw [if_neg all]
        have short : bytesTaken t k ≠ length := all
        exact iff_of_false (by decide) (by omega)
    · simp only [sendResult]
      split
      · exact .inl rfl
      · exact .inr rfl

end Send

-- The first write takes one of three bytes, the second all three it is asked for.
def shortThenFull : Transport 3 where
  expired _ := false
  mqttwrite k := if k = 0 then some 1 else some 3
  requested k n write := by
    split at write
    · exact Option.some.inj write ▸ by decide
    · exact Option.some.inj write ▸ by decide

theorem send_packet_overruns : ¬ SentWhole (fun i => UInt8.ofNat i) shortThenFull := by
  intro whole
  have within := ((send_packet_whole_iff _ _).mp whole).2 1
  refine absurd (within ?_) (by decide)
  intro i below
  obtain rfl | rfl : i = 0 ∨ i = 1 := by omega
  · exact ⟨by decide, rfl, by decide⟩
  · exact ⟨by decide, rfl, by decide⟩

end Aliot
