import Aliot.Registration

set_option autoImplicit false

namespace Aliot

namespace Session

variable (depth : Nat)

-- ERR_OK with the thing stored once within the array, or an error with the array and its counter as they were.
def RegisterAtomic (x : Session) (timestamp : Bytes) (p : Nat) : Prop :=
  let outcome := registerThing x.gateway (x.call depth) timestamp p x.sys
  (outcome.1 = ERR_OK ∧ outcome.2.host.registry.registered = x.registry.registered ++ [p] ∧
      outcome.2.host.registry.registered.length ≤ MAX_REGISTERED_THINGS) ∨
    (outcome.1 ≠ ERR_OK ∧ outcome.2.host.registry.registered = x.registry.registered)

instance (x : Session) (timestamp : Bytes) (p : Nat) : Decidable (x.RegisterAtomic depth timestamp p) :=
  inferInstanceAs (Decidable (_ ∨ _))

def Subscribed (x : Session) (timestamp : Bytes) (p : Nat) : Prop :=
  (mqttSubscribe (x.call depth) (x.topicOf p) QOS2 (.instruction p)
    (storeThing x.gateway p (x.sent depth timestamp p).2)).1 = ERR_OK

-- An acknowledged thing finds a free entry, and its subscription does not fail.
def RegisterFits (x : Session) (timestamp : Bytes) (p : Nat) : Prop :=
  x.Acknowledged depth timestamp p →
    x.registry.registered.length < MAX_REGISTERED_THINGS ∧
      ((x.registry.things p).handler.isSome = true → x.Subscribed depth timestamp p)

def RegistersAtomically (x : Session) : List SessionCall → Prop
  | [] => x.registry.registered.length ≤ MAX_REGISTERED_THINGS
  | call :: history =>
      x.registry.registered.length ≤ MAX_REGISTERED_THINGS ∧
        (∀ timestamp p, call = .register timestamp p → x.RegisterAtomic depth timestamp p) ∧
        RegistersAtomically (x.step depth call) history

def RegistersFit (x : Session) : List SessionCall → Prop
  | [] => True
  | call :: history =>
      (∀ timestamp p, call = .register timestamp p → x.RegisterFits depth timestamp p) ∧
        RegistersFit (x.step depth call) history

end Session

open Session

section Register

variable (depth : Nat)

theorem register_stores (x : Session) (timestamp : Bytes) (p : Nat) :
    (¬ x.Acknowledged depth timestamp p ∧
        (registerThing x.gateway (x.call depth) timestamp p x.sys).1 ≠ ERR_OK ∧
        (registerThing x.gateway (x.call depth) timestamp p x.sys).2.host.registry = x.registry) ∨
      (x.Acknowledged depth timestamp p ∧
        ((registerThing x.gateway (x.call depth) timestamp p x.sys).1 = ERR_OK ↔
          ((x.registry.things p).handler.isSome = true → x.Subscribed depth timestamp p)) ∧
        (registerThing x.gateway (x.call depth) timestamp p x.sys).2.host.registry =
          x.registry.store x.gateway.accessKey p) := by
  have calls := gateway_call_carried Stays stays_gateway x.gateway depth
  obtain ⟨stays, ⟨refused, done⟩ | ⟨acknowledged, done⟩⟩ := register_outcome depth x timestamp p
  · exact .inl ⟨refused, by rw [done]; exact refused, by rw [done]; exact stays.registry⟩
  · refine .inr ⟨acknowledged, ?_⟩
    have stored := stored_registry x p _ stays
    rw [done]
    cases handler : (x.registry.things p).handler.isSome with
    | false =>
        simp only [Bool.false_eq_true, if_false, false_imp_iff, true_and]
        exact stored
    | true =>
        simp only [if_true, forall_const]
        exact ⟨Iff.rfl, (subscribe_registry (x.call depth) calls _ _ _ _).trans stored⟩

theorem register_atomic_iff (x : Session) (timestamp : Bytes) (p : Nat) :
    x.RegisterAtomic depth timestamp p ↔ x.RegisterFits depth timestamp p := by
  unfold RegisterAtomic RegisterFits
  rcases register_stores depth x timestamp p with ⟨refused, failed, kept⟩ | ⟨acknowledged, returned, stored⟩
  · exact iff_of_true (.inr ⟨failed, congrArg Registry.registered kept⟩) (fun acknowledged => absurd acknowledged refused)
  · have grown : (x.registry.store x.gateway.accessKey p).registered = x.registry.registered ++ [p] := rfl
    have longer : x.registry.registered ++ [p] ≠ x.registry.registered := by simp
    simp only [stored, grown, returned, List.length_append, List.length_singleton, Nat.succ_le_iff, longer, and_false, or_false,
      acknowledged, forall_const, true_and]
    exact and_comm

theorem step_registered (x : Session) (call : SessionCall) (other : ∀ timestamp p, call ≠ .register timestamp p) :
    (x.step depth call).registry.registered = x.registry.registered := by
  cases call with
  | connect time => exact congrArg Registry.registered (connect_stores_nothing depth x time)
  | create p key name description h => rfl
  | register timestamp p => exact absurd rfl (other timestamp p)
  | command command =>
      have calls := gateway_call_carried Stays stays_gateway x.gateway depth
      exact congrArg Registry.registered (app_command_carried Stays stays_gateway x.gateway _ calls command x.sys).registry

theorem step_room (x : Session) (call : SessionCall) (room : x.registry.registered.length ≤ MAX_REGISTERED_THINGS)
    (atomic : ∀ timestamp p, call = .register timestamp p → x.RegisterAtomic depth timestamp p) :
    (x.step depth call).registry.registered.length ≤ MAX_REGISTERED_THINGS := by
  by_cases registering : ∃ timestamp p, call = .register timestamp p
  · obtain ⟨timestamp, p, rfl⟩ := registering
    rcases atomic timestamp p rfl with ⟨_, _, bound⟩ | ⟨_, kept⟩
    · exact bound
    · exact (congrArg List.length kept).trans_le room
  · rw [step_registered depth x call (fun timestamp p same => registering ⟨timestamp, p, same⟩)]
    exact room

theorem run_atomic_iff (x : Session) (history : List SessionCall) (room : x.registry.registered.length ≤ MAX_REGISTERED_THINGS) :
    x.RegistersAtomically depth history ↔ x.RegistersFit depth history := by
  induction history generalizing x with
  | nil => exact iff_of_true room trivial
  | cons call history ih =>
      simp only [RegistersAtomically, RegistersFit, register_atomic_iff, room, true_and]
      refine and_congr_right (fun fits => ih _ ?_)
      exact step_room depth x call room (fun timestamp p same => (register_atomic_iff depth x timestamp p).mpr
        (fits timestamp p same))

theorem run_bounded (x : Session) (history : List SessionCall) (atomic : x.RegistersAtomically depth history) :
    (x.run depth history).registry.registered.length ≤ MAX_REGISTERED_THINGS := by
  induction history generalizing x with
  | nil => exact atomic
  | cons call history ih => exact ih _ atomic.2.2

end Register

theorem registers_atomically_iff (depth : Nat) (g : Gateway) (world : World) (scripts : List (List AppCommand))
    (memory : Nat → ThingStruct) (history : List SessionCall) :
    (sessionStart g world scripts memory).RegistersAtomically depth history ↔
      (sessionStart g world scripts memory).RegistersFit depth history :=
  run_atomic_iff depth _ history (Nat.zero_le _)

-- Datonis acknowledges the registration, and no SUBACK comes.
def unansweredSession : Session :=
  sessionStart lampGateway ⟨sessionAnswers.dropLast.map arrivalOf, List.replicate 20 true, List.replicate 20 1, []⟩ [] freshMemory

-- Eleven registrations of a thing without a handler, all acknowledged.
def sensorAnswers : List Inbound :=
  [.other 0x20 [0, 0], .other 0x90 [0, 1, 1]] ++
    (List.range 11).flatMap (fun i => [.ack PUBACK 0 (UInt16.ofNat (i + 2)), registerAck])

def sensorSession : Session :=
  sessionStart lampGateway ⟨sensorAnswers.map arrivalOf, List.replicate 40 true, List.replicate 40 1, []⟩ [] freshMemory

def sensorCalls : List SessionCall :=
  .connect (ascii "1") :: .create 0 (some (ascii "k")) (some (ascii "n")) none none ::
    List.replicate 11 (.register (ascii "1") 0)

theorem failed_subscription_stored : ¬ unansweredSession.RegistersAtomically 0 lampCalls ∧
    ¬ sensorSession.RegistersAtomically 0 sensorCalls := by
  constructor
  · rintro ⟨_, _, _, _, _, registered, _⟩
    have atomic := registered _ _ rfl
    revert atomic
    decide +kernel
  · have overflow : MAX_REGISTERED_THINGS < (sensorSession.run 0 sensorCalls).registry.registered.length := by decide +kernel
    intro atomic
    have bounded := run_bounded 0 sensorSession sensorCalls atomic
    omega

end Aliot
