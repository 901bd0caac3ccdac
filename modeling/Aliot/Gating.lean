import Aliot.Operations

set_option autoImplicit false

namespace Aliot

variable {H ε : Type}

abbrev OperatedSys (H ε : Type) := Sys H (List (List (Operation H))) ε

-- A packet that only a connected client may send.
def NeedsConnection (packet : Bytes) : Prop :=
  ∃ type, packet.head?.map headerType = some type ∧ (type = PUBLISH ∨ type = SUBSCRIBE ∨ type = UNSUBSCRIBE)

-- readbuf is as it was, or as the last packet read has left it.
def Fetched (s t : OperatedSys H ε) : Prop :=
  t.world.arrivals = s.world.arrivals ∧ t.client.readbuf = s.client.readbuf ∨
    ∃ arrival, arrival :: t.world.arrivals <:+ s.world.arrivals ∧ t.client.readbuf = arrival.readbuf

-- One call of an operation, made of its own moves and of the operations that the handlers it calls run.
inductive Gated : Operation H → OperatedSys H ε → OperatedSys H ε → Prop
  | quiet (operation : Operation H) (s t : OperatedSys H ε) (connected : t.client.isconnected = s.client.isconnected)
      (log : t.log = s.log) (fetched : Fetched s t) : Gated operation s t
  | recorded (operation : Operation H) (s : OperatedSys H ε) (event : Event ε)
      (gate : ∀ n packet ok, event = .sent n packet ok → NeedsConnection packet → s.client.isconnected = true) :
      Gated operation s (s.record event)
  | raised (options : Option MQTTPacketConnectData) (s : OperatedSys H ε) (accepted : ConnackAccepted s.client.readbuf) :
      Gated (.connect options) s (s.withConnected true)
  | lowered (s : OperatedSys H ε) : Gated .disconnect s (s.withConnected false)
  | nested (depth : Nat) (operation inner : Operation H) (s : OperatedSys H ε)
      (run : Gated inner s (runOperation (operatedCall depth) inner s).2) :
      Gated operation s (runOperation (operatedCall depth) inner s).2
  | trans (operation : Operation H) (s t u : OperatedSys H ε) (first : Gated operation s t) (second : Gated operation t u) :
      Gated operation s u

def GatedRun (depth : Nat) : List (Operation H) → OperatedSys H ε → Prop
  | [], _ => True
  | operation :: operations, s =>
      Gated operation s (runOperation (operatedCall depth) operation s).2 ∧
        GatedRun depth operations (runOperation (operatedCall depth) operation s).2

theorem gated_idle (operation : Operation H) (s t : OperatedSys H ε) (idle : Idle s t) : Gated operation s t :=
  .quiet operation s t idle.connected idle.log idle.readbuf

theorem gated_kept (operation : Operation H) (s t : OperatedSys H ε) (connected : t.client.isconnected = s.client.isconnected)
    (log : t.log = s.log) (arrivals : t.world.arrivals = s.world.arrivals) (readbuf : t.client.readbuf = s.client.readbuf) :
    Gated operation s t :=
  .quiet operation s t connected log (.inl ⟨arrivals, readbuf⟩)

theorem type_ungated (packet : Bytes) (type : Nat) (first : packet.head?.map headerType = some type)
    (other : ¬ (type = PUBLISH ∨ type = SUBSCRIBE ∨ type = UNSUBSCRIBE)) : ¬ NeedsConnection packet := by
  rintro ⟨gated, same, gates⟩
  obtain rfl := Option.some.inj (first.symm.trans same)
  exact other gates

theorem gated_ungated (operation : Operation H) (s : OperatedSys H ε) (n type : Nat) (packet : Bytes) (ok : Bool)
    (first : packet.head?.map headerType = some type) (other : ¬ (type = PUBLISH ∨ type = SUBSCRIBE ∨ type = UNSUBSCRIBE)) :
    Gated operation s (s.record (.sent n packet ok)) := by
  apply Gated.recorded
  rintro m sent outcome same needs
  injection same with _ packetEq _
  exact absurd (packetEq ▸ needs) (type_ungated packet type first other)

theorem gated_carried (operation : Operation H) : Carried (Gated operation : OperatedSys H ε → OperatedSys H ε → Prop) := by
  apply carried_of_recorded (Gated operation) (gated_idle operation) (Gated.trans operation)
  · exact fun s table => gated_kept operation s _ rfl rfl rfl rfl
  · intro s event own
    cases event with
    | sent n packet ok =>
        obtain ⟨type, first, rfl | rfl | rfl | rfl | rfl⟩ := own <;>
          exact gated_ungated operation s n _ packet ok first (by decide)
    | received id table => exact .recorded operation s _ (fun _ _ _ different => nomatch different)
    | delivered n message => exact .recorded operation s _ (fun _ _ _ different => nomatch different)
    | note event => exact own.elim
  · exact fun n packet ok s _ connected => .recorded operation s _ (fun _ _ _ _ _ => connected)

theorem operation_gated (call : Call H (List (List (Operation H))) ε)
    (calls : ∀ operation fp md t, Gated operation t (call fp md t)) (operation : Operation H) (s : OperatedSys H ε) :
    Gated operation s (runOperation call operation s).2 := by
  have carried := gated_carried (ε := ε) operation
  have commanded : ∀ packet ok (t : OperatedSys H ε), t.client.isconnected = true →
      Gated operation t (t.record (.sent 0 packet ok)) :=
    fun packet ok t connected => .recorded operation t _ (fun _ _ _ _ _ => connected)
  cases operation with
  | cycle => exact carried.stepped call s (calls _)
  | yield => exact mqtt_yield_carried _ carried call (calls _) s
  | connect options =>
      refine mqtt_connect_carried _ carried call (calls _) ?_ (fun t accepted => .raised options t accepted) options s
      exact fun packet ok t type => gated_ungated _ t 0 CONNECT packet ok type (by decide)
  | subscribe topicFilter qos messageHandler =>
      refine mqtt_subscribe_carried _ carried call (calls _) (fun packet ok t _ => commanded packet ok t) ?_ topicFilter qos
        messageHandler s
      exact fun t table => gated_kept _ t _ rfl rfl rfl rfl
  | unsubscribe topicFilter =>
      exact mqtt_unsubscribe_carried _ carried call (calls _) (fun packet ok t _ => commanded packet ok t) topicFilter s
  | publish topicName message => exact mqtt_publish_carried _ carried call (calls _) topicName message s
  | disconnect =>
      refine mqtt_disconnect_carried _ carried ?_ Gated.lowered s
      exact fun packet ok t type => gated_ungated _ t 0 DISCONNECT packet ok type (by decide)

-- The operations that a handler's script runs are nested ones, whatever the operation that called the handler.
theorem handlers_gated (depth : Nat) (operation : Operation H) (fp : H) (md : MessageData) (s : OperatedSys H ε) :
    Gated operation s (operatedCall depth fp md s) := by
  induction depth generalizing operation fp md s with
  | zero => exact gated_idle operation s s (idle_refl s)
  | succ depth ih =>
      have script : ∀ (operations : List (Operation H)) (t : OperatedSys H ε),
          Gated operation t (runOperations (operatedCall depth) operations t) := by
        intro operations
        induction operations with
        | nil => exact fun t => gated_idle operation t t (idle_refl t)
        | cons inner operations more =>
            intro t
            have run := operation_gated (operatedCall depth) ih inner t
            exact .trans operation _ _ _ (.nested depth operation inner t run) (more _)
      exact .trans operation _ _ _ (gated_kept operation s { s with host := s.host.tail } rfl rfl rfl rfl) (script _ _)

end Aliot
