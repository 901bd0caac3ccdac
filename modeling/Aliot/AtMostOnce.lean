import Aliot.Operations
import Aliot.QosTwo

set_option autoImplicit false

namespace Aliot

variable {H σ ε : Type}

-- Between two deliveries of one id its PUBREL has been answered.
def OncePerRelease (log : List (Event ε)) : Prop :=
  ∀ newer between older n m first second,
    log = newer ++ .delivered n second :: (between ++ .delivered m first :: older) → first.qos = QOS2 →
      second.qos = QOS2 → second.id = first.id → ∃ k, .sent k (ackBytes PUBCOMP 0 first.id) true ∈ between

theorem sound_older (newer older : List (Event ε)) (sound : Sound (newer ++ older)) : Sound older := by
  induction newer with
  | nil => exact sound
  | cons event newer ih =>
      apply ih
      cases event with
      | received _ _ => exact sound.2
      | delivered _ _ => exact sound.2
      | sent _ _ _ => exact sound
      | note _ => exact sound

theorem open_until_released (between older : List (Event ε)) (n : Nat) (message : MQTTMessage)
    (exactlyOnce : message.qos = QOS2)
    (closed : exchangeOpen (between ++ .delivered n message :: older) message.id = false) :
    ∃ k, .sent k (ackBytes PUBCOMP 0 message.id) true ∈ between := by
  induction between with
  | nil => exact absurd closed (by simp [exchangeOpen, exactlyOnce])
  | cons event between ih =>
      have later : exchangeOpen (between ++ .delivered n message :: older) message.id = false →
          ∃ k, .sent k (ackBytes PUBCOMP 0 message.id) true ∈ event :: between := by
        intro still
        obtain ⟨k, released⟩ := ih still
        exact ⟨k, List.mem_cons_of_mem _ released⟩
      cases event with
      | received _ _ => exact later closed
      | note _ => exact later closed
      | delivered _ other =>
          by_cases same : other.qos = QOS2 ∧ other.id = message.id
          · simp only [List.cons_append, exchangeOpen, if_pos same] at closed
            cases closed
          · simp only [List.cons_append, exchangeOpen, if_neg same] at closed
            exact later closed
      | sent k packet ok =>
          by_cases released : packet = ackBytes PUBCOMP 0 message.id ∧ ok = true
          · obtain ⟨rfl, rfl⟩ := released
            exact ⟨k, List.mem_cons_self⟩
          · simp only [List.cons_append, exchangeOpen, if_neg released] at closed
            exact later closed

theorem sound_once (log : List (Event ε)) (sound : Sound log) : OncePerRelease log := by
  rintro newer between older n m first second rfl exactlyOnce again same
  have closed := (sound_older newer _ sound).1 again
  rw [same] at closed
  exact open_until_released between older m first exactlyOnce closed

theorem qos_kept_operated : Operated (QosKept : Sys H σ ε → Sys H σ ε → Prop) where
  toCarried := qos_kept_carried
  commanded packet ok s type _ := by
    apply qos_kept_record
    rcases type with subscribe | unsubscribe
    · exact type_silent 0 SUBSCRIBE packet ok subscribe (by decide)
    · exact type_silent 0 UNSUBSCRIBE packet ok unsubscribe (by decide)
  greeted packet ok s type := by
    apply qos_kept_record
    rcases type with connect | disconnect
    · exact type_silent 0 CONNECT packet ok connect (by decide)
    · exact type_silent 0 DISCONNECT packet ok disconnect (by decide)
  installed s _ inv := ⟨⟨inv.whole, inv.distinct, inv.tracked, inv.acknowledged, inv.sound⟩, List.suffix_refl s.log⟩
  raised s _ inv := ⟨⟨inv.whole, inv.distinct, inv.tracked, inv.acknowledged, inv.sound⟩, List.suffix_refl s.log⟩
  lowered s inv := ⟨⟨inv.whole, inv.distinct, inv.tracked, inv.acknowledged, inv.sound⟩, List.suffix_refl s.log⟩

-- A client as MQTTClient leaves it, with nothing read or sent yet.
def startedClient (c : Client H) (buf_size : Nat) (world : World) (host : σ) : Sys H σ ε :=
  ⟨mqttClient c buf_size, world, host, 0, []⟩

def AtMostOnce (s : Sys H σ ε) : Prop :=
  Matched s.client.incomingQos2Messages s.log ∧ Sound s.log ∧ OncePerRelease s.log

theorem qos_two_at_most_once (depth : Nat) (operations : List (Operation H)) (c : Client H) (buf_size : Nat)
    (world : World) (host : List (List (Operation H))) (whole : ∀ arrival ∈ world.arrivals, Whole arrival) :
    AtMostOnce (ε := ε) (runOperations (operatedCall depth) operations (startedClient c buf_size world host)) := by
  have calls := operated_call_carried (H := H) (ε := ε) QosKept qos_kept_operated
    (fun s inv => ⟨⟨inv.whole, inv.distinct, inv.tracked, inv.acknowledged, inv.sound⟩, List.suffix_refl s.log⟩) depth
  have kept := run_operations_carried QosKept qos_kept_operated (operatedCall depth) calls operations
    (startedClient c buf_size world host)
  have inv := (kept (fresh_invariant _ rfl rfl whole)).1
  exact ⟨⟨inv.distinct, inv.tracked⟩, inv.sound, sound_once _ inv.sound⟩

-- A message is repeated, released and sent anew.
def repeatedWorld : World :=
  ⟨[exactlyOncePublish 1, exactlyOncePublish 1, .ack PUBREL 2 1, exactlyOncePublish 1].map arrivalOf,
    List.replicate 4 true, [], []⟩

theorem repeated_whole : ∀ arrival ∈ repeatedWorld.arrivals, Whole arrival := by
  intro arrival coming
  obtain ⟨packet, listed, rfl⟩ := List.mem_map.mp coming
  apply arrival_of_whole
  simp only [List.mem_cons, List.not_mem_nil, or_false] at listed
  rcases listed with rfl | rfl | rfl | rfl
  all_goals simp [Inbound.WellFormed, exactlyOncePublish, Inbound.body, writeInt, PUBREL]

theorem repeated_message_once :
    AtMostOnce (ε := Unit) (runOperations (operatedCall 1) (List.replicate 4 .cycle)
        (startedClient staticClient 4096 repeatedWorld [])) ∧
      ((runOperations (ε := Unit) (operatedCall 1) (List.replicate 4 .cycle)
        (startedClient staticClient 4096 repeatedWorld [])).log.filter
          (fun event => deliveredIn 1 1 event || deliveredIn 4 1 event)).length = 2 :=
  ⟨qos_two_at_most_once 1 (List.replicate 4 .cycle) staticClient 4096 repeatedWorld [] repeated_whole, by decide +kernel⟩

end Aliot
