import Aliot.Gateway

set_option autoImplicit false

namespace Aliot

-- What send_data hands to MQTTPublish: the topic it prints for compressed data, and the payload if LZFcompress_data returns.
def sentTopic (g : Gateway) (topic data : Bytes) (flag : Int) : Bytes :=
  if flag = 1 ∧ data.length > 1024 then ascii "Altizon/Datonis/lzf/" ++ g.clientId ++ ascii "/event" else topic

def sentPayload (g : Gateway) (data : Bytes) (flag : Int) : Option Bytes :=
  if flag = 1 ∧ data.length > 1024 then g.lzfCompressData data else some data

def sentMessage (g : Gateway) (qos : Nat) (s : GatewaySys) (payload : Bytes) : Outgoing :=
  ⟨qos, (g.stack s.log.length).retained, (g.stack s.log.length).id, payload⟩

theorem send_data_publishes (g : Gateway) (call : Call Handler Host Note) (qos : Nat) (topic data : Bytes) (flag : Int)
    (s : GatewaySys) :
    sendData g call qos topic data flag s = (sentPayload g data flag).map
      (fun payload => mqttPublish call (sentTopic g topic data flag) (sentMessage g qos s payload) s) := by
  simp only [sendData, sentTopic, sentMessage, sentPayload]
  split <;> rfl

theorem send_data_returned (g : Gateway) (call : Call Handler Host Note) (qos : Nat) (topic data : Bytes) (flag : Int)
    (s : GatewaySys) (sent : Int × GatewaySys) (returned : sendData g call qos topic data flag s = some sent) :
    ∃ topicName message, sent = mqttPublish call topicName message s := by
  rw [send_data_publishes] at returned
  obtain ⟨payload, _, published⟩ := Option.map_eq_some_iff.mp returned
  exact ⟨_, _, published.symm⟩

theorem encode_plain_returns (g : Gateway) (call : Call Handler Host Note) (qos : Nat) (topic json : Bytes) (s : GatewaySys) :
    (encodeAndSendData g call qos topic json 0 s).isSome = true := by
  have plain : ¬ ((0 : Int) = 1 ∧ (signedJson g json).length > 1024) := fun packed => absurd packed.1 (by decide)
  simp only [encodeAndSendData, sendData, if_neg plain, Option.map_some, Option.isSome_some]

-- Without the flag there is nothing to compress, and the call returns.
def encodeAndSendPlain (g : Gateway) (call : Call Handler Host Note) (qos : Nat) (topic json : Bytes) (s : GatewaySys) :
    Int × GatewaySys :=
  (encodeAndSendData g call qos topic json 0 s).get (encode_plain_returns g call qos topic json s)

-- Kept by the gateway's own code too.
structure GatewayCarried (R : GatewaySys → GatewaySys → Prop) : Prop extends Carried R where
  reset : ∀ s t, R s t → R s (resetReturnCode s.log.length t)
  acked : ∀ g md s, R s (handleHttpAck g md s)
  handled : ∀ call s, R s (s.record (.note (.handled call)))
  scripted : ∀ s : GatewaySys, R s { s with host := { s.host with scripts := s.host.scripts.tail } }

section Calls

variable (R : GatewaySys → GatewaySys → Prop) (carried : GatewayCarried R)

include carried

theorem instruction_carried (g : Gateway) (app : GatewaySys → GatewaySys) (apps : ∀ s, R s (app s)) (md : MessageData)
    (s : GatewaySys) : R s (handleInstructionMessage g app md s) := by
  simp only [handleInstructionMessage]
  generalize handleInstruction g.getHmac _ _ _ _ _ _ = calls
  induction calls generalizing s with
  | nil => exact carried.idle s s (idle_refl s)
  | cons call calls ih =>
      exact carried.trans _ _ _ (carried.trans _ _ _ (carried.handled call s) (apps _)) (ih _)

variable (g : Gateway) (call : Call Handler Host Note) (calls : ∀ handler md s, R s (call handler md s))

include calls

theorem wait_for_ack_carried (hash : Bytes) (retries : Nat) (s t : GatewaySys) (before : R s t) :
    R s (waitForAck call hash s.log.length retries t) := by
  induction retries generalizing t with
  | zero => exact before
  | succ retries ih =>
      have yielded := carried.trans _ _ _ before (mqtt_yield_carried R carried.toCarried call calls t)
      simp only [waitForAck]
      split
      · exact yielded
      · exact ih _ (carried.reset _ _ yielded)

theorem send_data_carried (qos : Nat) (topic data : Bytes) (flag : Int) (s : GatewaySys) :
    ∀ sent ∈ sendData g call qos topic data flag s, R s sent.2 := by
  intro sent returned
  obtain ⟨topicName, message, rfl⟩ := send_data_returned g call qos topic data flag s sent returned
  exact mqtt_publish_carried R carried.toCarried call calls _ _ s

theorem encode_and_send_data_carried (qos : Nat) (topic json : Bytes) (flag : Int) (s : GatewaySys) :
    ∀ outcome ∈ encodeAndSendData g call qos topic json flag s, R s outcome.2 := by
  intro outcome returned
  obtain ⟨sent, published, rfl⟩ := Option.map_eq_some_iff.mp returned
  have before := send_data_carried R carried g call calls qos topic (signedJson g json) flag s sent published
  unfold awaitVerdict
  split
  · exact before
  · exact wait_for_ack_carried R carried call calls _ _ _ _ (carried.reset _ _ before)

theorem encode_plain_carried (qos : Nat) (topic json : Bytes) (s : GatewaySys) :
    R s (encodeAndSendPlain g call qos topic json s).2 :=
  encode_and_send_data_carried R carried g call calls qos topic json 0 s _ (Option.get_mem _)

theorem app_command_carried (command : AppCommand) (s : GatewaySys) : R s (runAppCommand g call s command) := by
  cases command with
  | yield => exact mqtt_yield_carried R carried.toCarried call calls s
  | transmit qos topic json flag =>
      have sent := encode_and_send_data_carried R carried g call calls qos topic json flag s
      simp only [runAppCommand]
      cases outcome : encodeAndSendData g call qos topic json flag s with
      | none => exact carried.idle s s (idle_refl s)
      | some returned => exact sent returned outcome

theorem script_carried (s : GatewaySys) : R s (runScript g call s) := by
  have commands : ∀ (script : List AppCommand) t, R t (script.foldl (runAppCommand g call) t) := by
    intro script
    induction script with
    | nil => exact fun t => carried.idle t t (idle_refl t)
    | cons command script ih =>
        exact fun t => carried.trans _ _ _ (app_command_carried R carried g call calls command t) (ih _)
  exact carried.trans _ _ _ (carried.scripted s) (commands _ _)

end Calls

theorem gateway_call_carried (R : GatewaySys → GatewaySys → Prop) (carried : GatewayCarried R) (g : Gateway) (depth : Nat)
    (handler : Handler) (md : MessageData) (s : GatewaySys) : R s (gatewayCall g depth handler md s) := by
  induction depth generalizing handler md s with
  | zero =>
      cases handler with
      | httpAck => exact carried.acked g md s
      | instruction place => exact instruction_carried R carried g id (fun t => carried.idle t t (idle_refl t)) md s
  | succ depth ih =>
      cases handler with
      | httpAck => exact carried.acked g md s
      | instruction place => exact instruction_carried R carried g _ (script_carried R carried g _ ih) md s

end Aliot
