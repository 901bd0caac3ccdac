import Aliot.GatewayRun
import Aliot.SignedText
import Aliot.Subscriptions

set_option autoImplicit false

namespace Aliot

open Json (Value Members)

def CLIENT_ID_PREFIX : Bytes := ascii "_EX_CLIENT_"
def MAX_REGISTERED_THINGS : Nat := 10

-- The code tests `description` for NULL; in struct thing it is an array, so there it is `some`.
structure ThingBean where
  key : Bytes
  name : Bytes
  description : Option Bytes
  handler : Bool

def ThingStruct.bean (thing : ThingStruct) : ThingBean :=
  ⟨thing.key, thing.name, some thing.description, thing.handler.isSome⟩

def startJSON : Bytes := ascii "\x7b"

def getThingRegisterJson (thing : ThingBean) (timestamp : Bytes) : Bytes :=
  let json := putJSONDoubleAndComma startJSON (ascii "timestamp") timestamp
  let json := putJSONStringAndComma json (ascii "name") thing.name
  let json := thing.description.elim json (putJSONStringAndComma json (ascii "description"))
  let json := putJSONStringAndComma json (ascii "thing_key") thing.key
  let json := json ++ ascii "\"bi_directional\":" ++ (if thing.handler then ascii "1" else ascii "0")
  endJSON json

-- The filter of a subscription for a struct is the struct's own instruction_topic.
def retarget (p : Nat) (topic : Bytes) (entry : MessageHandler Handler) : MessageHandler Handler :=
  if entry.fp = some (.instruction p) ∧ entry.topicFilter.isSome then { entry with topicFilter := some topic } else entry

-- The pointer is stored, and with a handler the topic is printed into the struct.
def storeThing (g : Gateway) (p : Nat) (s : GatewaySys) : GatewaySys :=
  let registry := s.host.registry.store g.accessKey p
  let thing := registry.things p
  let messageHandlers :=
    if thing.handler.isSome then s.client.messageHandlers.map (retarget p thing.instructionTopic) else s.client.messageHandlers
  { s with client := { s.client with messageHandlers := messageHandlers }, host := { s.host with registry := registry } }

def registerThing (g : Gateway) (call : Call Handler Host Note) (timestamp : Bytes) (p : Nat) (s : GatewaySys) :
    Int × GatewaySys :=
  let topic := ascii "Altizon/Datonis/" ++ g.clientId ++ ascii "/register"
  let (rc, s) := encodeAndSendPlain g call QOS1 topic (getThingRegisterJson (s.host.registry.things p).bean timestamp) s
  if rc ≠ ERR_OK then (rc, s)
  else
    let s := storeThing g p s
    let thing := s.host.registry.things p
    if thing.handler.isSome then mqttSubscribe call thing.instructionTopic QOS2 (.instruction p) s else (rc, s)

def connectOptions (g : Gateway) : MQTTPacketConnectData :=
  { connectDataInitializer with
    willFlag := 0, mqttVersion := 3, clientID := g.clientId, keepAliveInterval := 20, cleansession := 1 }

def clearContext (s : GatewaySys) : GatewaySys := { s with host := { s.host with httpAckContext := [] } }

def restartClient (s : GatewaySys) : GatewaySys := { s with client := mqttClient s.client 4096 }

def connectDatonisInstance (g : Gateway) (call : Call Handler Host Note) (s : GatewaySys) : Int × GatewaySys :=
  let (rc, s) := mqttConnect call (some (connectOptions g)) (restartClient s)
  if rc ≠ ERR_OK then (rc, s)
  else
    mqttSubscribe call (ascii "Altizon/Datonis/" ++ g.clientId ++ ascii "/httpAck") QOS1 .httpAck (clearContext s)

-- The time makes the client id; structs are told by their addresses.
inductive SessionCall where
  | connect (time : Bytes)
  | create (p : Nat) (key name description : Option Bytes) (h : Option Nat)
  | register (timestamp : Bytes) (p : Nat)
  | command (command : AppCommand)

-- `accepted`: the things with a handler that register_thing has returned ERR_OK for, as they were then.
structure Session where
  gateway : Gateway
  sys : GatewaySys
  accepted : List Thing

namespace Session

variable (depth : Nat)

def call (x : Session) : Call Handler Host Note := gatewayCall x.gateway depth

def registry (x : Session) : Registry := x.sys.host.registry

def connect (x : Session) (time : Bytes) : Session :=
  let g := { x.gateway with clientId := CLIENT_ID_PREFIX ++ time }
  ⟨g, (connectDatonisInstance g (gatewayCall g depth) x.sys).2, x.accepted⟩

def create (x : Session) (p : Nat) (key name description : Option Bytes) (h : Option Nat) : Session :=
  { x with sys := { x.sys with host := { x.sys.host with registry := x.registry.create p key name description h } } }

def register (x : Session) (timestamp : Bytes) (p : Nat) : Session :=
  let outcome := registerThing x.gateway (x.call depth) timestamp p x.sys
  ⟨x.gateway, outcome.2,
    if outcome.1 = ERR_OK ∧ (x.registry.things p).handler.isSome then outcome.2.host.registry.entry p :: x.accepted
    else x.accepted⟩

def step (x : Session) : SessionCall → Session
  | .connect time => x.connect depth time
  | .create p key name description h => x.create p key name description h
  | .register timestamp p => x.register depth timestamp p
  | .command command => { x with sys := runAppCommand x.gateway (x.call depth) x.sys command }

def run (x : Session) (history : List SessionCall) : Session := history.foldl (step depth) x

-- The part of register_thing that decides whether the thing is stored.
def sent (x : Session) (timestamp : Bytes) (p : Nat) : Int × GatewaySys :=
  encodeAndSendPlain x.gateway (x.call depth) QOS1 (ascii "Altizon/Datonis/" ++ x.gateway.clientId ++ ascii "/register")
    (getThingRegisterJson (x.registry.things p).bean timestamp) x.sys

def Acknowledged (x : Session) (timestamp : Bytes) (p : Nat) : Prop := (x.sent depth timestamp p).1 = ERR_OK

-- The topic of the struct once it is stored.
def topicOf (x : Session) (p : Nat) : Bytes := ((x.registry.things p).subscribed x.gateway.accessKey).instructionTopic

-- No reconnect once a thing is accepted, no other handler in an accepted thing's struct, no struct with a handler stored twice,
-- and no thing stored whose topic is stored already or clashes with an accepted one.
def Fits (x : Session) : SessionCall → Prop
  | .connect _ => x.accepted = []
  | .create p key name description h =>
      ∀ thing ∈ x.accepted, thing.place = p → (createThing (x.registry.things p) key name description h).handler = thing.handler
  | .register timestamp p =>
      x.Acknowledged depth timestamp p → x.registry.registered.length < MAX_REGISTERED_THINGS ∧
        if (x.registry.things p).handler.isSome then
          p ∉ x.registry.registered ∧
            (∀ q ∈ x.registry.registered, (x.registry.things q).instructionTopic ≠ x.topicOf p) ∧
            (usedSlots x.sys.client.messageHandlers).length < MAX_MESSAGE_HANDLERS ∧
            ∀ thing ∈ x.accepted, takes thing.instructionTopic (x.topicOf p) = false ∧
              takes (x.topicOf p) thing.instructionTopic = false
        else ∀ thing ∈ x.accepted, thing.instructionTopic ≠ x.topicOf p
  | .command _ => True

def FitsAll (x : Session) : List SessionCall → Prop
  | [] => True
  | call :: history => x.Fits depth call ∧ FitsAll (x.step depth call) history

end Session

-- Whatever the uninitialised buffers hold, the payload parses and its hash is the one computed.
def SignedInstruction (g : Gateway) (payload : Bytes) : Prop :=
  ∀ prior stray, (parseInstructionJson (printed payload) prior stray).rc ≥ 0 ∧
    (parseInstructionJson (printed payload) prior stray).out.hash =
      g.getHmac g.secretKey (parseInstructionJson (printed payload) prior stray).originalJson

-- The things whose handlers these calls of handle_instruction call.
def calledThings (g : Gateway) (registeredThings : List Thing) (stack : Nat → Stack) (calls : List (Invocation Handler)) :
    List Thing :=
  calls.flatMap (fun call =>
    match call.fp with
    | .httpAck => []
    | .instruction _ =>
        (handleInstruction g.getHmac g.secretKey registeredThings (stack call.entry).prior (stack call.entry).stray
          call.topic call.payload).map HandlerCall.thing)

-- Of every instruction that is delivered next, as long as the handlers it calls leave the others their message.
def ExactlyOnce (depth : Nat) (x : Session) : Prop :=
  ∀ thing ∈ x.accepted, ∀ (s : GatewaySys) cycle md stack,
    s.client.messageHandlers = x.sys.client.messageHandlers → s.host.registeredThings = x.sys.host.registeredThings →
      topicBytes s.client md.topicName = thing.instructionTopic → SignedInstruction x.gateway (payloadBytes s.client md.message) →
        LeftIntact (x.call depth) cycle md s →
          calledThings x.gateway s.host.registeredThings stack (invoked (x.call depth) cycle md s) = [thing]

-- The table and the stored things are as they were.
structure Stays (s t : GatewaySys) : Prop where
  table : t.client.messageHandlers = s.client.messageHandlers
  registry : t.host.registry = s.host.registry

theorem stays_trans (s t u : GatewaySys) (first : Stays s t) (second : Stays t u) : Stays s u :=
  ⟨second.table.trans first.table, second.registry.trans first.registry⟩

theorem stays_gateway : GatewayCarried Stays where
  toCarried := carried_of_recorded Stays (fun _ _ idle => ⟨idle.handlers, by rw [idle.host]⟩) stays_trans
    (fun _ _ => ⟨rfl, rfl⟩) (fun _ _ _ => ⟨rfl, rfl⟩) (fun _ _ _ _ _ _ => ⟨rfl, rfl⟩)
  reset _ _ before := ⟨before.table, before.registry⟩
  acked _ _ _ := ⟨rfl, rfl⟩
  handled _ _ := ⟨rfl, rfl⟩
  scripted _ := ⟨rfl, rfl⟩

def instructionFilter : Bytes × Option Handler → Option Bytes
  | (topicFilter, some (.instruction _)) => some topicFilter
  | _ => none

def instructionFilters (table : List (MessageHandler Handler)) : List Bytes :=
  (usedSlots table).filterMap instructionFilter

-- Every subscription for a struct is one for a stored struct.
def Owned (table : List (MessageHandler Handler)) (registered : List Nat) : Prop :=
  ∀ p topicFilter, (topicFilter, some (.instruction p)) ∈ usedSlots table → p ∈ registered

theorem install_ack_filters (table installed : List (MessageHandler Handler)) (topicFilter : Bytes)
    (done : installHandler table topicFilter .httpAck = some installed) :
    (instructionFilters installed).Perm (instructionFilters table) :=
  (install_used table installed topicFilter .httpAck done).2.filterMap _

theorem install_instruction_filters (table installed : List (MessageHandler Handler)) (topicFilter : Bytes) (p : Nat)
    (done : installHandler table topicFilter (.instruction p) = some installed) :
    (instructionFilters installed).Perm (topicFilter :: instructionFilters table) :=
  (install_used table installed topicFilter (.instruction p) done).2.filterMap _

theorem install_owned (table installed : List (MessageHandler Handler)) (topicFilter : Bytes) (p : Nat) (registered : List Nat)
    (done : installHandler table topicFilter (.instruction p) = some installed) (listed : p ∈ registered)
    (owned : Owned table registered) : Owned installed registered := by
  intro q other used
  rcases List.mem_cons.mp ((install_used table installed topicFilter (.instruction p) done).2.mem_iff.mp used) with here | before
  · obtain ⟨_, same⟩ := Prod.mk.inj here
    cases same
    exact listed
  · exact owned q other before

theorem owned_empty (table : List (MessageHandler Handler)) (registered : List Nat) (none : instructionFilters table = []) :
    Owned table registered := by
  intro p topicFilter used
  have found : topicFilter ∈ instructionFilters table := List.mem_filterMap.mpr ⟨_, used, rfl⟩
  rw [none] at found
  cases found

-- A struct without a subscription takes none along when its topic changes.
theorem retarget_unowned (table : List (MessageHandler Handler)) (registered : List Nat) (p : Nat) (topic : Bytes)
    (owned : Owned table registered) (absent : p ∉ registered) : table.map (retarget p topic) = table := by
  refine (List.map_congr_left (fun entry listed => if_neg ?_)).trans (List.map_id table)
  rintro ⟨handler, used⟩
  obtain ⟨topicFilter, filter⟩ := Option.isSome_iff_exists.mp used
  refine absent (owned p topicFilter (List.mem_filterMap.mpr ⟨entry, listed, ?_⟩))
  rw [filter, handler, Option.map_some]

structure Dispatching (x : Session) : Prop where
  array : x.sys.client.messageHandlers.length = MAX_MESSAGE_HANDLERS
  filters : (instructionFilters x.sys.client.messageHandlers).Perm (x.accepted.map Thing.instructionTopic)
  owned : Owned x.sys.client.messageHandlers x.registry.registered
  owns : ∀ thing ∈ x.accepted, x.registry.Owns thing
  apart : (x.accepted.map Thing.instructionTopic).Pairwise (fun newer older => takes newer older = false ∧ takes older newer = false)
  nulFree : ∀ thing ∈ x.accepted, (0 : UInt8) ∉ thing.instructionTopic

theorem dispatching_stays (x y : Session) (stays : Stays x.sys y.sys) (accepted : y.accepted = x.accepted)
    (inv : Dispatching x) : Dispatching y where
  array := by rw [stays.table, inv.array]
  filters := by rw [stays.table, accepted]; exact inv.filters
  owned := by rw [stays.table, Session.registry, stays.registry]; exact inv.owned
  owns := by rw [accepted, Session.registry, stays.registry]; exact inv.owns
  apart := by rw [accepted]; exact inv.apart
  nulFree := by rw [accepted]; exact inv.nulFree

theorem printed_nul_free (data : Bytes) : (0 : UInt8) ∉ printed data := by
  intro member
  have kept := List.mem_takeWhile_imp member
  exact absurd kept (by decide)

theorem topic_nul_free (accessKey key : Bytes) : (0 : UInt8) ∉ executeInstructionTopic accessKey key := by
  have literals : (0 : UInt8) ∉ ascii "Altizon/Datonis/" ∧ (0 : UInt8) ∉ ascii "/thing/" ∧
      (0 : UInt8) ∉ ascii "/executeInstruction" := by decide +kernel
  simp only [executeInstructionTopic, List.mem_append, literals, printed_nul_free, or_self, not_false_eq_true]

section Steps

variable (call : Call Handler Host Note) (calls : ∀ handler md s, Stays s (call handler md s))

include calls

theorem subscribe_outcome (topicFilter : Bytes) (qos : Nat) (handler : Handler) (s : GatewaySys) :
    ∃ t, Stays s t ∧
      (mqttSubscribe call topicFilter qos handler s = (FAILURE, t) ∨
        (∃ table, installHandler t.client.messageHandlers topicFilter handler = some table ∧
          mqttSubscribe call topicFilter qos handler s = (0, t.withHandlers table)) ∨
        ∃ rc, installHandler t.client.messageHandlers topicFilter handler = none ∧
          mqttSubscribe call topicFilter qos handler s = (rc, t)) := by
  obtain ⟨t, stays, failed | answered⟩ := mqtt_subscribe_outcome Stays stays_gateway.toCarried call calls
    (fun _ _ _ _ _ => ⟨rfl, rfl⟩) topicFilter qos handler s
  · exact ⟨t, stays, .inl failed⟩
  · rw [answered]
    exact ⟨t, stays, .inr (accept_suback_outcome topicFilter handler t)⟩

theorem subscribe_registry (topicFilter : Bytes) (qos : Nat) (handler : Handler) (s : GatewaySys) :
    (mqttSubscribe call topicFilter qos handler s).2.host.registry = s.host.registry := by
  obtain ⟨t, stays, failed | ⟨table, _, granted⟩ | ⟨rc, _, full⟩⟩ := subscribe_outcome call calls topicFilter qos handler s
  · rw [failed, stays.registry]
  · rw [granted]
    exact stays.registry
  · rw [full, stays.registry]

theorem connect_outcome (g : Gateway) (s : GatewaySys) (array : s.client.messageHandlers.length = MAX_MESSAGE_HANDLERS) :
    (connectDatonisInstance g call s).2.client.messageHandlers.length = MAX_MESSAGE_HANDLERS ∧
      instructionFilters (connectDatonisInstance g call s).2.client.messageHandlers = [] := by
  have cleared : (restartClient s).client.messageHandlers.length = MAX_MESSAGE_HANDLERS ∧
      instructionFilters (restartClient s).client.messageHandlers = [] := by
    refine ⟨(List.length_map _).trans array, ?_⟩
    simp [restartClient, mqttClient, instructionFilters, usedSlots]
  have connected := mqtt_connect_carried Stays stays_gateway.toCarried call calls (fun _ _ _ _ => ⟨rfl, rfl⟩)
    (fun _ _ => ⟨rfl, rfl⟩) (some (connectOptions g)) (restartClient s)
  simp only [connectDatonisInstance]
  generalize mqttConnect call (some (connectOptions g)) (restartClient s) = outcome at connected ⊢
  split
  · rw [connected.table]
    exact cleared
  · obtain ⟨t, stays, failed | ⟨table, installed, done⟩ | ⟨rc, _, done⟩⟩ := subscribe_outcome call calls
      (ascii "Altizon/Datonis/" ++ g.clientId ++ ascii "/httpAck") QOS1 .httpAck (clearContext outcome.2)
    · rw [failed, stays.table]
      exact connected.table ▸ cleared
    · rw [stays.table, show (clearContext outcome.2).client.messageHandlers = outcome.2.client.messageHandlers from rfl,
        connected.table] at installed
      rw [done]
      refine ⟨(install_used _ table _ _ installed).1.trans cleared.1, ?_⟩
      have filters := install_ack_filters _ table _ installed
      rw [cleared.2] at filters
      exact List.perm_nil.mp filters
    · rw [done, stays.table]
      exact connected.table ▸ cleared

end Steps

theorem connect_stores_nothing (depth : Nat) (x : Session) (time : Bytes) : (x.connect depth time).registry = x.registry := by
  simp only [Session.connect, Session.registry, connectDatonisInstance]
  generalize { x.gateway with clientId := CLIENT_ID_PREFIX ++ time } = g
  have calls := gateway_call_carried Stays stays_gateway g depth
  have connected : (mqttConnect (gatewayCall g depth) (some (connectOptions g)) (restartClient x.sys)).2.host.registry =
      x.sys.host.registry :=
    (mqtt_connect_carried Stays stays_gateway.toCarried _ calls (fun _ _ _ _ => ⟨rfl, rfl⟩) (fun _ _ => ⟨rfl, rfl⟩)
      (some (connectOptions g)) (restartClient x.sys)).registry
  split
  · exact connected
  · rw [subscribe_registry _ calls]
    exact connected

theorem connect_dispatching (depth : Nat) (x : Session) (time : Bytes) (none : x.accepted = []) (inv : Dispatching x) :
    Dispatching (x.connect depth time) := by
  have calls := gateway_call_carried Stays stays_gateway { x.gateway with clientId := CLIENT_ID_PREFIX ++ time } depth
  obtain ⟨array, filters⟩ := connect_outcome _ calls { x.gateway with clientId := CLIENT_ID_PREFIX ++ time } x.sys inv.array
  have empty : (x.connect depth time).accepted = [] := none
  have connected : (x.connect depth time).sys = (connectDatonisInstance { x.gateway with clientId := CLIENT_ID_PREFIX ++ time }
    (gatewayCall { x.gateway with clientId := CLIENT_ID_PREFIX ++ time } depth) x.sys).2 := rfl
  rw [← connected] at array filters
  refine ⟨array, ?_, owned_empty _ _ filters, ?_, ?_, ?_⟩
  · rw [empty]
    exact List.Perm.of_eq filters
  · rw [empty]
    exact fun _ listed => nomatch listed
  · rw [empty]
    exact .nil
  · rw [empty]
    exact fun _ listed => nomatch listed

theorem create_dispatching (x : Session) (p : Nat) (key name description : Option Bytes) (h : Option Nat)
    (kept : ∀ thing ∈ x.accepted, thing.place = p →
      (createThing (x.registry.things p) key name description h).handler = thing.handler)
    (inv : Dispatching x) : Dispatching (x.create p key name description h) where
  array := inv.array
  filters := inv.filters
  owned := inv.owned
  owns := fun thing accepted => Registry.owns_create _ _ _ _ _ _ _ (kept thing accepted) (inv.owns thing accepted)
  apart := inv.apart
  nulFree := inv.nulFree

theorem register_outcome (depth : Nat) (x : Session) (timestamp : Bytes) (p : Nat) :
    Stays x.sys (x.sent depth timestamp p).2 ∧
      (¬ x.Acknowledged depth timestamp p ∧
          registerThing x.gateway (x.call depth) timestamp p x.sys = x.sent depth timestamp p ∨
        x.Acknowledged depth timestamp p ∧ registerThing x.gateway (x.call depth) timestamp p x.sys =
          if (x.registry.things p).handler.isSome then
            mqttSubscribe (x.call depth) (x.topicOf p) QOS2 (.instruction p)
              (storeThing x.gateway p (x.sent depth timestamp p).2)
          else (ERR_OK, storeThing x.gateway p (x.sent depth timestamp p).2)) := by
  have calls := gateway_call_carried Stays stays_gateway x.gateway depth
  have sent : Stays x.sys (x.sent depth timestamp p).2 :=
    encode_plain_carried Stays stays_gateway x.gateway (x.call depth) calls QOS1 _ _ x.sys
  refine ⟨sent, ?_⟩
  have whole : registerThing x.gateway (x.call depth) timestamp p x.sys =
      if (x.sent depth timestamp p).1 ≠ ERR_OK then x.sent depth timestamp p
      else
        let s := storeThing x.gateway p (x.sent depth timestamp p).2
        if (s.host.registry.things p).handler.isSome then
          mqttSubscribe (x.call depth) (s.host.registry.things p).instructionTopic QOS2 (.instruction p) s
        else ((x.sent depth timestamp p).1, s) := rfl
  have stored : (storeThing x.gateway p (x.sent depth timestamp p).2).host.registry.things p =
      (x.registry.things p).subscribed x.gateway.accessKey := by
    change ((x.sent depth timestamp p).2.host.registry.store x.gateway.accessKey p).things p = _
    rw [sent.registry, Registry.store_here]
    rfl
  by_cases ok : (x.sent depth timestamp p).1 = ERR_OK
  · refine .inr ⟨ok, ?_⟩
    rw [whole, if_neg (not_not.mpr ok)]
    simp only [stored, Registry.subscribed_handler, ok]
    rfl
  · exact .inl ⟨ok, whole.trans (if_pos ok)⟩

section Stored

variable (x : Session) (p : Nat) (t : GatewaySys) (stays : Stays x.sys t)

include stays

theorem stored_registry : (storeThing x.gateway p t).host.registry = x.registry.store x.gateway.accessKey p := by
  rw [Session.registry, ← stays.registry]
  rfl

theorem stored_table_plain (plain : (x.registry.things p).handler.isSome = false) :
    (storeThing x.gateway p t).client.messageHandlers = x.sys.client.messageHandlers := by
  have handler : ((t.host.registry.store x.gateway.accessKey p).things p).handler.isSome = false := by
    rw [Registry.store_here, Registry.subscribed_handler, stays.registry]
    exact plain
  have unhandled : ¬ ((t.host.registry.store x.gateway.accessKey p).things p).handler.isSome = true := by
    rw [handler]
    exact Bool.false_ne_true
  exact (if_neg unhandled).trans stays.table

theorem stored_table_absent (owned : Owned x.sys.client.messageHandlers x.registry.registered) (absent : p ∉ x.registry.registered) :
    (storeThing x.gateway p t).client.messageHandlers = x.sys.client.messageHandlers := by
  have kept := retarget_unowned t.client.messageHandlers x.registry.registered p
    ((t.host.registry.store x.gateway.accessKey p).things p).instructionTopic (stays.table ▸ owned) absent
  simp only [storeThing]
  split
  · rw [kept, stays.table]
  · exact stays.table

end Stored

-- The thing is stored and not accepted.
theorem dispatching_stored (x y : Session) (p : Nat) (t : GatewaySys) (stays : Stays x.sys t)
    (table : (storeThing x.gateway p t).client.messageHandlers = x.sys.client.messageHandlers)
    (sys : Stays (storeThing x.gateway p t) y.sys) (accepted : y.accepted = x.accepted)
    (others : ∀ q ∈ x.registry.registered, (x.registry.store x.gateway.accessKey p).things q = x.registry.things q)
    (absent : ∀ thing ∈ x.accepted, thing.instructionTopic ≠ x.topicOf p) (inv : Dispatching x) : Dispatching y := by
  have registry : y.registry = x.registry.store x.gateway.accessKey p :=
    sys.registry.trans (stored_registry x p t stays)
  have handlers := sys.table.trans table
  constructor
  · rw [handlers, inv.array]
  · rw [handlers, accepted]
    exact inv.filters
  · rw [handlers, registry]
    exact fun q topicFilter used => List.mem_append_left _ (inv.owned q topicFilter used)
  · rw [registry, accepted]
    intro thing listed
    refine Registry.owns_store _ _ p thing others ?_ (inv.owns thing listed)
    rw [Registry.store_here]
    exact (absent thing listed).symm
  · rw [accepted]
    exact inv.apart
  · rw [accepted]
    exact inv.nulFree

theorem accepted_topics_differ (x : Session) (p : Nat) (inv : Dispatching x)
    (fresh : ∀ q ∈ x.registry.registered, (x.registry.things q).instructionTopic ≠ x.topicOf p) :
    ∀ thing ∈ x.accepted, thing.instructionTopic ≠ x.topicOf p := by
  intro thing listed same
  have owns := inv.owns thing listed
  have place := congrArg Thing.instructionTopic owns.2
  exact fresh _ (Registry.owns_registered _ _ owns) (place.trans same)

theorem dispatching_accepted (x y : Session) (p : Nat) (table : List (MessageHandler Handler))
    (accepted : y.accepted = (x.registry.store x.gateway.accessKey p).entry p :: x.accepted)
    (registry : y.registry = x.registry.store x.gateway.accessKey p) (handlers : y.sys.client.messageHandlers = table)
    (installed : installHandler x.sys.client.messageHandlers (x.topicOf p) (.instruction p) = some table)
    (absent : p ∉ x.registry.registered)
    (fresh : ∀ q ∈ x.registry.registered, (x.registry.things q).instructionTopic ≠ x.topicOf p)
    (apart : ∀ thing ∈ x.accepted, takes thing.instructionTopic (x.topicOf p) = false ∧
      takes (x.topicOf p) thing.instructionTopic = false)
    (nulFree : (0 : UInt8) ∉ x.topicOf p) (inv : Dispatching x) : Dispatching y := by
  have topic : ((x.registry.store x.gateway.accessKey p).entry p).instructionTopic = x.topicOf p := by
    rw [Registry.entry, Registry.store_here]
    rfl
  have others := Registry.store_absent x.gateway.accessKey x.registry p absent
  have behind := accepted_topics_differ x p inv fresh
  constructor
  · rw [handlers, (install_used _ table _ _ installed).1, inv.array]
  · rw [handlers, accepted, List.map_cons, topic]
    exact (install_instruction_filters _ table _ p installed).trans (inv.filters.cons _)
  · rw [handlers, registry]
    exact install_owned _ table _ p _ installed (List.mem_append_right _ (List.mem_singleton_self _))
      (fun q topicFilter used => List.mem_append_left _ (inv.owned q topicFilter used))
  · rw [registry, accepted]
    intro thing listed
    rcases List.mem_cons.mp listed with rfl | earlier
    · refine Registry.owns_new _ _ p absent (fun q stored => ?_)
      rw [Registry.store_here]
      exact fresh q stored
    · refine Registry.owns_store _ _ p thing others ?_ (inv.owns thing earlier)
      rw [Registry.store_here]
      exact (behind thing earlier).symm
  · rw [accepted, List.map_cons, topic]
    refine List.pairwise_cons.mpr ⟨fun other listed => ?_, inv.apart⟩
    obtain ⟨thing, member, rfl⟩ := List.mem_map.mp listed
    exact (apart thing member).symm
  · rw [accepted]
    intro thing listed
    rcases List.mem_cons.mp listed with rfl | earlier
    · rw [topic]
      exact nulFree
    · exact inv.nulFree thing earlier

-- The thing is stored; its handler is accepted if MQTTSubscribe is granted, and then has an entry of its own.
theorem subscribe_dispatching (depth : Nat) (x : Session) (timestamp : Bytes) (p : Nat) (t : GatewaySys)
    (handler : (x.registry.things p).handler.isSome = true) (stays : Stays x.sys t)
    (done : registerThing x.gateway (x.call depth) timestamp p x.sys =
      mqttSubscribe (x.call depth) (x.topicOf p) QOS2 (.instruction p) (storeThing x.gateway p t))
    (absent : p ∉ x.registry.registered)
    (fresh : ∀ q ∈ x.registry.registered, (x.registry.things q).instructionTopic ≠ x.topicOf p)
    (slots : (usedSlots x.sys.client.messageHandlers).length < MAX_MESSAGE_HANDLERS)
    (apart : ∀ thing ∈ x.accepted, takes thing.instructionTopic (x.topicOf p) = false ∧
      takes (x.topicOf p) thing.instructionTopic = false)
    (inv : Dispatching x) : Dispatching (x.register depth timestamp p) := by
  have calls := gateway_call_carried Stays stays_gateway x.gateway depth
  have kept := stored_table_absent x p t stays inv.owned absent
  have others := Registry.store_absent x.gateway.accessKey x.registry p absent
  have nulFree : (0 : UInt8) ∉ x.topicOf p := by
    rw [Session.topicOf, ThingStruct.subscribed, if_pos handler]
    exact topic_nul_free _ _
  obtain ⟨u, after, failed | ⟨table, installed, ended⟩ | ⟨rc, full, ended⟩⟩ := subscribe_outcome (x.call depth) calls
    (x.topicOf p) QOS2 (.instruction p) (storeThing x.gateway p t)
  · rw [failed] at done
    refine dispatching_stored x _ p t stays kept ?_ ?_ others (accepted_topics_differ x p inv fresh) inv
    · rw [Session.register, done]
      exact after
    · have refused : ¬ FAILURE = ERR_OK := by decide
      simp only [Session.register, done, refused, false_and, if_false]
  · rw [ended] at done
    have stored : u.host.registry = x.registry.store x.gateway.accessKey p :=
      after.registry.trans (stored_registry x p t stays)
    refine dispatching_accepted x _ p table ?_ ?_ ?_ (by rw [← installed, after.table, kept]) absent fresh apart nulFree inv
    · have ok : (0 : Int) = ERR_OK := rfl
      simp only [Session.register, done, handler, ok, and_self, if_true]
      exact congrArg (fun registry => Registry.entry registry p :: x.accepted) stored
    · simp only [Session.register, Session.registry, done]
      exact stored
    · simp only [Session.register, done]
      rfl
  · have before : u.client.messageHandlers = x.sys.client.messageHandlers := after.table.trans kept
    rw [before] at full
    have slotsUsed := not_installed_full _ _ _ inv.array full
    omega

theorem register_dispatching (depth : Nat) (x : Session) (timestamp : Bytes) (p : Nat)
    (fits : x.Fits depth (.register timestamp p)) (inv : Dispatching x) : Dispatching (x.register depth timestamp p) := by
  obtain ⟨stays, ⟨refused, done⟩ | ⟨acknowledged, done⟩⟩ := register_outcome depth x timestamp p
  · have failed : ¬ (x.sent depth timestamp p).1 = ERR_OK := refused
    apply dispatching_stays x _ _ _ inv
    · rw [Session.register, done]
      exact stays
    · simp only [Session.register, done, failed, false_and, if_false]
  obtain ⟨_, fits⟩ := fits acknowledged
  cases handler : (x.registry.things p).handler.isSome with
  | false =>
      simp only [handler, Bool.false_eq_true, if_false] at done fits
      have plain := Registry.subscribed_none (x.registry.things p) x.gateway.accessKey
        (Option.isNone_iff_eq_none.mp (Option.isSome_eq_false_iff.mp handler))
      refine dispatching_stored x _ p _ stays (stored_table_plain x p _ stays handler) ?_ ?_ ?_ fits inv
      · rw [Session.register, done]
        exact ⟨rfl, rfl⟩
      · simp [Session.register, handler]
      · intro q _
        by_cases here : q = p
        · rw [here, Registry.store_here, plain]
        · exact Registry.store_other _ _ _ _ here
  | true =>
      simp only [handler, if_true] at done fits
      obtain ⟨absent, fresh, slots, apart⟩ := fits
      exact subscribe_dispatching depth x timestamp p _ handler stays done absent fresh slots apart inv

theorem step_dispatching (depth : Nat) (x : Session) (call : SessionCall) (fits : x.Fits depth call) (inv : Dispatching x) :
    Dispatching (x.step depth call) := by
  cases call with
  | connect time => exact connect_dispatching depth x time fits inv
  | create p key name description h => exact create_dispatching x p key name description h fits inv
  | register timestamp p => exact register_dispatching depth x timestamp p fits inv
  | command command =>
      have calls := gateway_call_carried Stays stays_gateway x.gateway depth
      exact dispatching_stays x _ (app_command_carried Stays stays_gateway x.gateway _ calls command x.sys) rfl inv

theorem run_dispatching (depth : Nat) (x : Session) (history : List SessionCall) (fits : x.FitsAll depth history)
    (inv : Dispatching x) : Dispatching (x.run depth history) := by
  induction history generalizing x with
  | nil => exact inv
  | cons call history ih => exact ih _ fits.2 (step_dispatching depth x call fits.1 inv)

theorem accepted_taken (accepted : List Bytes) (topic : Bytes) (listed : topic ∈ accepted)
    (apart : accepted.Pairwise (fun newer older => takes newer older = false ∧ takes older newer = false)) :
    accepted.filter (fun other => takes other topic) = [topic] := by
  have own : takes topic topic = true := by simp [takes]
  induction accepted with
  | nil => cases listed
  | cons other accepted ih =>
      obtain ⟨first, rest⟩ := List.pairwise_cons.mp apart
      by_cases here : other = topic
      · subst here
        have none : accepted.filter (fun older => takes older other) = [] :=
          List.filter_eq_nil_iff.mpr (fun older member => by simpa using (first older member).2)
        rw [List.filter_cons_of_pos (by exact own), none]
      · have later : topic ∈ accepted := (List.mem_cons.mp listed).resolve_left (Ne.symm here)
        rw [List.filter_cons_of_neg (by simpa using (first topic later).1)]
        exact ih later rest

theorem handle_instruction_things (g : Gateway) (things : List Thing) (prior stray : Bytes × Outputs)
    (topic payload : Bytes) (signed : SignedInstruction g payload) :
    (handleInstruction g.getHmac g.secretKey things prior stray topic payload).map HandlerCall.thing =
      things.filter (fun thing => thing.instructionTopic = printed topic) := by
  obtain ⟨parsed, same⟩ := signed prior stray
  simp only [handleInstruction, if_pos parsed, if_pos same, List.map_map]
  exact List.map_id _

def handlerThings (stored : List Thing) : Handler → List Thing
  | .httpAck => []
  | .instruction _ => stored

theorem called_things_addressed (g : Gateway) (things : List Thing) (stack : Nat → Stack) (c : Client Handler)
    (md : MessageData) (signed : SignedInstruction g (payloadBytes c md.message)) :
    calledThings g things stack (addressed c md) = (addressed c md).flatMap (fun call =>
      handlerThings (things.filter (fun thing => thing.instructionTopic = printed (topicBytes c md.topicName))) call.fp) := by
  apply List.flatMap_congr
  intro call member
  obtain ⟨i, _, found⟩ := List.mem_filterMap.mp member
  obtain ⟨fp, _, rfl⟩ := Option.map_eq_some_iff.mp found
  cases fp with
  | httpAck => rfl
  | instruction place => exact handle_instruction_things g things _ _ _ _ signed

theorem slots_things (slots : List (Bytes × Option Handler)) (topic : Bytes) (stored : List Thing) :
    (slots.filterMap (serving topic)).flatMap (fun served => handlerThings stored served.2) =
      ((slots.filterMap instructionFilter).filter (fun topicFilter => takes topicFilter topic)).flatMap (fun _ => stored) := by
  induction slots with
  | nil => rfl
  | cons slot slots ih =>
      obtain ⟨topicFilter, handler⟩ := slot
      have missing : instructionFilter (topicFilter, none) = none := rfl
      have ack : instructionFilter (topicFilter, some .httpAck) = none := rfl
      have instruction : ∀ p, instructionFilter (topicFilter, some (.instruction p)) = some topicFilter := fun _ => rfl
      simp only [List.filterMap_cons]
      by_cases taken : takes topicFilter topic = true
      · rcases handler with _ | _ | _
        · simpa [serving, missing] using ih
        · simpa [serving, taken, ack, handlerThings] using ih
        · simpa [serving, taken, instruction, handlerThings] using ih
      · rcases handler with _ | _ | _
        · simpa [serving, missing] using ih
        · simpa [serving, taken, ack] using ih
        · simpa [serving, taken, instruction] using ih

theorem dispatching_exactly_once (depth : Nat) (x : Session) (inv : Dispatching x) : ExactlyOnce depth x := by
  intro thing accepted s cycle md stack table things topicEq signed undisturbed
  have array : s.client.messageHandlers.length = MAX_MESSAGE_HANDLERS := by rw [table, inv.array]
  have whole : printed thing.instructionTopic = thing.instructionTopic := printed_of_nul_free _ (inv.nulFree thing accepted)
  have listed := List.mem_map_of_mem (f := Thing.instructionTopic) accepted
  have filters : ((instructionFilters s.client.messageHandlers).filter (fun other => takes other thing.instructionTopic)) =
      [thing.instructionTopic] := by
    apply List.perm_singleton.mp
    rw [← accepted_taken _ thing.instructionTopic listed inv.apart, table]
    exact inv.filters.filter _
  have stored : x.sys.host.registeredThings.filter (fun other => other.instructionTopic = thing.instructionTopic) = [thing] :=
    Registry.owns_stored _ thing (inv.owns thing accepted)
  rw [invoked_undisturbed _ cycle md s undisturbed,
    called_things_addressed x.gateway _ stack s.client md signed, topicEq, whole, things, stored]
  have byHandler : ∀ calls : List (Invocation Handler), calls.flatMap (fun call => handlerThings [thing] call.fp) =
      (calls.map (served s.client.messageHandlers)).flatMap (fun call => handlerThings [thing] call.2) :=
    fun calls => by rw [List.flatMap_map]; rfl
  rw [byHandler, addressed_served s.client md array, topicEq, slots_things]
  exact congrArg (fun listed => List.flatMap (fun _ => [thing]) listed) filters

-- The statics of the gateway before its first call, and the application's memory.
def sessionStart (g : Gateway) (world : World) (scripts : List (List AppCommand)) (memory : Nat → ThingStruct) : Session where
  gateway := g
  sys :=
    { client := ⟨0, 0, fun _ => 0, 0, false, false, List.replicate MAX_MESSAGE_HANDLERS ⟨none, none⟩, none, []⟩
      world := world
      host := ⟨-1, [], ⟨memory, []⟩, scripts⟩
      cycles := 0
      log := [] }
  accepted := []

theorem start_dispatching (g : Gateway) (world : World) (scripts : List (List AppCommand)) (memory : Nat → ThingStruct) :
    Dispatching (sessionStart g world scripts memory) where
  array := rfl
  filters := .refl _
  owned := owned_empty _ _ rfl
  owns _ listed := nomatch listed
  apart := .nil
  nulFree _ listed := nomatch listed

def lampInstruction : Bytes := ascii "\x7b\"thing_key\":\"k\",\"alert_key\":\"a\",\"instruction\":\x7b\"on\":1\x7d\x7d"

-- The HMACs under the key "secret" of lampInstruction and of the lamp's registration at the time 1.
def instructionHash : Bytes := ascii "28d099815878db94df98d51ae640cb941b5d15f6ce15e69520d581a75e4ef09b"
def registerHash : Bytes := ascii "ae967f3c9c044279f096ba6fd3d6f6d021de61c4a6932c11af42ef18c4ce8177"

def lampGateway : Gateway where
  getHmac _ message := if message = lampInstruction then instructionHash else registerHash
  lzfCompressData := some
  secretKey := ascii "secret"
  accessKey := ascii "access"
  clientId := []
  stack _ := ⟨([], ⟨[], [], [], []⟩), ([], ⟨[], [], [], []⟩), ([], 0), ([], 0), [], 0, 0⟩

def lampTopic : Bytes := ascii "Altizon/Datonis/access/thing/k/executeInstruction"

def lampThing : Thing := ⟨0, lampTopic, some 7⟩

def registerAck : Inbound :=
  .publish false false 0 (ascii "Altizon/Datonis/_EX_CLIENT_1/httpAck") 0
    (Value.object (codeFirst registerHash (ascii "200"))).text

-- The answers to a connect and a register: CONNACK, SUBACK, PUBACK, the acknowledgement of Datonis, SUBACK.
def sessionAnswers : List Inbound :=
  [.other 0x20 [0, 0], .other 0x90 [0, 1, 1], .ack PUBACK 0 2, registerAck, .other 0x90 [0, 3, 2]]

def freshMemory : Nat → ThingStruct := fun _ => ⟨[], [], [], [], none⟩

def lampSession (rounds : Nat) : Session :=
  sessionStart lampGateway
    ⟨(List.replicate rounds sessionAnswers).flatten.map arrivalOf, List.replicate 20 true, List.replicate 20 1, []⟩ [] freshMemory

def lampCreated : SessionCall := .create 0 (some (ascii "k")) (some (ascii "n")) none (some 7)

def lampCalls : List SessionCall := [.connect (ascii "1"), lampCreated, .register (ascii "1") 0]

theorem lamp_fits : (lampSession 1).FitsAll 0 lampCalls := by
  let created := ((lampSession 1).step 0 (.connect (ascii "1"))).step 0 lampCreated
  have run : created.registry.registered = [] ∧ (created.registry.things 0).handler.isSome = true ∧
      (usedSlots created.sys.client.messageHandlers).length < MAX_MESSAGE_HANDLERS ∧ created.accepted = [] := by decide +kernel
  obtain ⟨registered, handler, slots, none⟩ := run
  have unlisted : ∀ q, q ∉ created.registry.registered := by
    rw [registered]
    exact fun _ listed => nomatch listed
  refine ⟨rfl, (fun thing listed => nomatch listed), fun _ => ⟨?_, ?_⟩, trivial⟩
  · exact (congrArg List.length registered).trans_lt (by decide)
  · rw [if_pos handler]
    refine ⟨unlisted 0, fun q listed => absurd listed (unlisted q), slots, fun thing listed => ?_⟩
    exact nomatch (none ▸ listed : thing ∈ [])

def lampMembers : Members :=
  .cons (.string (ascii "thing_key")) (.string (ascii "k")) (.cons (.string (ascii "alert_key")) (.string (ascii "a"))
    (.cons (.string (ascii "instruction")) (.object (.cons (.string (ascii "on")) (.primitive (ascii "1")) .nil))
      (.cons (.string (ascii "hash")) (.string instructionHash) .nil)))

def lampMessage : Value := .object lampMembers

theorem lamp_message_signed (clientId : Bytes) : SignedInstruction { lampGateway with clientId := clientId } lampMessage.text := by
  have valid : lampMessage.wellFormed = true := by decide +kernel
  have fits : lampMessage.nodes ≤ 100 := by decide +kernel
  have rebuilt := clean_rebuilt lampMembers valid fits (by decide +kernel)
  have whole : printed lampMessage.text = lampMessage.text := by decide +kernel
  intro prior stray
  have original : (parseInstructionJson lampMessage.text prior stray).originalJson = (unsignedValue lampMessage).text :=
    (rebuilt prior stray).2
  have hash : (parseInstructionJson lampMessage.text prior stray).out.hash = instructionHash := by
    rw [parse_document _ prior stray lampMessage (compact_document lampMessage valid fits), walk_hash]
    have listed : (signatures lampMessage.strings).getLast? = some instructionHash := by decide +kernel
    rw [listed]
    rfl
  have signed : lampGateway.getHmac lampGateway.secretKey (unsignedValue lampMessage).text = instructionHash := by
    decide +kernel
  rw [whole, original, hash]
  exact ⟨(rebuilt prior stray).1.ge, signed.symm⟩

-- Two rounds of connecting and registering, as after a lost connection.
def lampAgain : Session := (lampSession 2).run 0 (lampCalls ++ [.connect (ascii "1"), .register (ascii "1") 0])

def lampTable : List (MessageHandler Handler) :=
  [⟨some (ascii "Altizon/Datonis/_EX_CLIENT_1/httpAck"), some .httpAck⟩, ⟨some lampTopic, some (.instruction 0)⟩] ++
    List.replicate 18 ⟨none, none⟩

theorem lamp_registered_again : lampAgain.sys.client.messageHandlers = lampTable ∧
    lampAgain.sys.host.registeredThings = [lampThing, lampThing] ∧ lampAgain.accepted = [lampThing, lampThing] := by
  decide +kernel

def instructionArrived : GatewaySys where
  client := { mqttClient ⟨0, 0, fun _ => 0, 0, false, false, [], none, []⟩ 4096 with
    readbuf := fun i => (plainPublish lampTopic lampMessage.text).wire.getD i 0, messageHandlers := lampTable }
  world := ⟨[], [], [], []⟩
  host := ⟨202, [], ⟨fun _ => ⟨ascii "k", ascii "n", [], lampTopic, some 7⟩, [0, 0]⟩, []⟩
  cycles := 0
  log := []

def arrivedMessage : MessageData :=
  let publish := mqttDeserializePublish instructionArrived.client.readbuf ⟨0, 0, 0, 0, 0, 0⟩ ⟨0, 0⟩
  ⟨publish.topicName, publish.message⟩

end Aliot
