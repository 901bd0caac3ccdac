import Aliot.MqttPacket

set_option autoImplicit false

namespace Aliot

def MAX_PACKET_ID : Nat := 65535
def MAX_MESSAGE_HANDLERS : Nat := 20
def MAX_INCOMING_QOS2_MESSAGES : Nat := 20

def QOS0 : Nat := 0
def QOS1 : Nat := 1
def QOS2 : Nat := 2

variable {H σ ε : Type}

structure MessageHandler (H : Type) where
  topicFilter : Option Bytes
  fp : Option H
deriving DecidableEq

structure Client (H : Type) where
  nextPacketid : Nat
  bufSize : Nat
  readbuf : Nat → UInt8
  keepAliveInterval : Nat
  pingOutstanding : Bool
  isconnected : Bool
  messageHandlers : List (MessageHandler H)
  defaultMessageHandler : Option H
  incomingQos2Messages : List UInt16

-- MQTTClient on a client that is used again or, as a static one, all zero.
def mqttClient (c : Client H) (buf_size : Nat) : Client H :=
  { c with
    messageHandlers := c.messageHandlers.map (fun entry => { entry with topicFilter := none })
    bufSize := buf_size
    isconnected := false
    pingOutstanding := false
    defaultMessageHandler := none
    incomingQos2Messages := List.replicate MAX_INCOMING_QOS2_MESSAGES 0 }

structure MessageData where
  topicName : MQTTLenString
  message : MQTTMessage

-- What readPacket returns and leaves in readbuf, and what the uninitialised locals of its cycle hold.
structure Arrival where
  rc : Int
  readbuf : Nat → UInt8
  message : MQTTMessage
  topicName : MQTTLenString
  packetid : UInt16

-- The outcomes to come: of readPacket, of sendPacket, the checks of each new timer, and of ping_timer.
structure World where
  arrivals : List Arrival
  sends : List Bool
  timers : List Nat
  pings : List Bool

-- `cycle` numbers the call of cycle that causes the event, 0 stands for none.
inductive Event (ε : Type) where
  | received (id : UInt16) (table : List UInt16)
  | delivered (cycle : Nat) (message : MQTTMessage)
  | sent (cycle : Nat) (packet : Bytes) (ok : Bool)
  | note (event : ε)
deriving DecidableEq

-- The newest event comes first in the log.
structure Sys (H σ ε : Type) where
  client : Client H
  world : World
  host : σ
  cycles : Nat
  log : List (Event ε)

namespace Sys

def record (s : Sys H σ ε) (event : Event ε) : Sys H σ ε := { s with log := event :: s.log }

def withTable (s : Sys H σ ε) (table : List UInt16) : Sys H σ ε :=
  { s with client := { s.client with incomingQos2Messages := table } }

def startCycle (s : Sys H σ ε) : Sys H σ ε := { s with cycles := s.cycles + 1 }

def arrive (s : Sys H σ ε) (arrival : Arrival) (arrivals : List Arrival) : Sys H σ ε :=
  { s with world := { s.world with arrivals := arrivals }, client := { s.client with readbuf := arrival.readbuf } }

end Sys

abbrev Call (H σ ε : Type) := H → MessageData → Sys H σ ε → Sys H σ ε

def getNextPacketId (c : Client H) : Client H :=
  { c with nextPacketid := if c.nextPacketid = MAX_PACKET_ID then 1 else c.nextPacketid + 1 }

def sendPacket (cycle : Nat) (packet : Bytes) (s : Sys H σ ε) : Int × Sys H σ ε :=
  match s.world.sends with
  | [] => (FAILURE, s.record (.sent cycle packet false))
  | ok :: sends =>
      (if ok then SUCCESS else FAILURE,
        { s with world := { s.world with sends := sends } }.record (.sent cycle packet ok))

def isQoS2msgidFree (table : List UInt16) (id : UInt16) : Bool := !table.contains id

def useQoS2msgid (table : List UInt16) (id : UInt16) : Option (List UInt16) :=
  if table.contains 0 then some (table.replace 0 id) else none

def freeQoS2msgid (table : List UInt16) (id : UInt16) : List UInt16 := table.replace id 0

def isTopicMatched : Bytes → Bytes → Bool
  | [], curn => curn.isEmpty
  | _ :: _, [] => false
  | f :: curf, n :: curn =>
      if n = 0x2f && f ≠ 0x2f then false
      else if f ≠ 0x2b && f ≠ 0x23 && f ≠ n then false
      else if f = 0x2b then isTopicMatched curf (curn.dropWhile (fun c => c != 0x2f))
      else if f = 0x23 then isTopicMatched curf []
      else isTopicMatched curf curn

def topicBytes (c : Client H) (topicName : MQTTLenString) : Bytes :=
  Memory.load c.readbuf topicName.data topicName.len

-- An earlier handler may have changed the table and readbuf: both are read anew for every entry.
def deliverLoop (call : Call H σ ε) (md : MessageData) : List Nat → Int → Sys H σ ε → Int × Sys H σ ε
  | [], rc, s => (rc, s)
  | i :: is, rc, s =>
      match s.client.messageHandlers[i]? with
      | some ⟨some topicFilter, some fp⟩ =>
          let topic := topicBytes s.client md.topicName
          if topic = topicFilter || isTopicMatched topicFilter topic then
            deliverLoop call md is SUCCESS (call fp md s)
          else deliverLoop call md is rc s
      | _ => deliverLoop call md is rc s

def deliverMessage (call : Call H σ ε) (cycle : Nat) (md : MessageData) (s : Sys H σ ε) : Int × Sys H σ ε :=
  let s := s.record (.delivered cycle md.message)
  let (rc, s) := deliverLoop call md (List.range MAX_MESSAGE_HANDLERS) FAILURE s
  if rc = FAILURE then
    match s.client.defaultMessageHandler with
    | some fp => (SUCCESS, call fp md s)
    | none => (rc, s)
  else (rc, s)

def keepalive (cycle : Nat) (s : Sys H σ ε) : Int × Sys H σ ε :=
  if s.client.keepAliveInterval = 0 then (SUCCESS, s)
  else
    let expired := s.world.pings.headD false
    let s := { s with world := { s.world with pings := s.world.pings.tail } }
    if expired && !s.client.pingOutstanding then
      let (len, packet) := mqttSerializePingreq s.client.bufSize
      if len > 0 then
        let (rc, s) := sendPacket cycle packet s
        if rc = SUCCESS then (rc, { s with client := { s.client with pingOutstanding := true } }) else (rc, s)
      else (FAILURE, s)
    else (FAILURE, s)

def finishCycle (cycle packet_type : Nat) (s : Sys H σ ε) : Int × Sys H σ ε := (packet_type, (keepalive cycle s).2)

def sendReply (cycle : Nat) (reply : Int × Bytes) (s : Sys H σ ε) : Int × Sys H σ ε :=
  if reply.1 ≤ 0 then (FAILURE, s) else sendPacket cycle reply.2 s

def acceptPublish (call : Call H σ ε) (cycle : Nat) (md : MessageData) (s : Sys H σ ε) : Sys H σ ε :=
  let msg := md.message
  if msg.qos ≠ QOS2 then (deliverMessage call cycle md s).2
  else
    let table := s.client.incomingQos2Messages
    let s := s.record (.received msg.id table)
    if isQoS2msgidFree table msg.id then
      match useQoS2msgid table msg.id with
      | some table => (deliverMessage call cycle md (s.withTable table)).2
      | none => s
    else s

-- The PUBLISH branch of cycle after the delivery. A QoS of 3 leaves len at 0.
def replyPublish (cycle : Nat) (msg : MQTTMessage) (s : Sys H σ ε) : Int × Sys H σ ε :=
  if msg.qos = QOS0 then finishCycle cycle PUBLISH s
  else
    let reply :=
      if msg.qos = QOS1 then mqttSerializeAck s.client.bufSize PUBACK 0 msg.id
      else if msg.qos = QOS2 then mqttSerializeAck s.client.bufSize PUBREC 0 msg.id
      else (0, [])
    let (rc, s) := sendReply cycle reply s
    if rc = FAILURE then (FAILURE, s) else finishCycle cycle PUBLISH s

def cyclePublish (call : Call H σ ε) (cycle : Nat) (arrival : Arrival) (s : Sys H σ ε) : Int × Sys H σ ε :=
  let publish := mqttDeserializePublish s.client.readbuf arrival.message arrival.topicName
  if publish.rc ≠ 1 then (PUBLISH, s)
  else replyPublish cycle publish.message (acceptPublish call cycle ⟨publish.topicName, publish.message⟩ s)

def cycleAck (cycle packet_type : Nat) (arrival : Arrival) (s : Sys H σ ε) : Int × Sys H σ ε :=
  let ack := mqttDeserializeAck s.client.readbuf arrival.packetid
  if ack.rc ≠ 1 then (FAILURE, s)
  else
    let reply := mqttSerializeAck s.client.bufSize (if packet_type = PUBREC then PUBREL else PUBCOMP) 0 ack.packetid
    let (rc, s) := sendReply cycle reply s
    if rc ≠ SUCCESS then (FAILURE, s)
    else
      let s :=
        if packet_type = PUBREL then s.withTable (freeQoS2msgid s.client.incomingQos2Messages ack.packetid) else s
      finishCycle cycle packet_type s

-- unsigned short packet_type = readPacket(c, timer)
def packetType (rc : Int) : Nat := (rc % 65536).toNat

def cycle (call : Call H σ ε) (s : Sys H σ ε) : Int × Sys H σ ε :=
  let s := s.startCycle
  match s.world.arrivals with
  | [] => finishCycle s.cycles (packetType FAILURE) s
  | arrival :: arrivals =>
      let s := s.arrive arrival arrivals
      let packet_type := packetType arrival.rc
      if packet_type = PUBLISH then cyclePublish call s.cycles arrival s
      else if packet_type = PUBREL ∨ packet_type = PUBREC then cycleAck s.cycles packet_type arrival s
      else if packet_type = PINGRESP then
        finishCycle s.cycles packet_type { s with client := { s.client with pingOutstanding := false } }
      else finishCycle s.cycles packet_type s

def startTimer (s : Sys H σ ε) : Nat × Sys H σ ε :=
  (s.world.timers.headD 0, { s with world := { s.world with timers := s.world.timers.tail } })

def yieldLoop (call : Call H σ ε) : Nat → Sys H σ ε → Int × Sys H σ ε
  | 0, s => (SUCCESS, s)
  | checks + 1, s =>
      let (rc, s) := cycle call s
      if rc = FAILURE then (FAILURE, s) else yieldLoop call checks s

def mqttYield (call : Call H σ ε) (s : Sys H σ ε) : Int × Sys H σ ε :=
  let (checks, s) := startTimer s
  yieldLoop call checks s

-- A timer that expires leaves the result of the last cycle.
def waitfor (call : Call H σ ε) (packet_type : Nat) : Nat → Int → Sys H σ ε → Int × Sys H σ ε
  | 0, rc, s => (rc, s)
  | checks + 1, _, s =>
      let (rc, s) := cycle call s
      if rc = packet_type then (rc, s) else waitfor call packet_type checks rc s

def awaitAck (call : Call H σ ε) (packet_type checks : Nat) (s : Sys H σ ε) : Int × Sys H σ ε :=
  let (rc, s) := waitfor call packet_type checks FAILURE s
  if rc = packet_type then
    if (mqttDeserializeAck s.client.readbuf 0).rc ≠ 1 then (FAILURE, s) else (SUCCESS, s)
  else (FAILURE, s)

structure Outgoing where
  qos : Nat
  retained : Nat
  id : UInt16
  payload : Bytes

def mqttPublish (call : Call H σ ε) (topicName : Bytes) (message : Outgoing) (s : Sys H σ ε) : Int × Sys H σ ε :=
  let (checks, s) := startTimer s
  if !s.client.isconnected then (FAILURE, s)
  else
    let numbered := message.qos = QOS1 || message.qos = QOS2
    let s := if numbered then { s with client := getNextPacketId s.client } else s
    let id := if numbered then UInt16.ofNat s.client.nextPacketid else message.id
    let (len, packet) :=
      mqttSerializePublish s.client.bufSize 0 message.qos message.retained id topicName message.payload
    if len ≤ 0 then (FAILURE, s)
    else
      let (rc, s) := sendPacket 0 packet s
      if rc ≠ SUCCESS then (rc, s)
      else if message.qos = QOS1 then awaitAck call PUBACK checks s
      else if message.qos = QOS2 then awaitAck call PUBCOMP checks s
      else (SUCCESS, s)

end Aliot
