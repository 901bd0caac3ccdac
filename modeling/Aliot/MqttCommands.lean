import Aliot.MqttClient

set_option autoImplicit false

namespace Aliot

variable {H σ ε : Type}

def CONNECT : Nat := 1
def SUBSCRIBE : Nat := 8
def UNSUBSCRIBE : Nat := 10
def UNSUBACK : Nat := 11
def DISCONNECT : Nat := 14

structure MQTTPacketWillOptions where
  topicName : Bytes
  message : Bytes
  retained : Nat
  qos : Nat

-- A user name or password of none has neither a cstring nor data.
structure MQTTPacketConnectData where
  mqttVersion : Nat
  clientID : Bytes
  keepAliveInterval : UInt16
  cleansession : Nat
  willFlag : Nat
  will : MQTTPacketWillOptions
  username : Option Bytes
  password : Option Bytes

def connectDataInitializer : MQTTPacketConnectData := ⟨4, [], 60, 1, 0, ⟨[], [], 0, 0⟩, none, none⟩

def writeMQTTString (mqttstring : Bytes) : Bytes := writeInt mqttstring.length ++ mqttstring

def optionalString (mqttstring : Option Bytes) : Bytes := (mqttstring.map writeMQTTString).getD []

def mqttSerializeConnectLength (options : MQTTPacketConnectData) : Nat :=
  (if options.mqttVersion = 3 then 12 else if options.mqttVersion = 4 then 10 else 0) + (options.clientID.length + 2) +
    (if options.willFlag ≠ 0 then options.will.topicName.length + 2 + (options.will.message.length + 2) else 0) +
    (options.username.elim 0 (fun username => username.length + 2)) +
    (options.password.elim 0 (fun password => password.length + 2))

def connectFlags (options : MQTTPacketConnectData) : UInt8 :=
  UInt8.ofNat (options.cleansession % 2 * 2 +
    (if options.willFlag ≠ 0 then 4 + options.will.qos % 4 * 8 + options.will.retained % 2 * 32 else 0) +
    options.password.isSome.toNat * 64 + options.username.isSome.toNat * 128)

def mqttSerializeConnect (buflen : Nat) (options : MQTTPacketConnectData) : Int × Bytes :=
  let len := mqttSerializeConnectLength options
  if mqttPacketLen len > buflen then (MQTTPACKET_BUFFER_TOO_SHORT, [])
  else
    let protocol := if options.mqttVersion = 4 then writeMQTTString (ascii "MQTT") ++ [4]
      else writeMQTTString (ascii "MQIsdp") ++ [3]
    let will := if options.willFlag ≠ 0 then writeMQTTString options.will.topicName ++ writeMQTTString options.will.message
      else []
    let bytes := headerByte CONNECT 0 0 0 :: (mqttPacketEncode len ++ protocol ++ [connectFlags options] ++
      writeInt options.keepAliveInterval.toNat ++ writeMQTTString options.clientID ++ will ++
      optionalString options.username ++ optionalString options.password)
    (bytes.length, bytes)

def mqttSerializeDisconnect (buflen : Nat) : Int × Bytes :=
  if buflen < 2 then (MQTTPACKET_BUFFER_TOO_SHORT, [])
  else
    let bytes := headerByte DISCONNECT 0 0 0 :: mqttPacketEncode 0
    (bytes.length, bytes)

def serializeFilter (buflen packettype : Nat) (packetid : UInt16) (topicFilter requested : Bytes) : Int × Bytes :=
  let rem_len := 2 + (2 + topicFilter.length + requested.length)
  if mqttPacketLen rem_len > buflen then (MQTTPACKET_BUFFER_TOO_SHORT, [])
  else
    let bytes := headerByte packettype 0 1 0 :: (mqttPacketEncode rem_len ++ writeInt packetid.toNat ++
      writeMQTTString topicFilter ++ requested)
    (bytes.length, bytes)

def mqttSerializeSubscribe (buflen : Nat) (packetid : UInt16) (topicFilter : Bytes) (requestedQoS : Nat) : Int × Bytes :=
  serializeFilter buflen SUBSCRIBE packetid topicFilter [UInt8.ofNat requestedQoS]

def mqttSerializeUnsubscribe (buflen : Nat) (packetid : UInt16) (topicFilter : Bytes) : Int × Bytes :=
  serializeFilter buflen UNSUBSCRIBE packetid topicFilter []

structure Connack where
  rc : Int
  connackRc : UInt8
deriving DecidableEq

def mqttDeserializeConnack (buf : Nat → UInt8) (connack_rc : UInt8) : Connack :=
  if headerType (buf 0) ≠ CONNACK then ⟨0, connack_rc⟩
  else
    let (rc, mylen) := mqttPacketDecodeBuf buf 1
    if mylen < 2 then ⟨rc, connack_rc⟩ else ⟨1, buf (1 + rc + 1)⟩

def readChar (byte : UInt8) : Int := if byte < 128 then byte.toNat else byte.toNat - 256

structure Suback where
  rc : Int
  packetid : UInt16
  grantedQoS : Int
deriving DecidableEq

-- With maxcount 1 the loop fails at the third code; the second one goes past the caller's variable.
def mqttDeserializeSuback (buf : Nat → UInt8) (packetid : UInt16) (grantedQoS : Int) : Suback :=
  if headerType (buf 0) ≠ SUBACK then ⟨0, packetid, grantedQoS⟩
  else
    let (rc, mylen) := mqttPacketDecodeBuf buf 1
    if mylen < 2 then ⟨rc, packetid, grantedQoS⟩
    else
      ⟨if mylen - 2 > 2 then -1 else 1, UInt16.ofNat (readInt buf (1 + rc)),
        if mylen - 2 > 0 then readChar (buf (1 + rc + 2)) else grantedQoS⟩

def mqttDeserializeUnsuback (buf : Nat → UInt8) (packetid : UInt16) : Ack :=
  let ack := mqttDeserializeAck buf packetid
  if ack.packettype = UNSUBACK then { ack with rc := 1 } else ack

namespace Sys

def withConnected (s : Sys H σ ε) (isconnected : Bool) : Sys H σ ε :=
  { s with client := { s.client with isconnected := isconnected } }

def withHandlers (s : Sys H σ ε) (messageHandlers : List (MessageHandler H)) : Sys H σ ε :=
  { s with client := { s.client with messageHandlers := messageHandlers } }

def withNextPacketId (s : Sys H σ ε) : Sys H σ ε := { s with client := getNextPacketId s.client }

def withKeepAlive (s : Sys H σ ε) (keepAliveInterval : Nat) : Sys H σ ε :=
  { s with client := { s.client with keepAliveInterval := keepAliveInterval } }

end Sys

-- rc and the state at the exit label of MQTTConnect.
def connectAttempt (call : Call H σ ε) (options : Option MQTTPacketConnectData) (s : Sys H σ ε) : Int × Sys H σ ε :=
  let (checks, s) := startTimer s
  if s.client.isconnected then (FAILURE, s)
  else
    let options := options.getD connectDataInitializer
    let s := s.withKeepAlive options.keepAliveInterval.toNat
    let (len, packet) := mqttSerializeConnect s.client.bufSize options
    if len ≤ 0 then (FAILURE, s)
    else
      let (rc, s) := sendPacket 0 packet s
      if rc ≠ SUCCESS then (rc, s)
      else
        let (rc, s) := waitfor call CONNACK checks FAILURE s
        if rc = CONNACK then
          let connack := mqttDeserializeConnack s.client.readbuf 255
          if connack.rc = 1 then (connack.connackRc.toNat, s) else (FAILURE, s)
        else (FAILURE, s)

def mqttConnect (call : Call H σ ε) (options : Option MQTTPacketConnectData) (s : Sys H σ ε) : Int × Sys H σ ε :=
  let (rc, s) := connectAttempt call options s
  if rc = SUCCESS then (rc, s.withConnected true) else (rc, s)

def installHandler (table : List (MessageHandler H)) (topicFilter : Bytes) (messageHandler : H) :
    Option (List (MessageHandler H)) :=
  ((table.take MAX_MESSAGE_HANDLERS).findIdx? (fun entry => entry.topicFilter.isNone)).map
    (fun i => table.set i ⟨some topicFilter, some messageHandler⟩)

-- What MQTTSubscribe does with the SUBACK in readbuf; rc is still that of sendPacket.
def acceptSuback (topicFilter : Bytes) (messageHandler : H) (s : Sys H σ ε) : Int × Sys H σ ε :=
  let suback := mqttDeserializeSuback s.client.readbuf 0 (-1)
  let rc := if suback.rc = 1 then suback.grantedQoS else SUCCESS
  if rc ≠ 0x80 then
    match installHandler s.client.messageHandlers topicFilter messageHandler with
    | some table => (0, s.withHandlers table)
    | none => (rc, s)
  else (rc, s)

-- The way to the wait that MQTTSubscribe and MQTTUnsubscribe share: the checks left of the timer, none on failure.
def sendCommand (serialize : Nat → UInt16 → Int × Bytes) (s : Sys H σ ε) : Option Nat × Sys H σ ε :=
  let (checks, s) := startTimer s
  if !s.client.isconnected then (none, s)
  else
    let s := s.withNextPacketId
    let (len, packet) := serialize s.client.bufSize (UInt16.ofNat s.client.nextPacketid)
    if len ≤ 0 then (none, s)
    else
      let (rc, s) := sendPacket 0 packet s
      if rc ≠ SUCCESS then (none, s) else (some checks, s)

def mqttSubscribe (call : Call H σ ε) (topicFilter : Bytes) (qos : Nat) (messageHandler : H) (s : Sys H σ ε) :
    Int × Sys H σ ε :=
  match sendCommand (fun buflen id => mqttSerializeSubscribe buflen id topicFilter qos) s with
  | (none, s) => (FAILURE, s)
  | (some checks, s) =>
      let (rc, s) := waitfor call SUBACK checks FAILURE s
      if rc = SUBACK then acceptSuback topicFilter messageHandler s else (FAILURE, s)

-- Whatever MQTTDeserialize_unsuback returns, rc is 0.
def mqttUnsubscribe (call : Call H σ ε) (topicFilter : Bytes) (s : Sys H σ ε) : Int × Sys H σ ε :=
  match sendCommand (fun buflen id => mqttSerializeUnsubscribe buflen id topicFilter) s with
  | (none, s) => (FAILURE, s)
  | (some checks, s) =>
      let (rc, s) := waitfor call UNSUBACK checks FAILURE s
      if rc = UNSUBACK then
        if (mqttDeserializeUnsuback s.client.readbuf 0).rc = 1 then (0, s) else (SUCCESS, s)
      else (FAILURE, s)

def mqttDisconnect (s : Sys H σ ε) : Int × Sys H σ ε :=
  let (len, packet) := mqttSerializeDisconnect s.client.bufSize
  let (_, s) := startTimer s
  let (rc, s) := if len > 0 then sendPacket 0 packet s else (FAILURE, s)
  (rc, s.withConnected false)

end Aliot
