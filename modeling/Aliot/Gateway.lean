import Aliot.Ack
import Aliot.ClientRun
import Aliot.Registry

set_option autoImplicit false

namespace Aliot

def ERR_OK : Int := 0
def ERR_UNAUTHORIZED : Int := 1
def ERR_INVALID_REQUEST : Int := 2
def ERR_EXCESSIVE_RATE : Int := 3
def ERR_FAILED : Int := 4
def ERR_NOT_ACCEPTABLE : Int := 5
def ERR_TIMED_OUT : Int := 7
def ERR_BAD_REQUEST : Int := 8
def ERR_INTERNAL_SERVER_ERROR : Int := 9

def RETRIES_FOR_ACK : Nat := 5000

-- What the uninitialised variables of a call hold; smashed: the two globals once a text has run over buf of handle_http_ack.
structure Stack where
  prior : Bytes × Outputs
  stray : Bytes × Outputs
  strayAck : Bytes × Int
  smashed : Bytes × Int
  overrun : Bytes
  retained : Nat
  id : UInt16

-- Each call finds a stack of its own; LZFcompress_data is none where it never returns or writes behind compressedBuffer.
structure Gateway where
  getHmac : GetHmac
  lzfCompressData : Bytes → Option Bytes
  secretKey : Bytes
  accessKey : Bytes
  clientId : Bytes
  stack : Nat → Stack

-- handle_http_ack, and handle_instruction in an entry whose filter is the instruction_topic of the struct at `place`.
inductive Handler where
  | httpAck
  | instruction (place : Nat)
deriving DecidableEq

inductive AppCommand where
  | yield
  | transmit (qos : Nat) (topic json : Bytes) (flag : Int)

structure Host where
  httpReturnCode : Int
  httpAckContext : Bytes
  registry : Registry
  scripts : List (List AppCommand)

def Host.registeredThings (host : Host) : List Thing := host.registry.stored

-- reset: http_return_code = 408, by the call that began when the log had so many events.
inductive Note where
  | acked (payload context : Bytes) (code : Int)
  | reset (caller : Nat)
  | handled (call : HandlerCall)
deriving DecidableEq

abbrev GatewaySys := Sys Handler Host Note

def translateHttpCode (http_code : Int) : Int :=
  if http_code = 200 ∨ http_code = 202 then ERR_OK
  else if http_code = 401 then ERR_UNAUTHORIZED
  else if http_code = 406 then ERR_NOT_ACCEPTABLE
  else if http_code = 422 then ERR_INVALID_REQUEST
  else if http_code = 429 then ERR_EXCESSIVE_RATE
  else if http_code = 408 then ERR_TIMED_OUT
  else if http_code = 400 then ERR_BAD_REQUEST
  else if http_code = 500 then ERR_INTERNAL_SERVER_ERROR
  else ERR_FAILED

-- sprintf of "%.*s" runs past a payload of negative length up to some NUL.
def messageBytes {H : Type} (c : Client H) (overrun : Bytes) (message : MQTTMessage) : Bytes :=
  if message.payloadlen < 0 then overrun else Memory.load c.readbuf message.payload message.payloadlen.toNat

def ackStored (payload : Bytes) (globals : Bytes × Int) (s : GatewaySys) : GatewaySys :=
  { s with host := { s.host with httpAckContext := globals.1, httpReturnCode := globals.2 } }.record
    (.note (.acked payload globals.1 globals.2))

def ACK_BUF : Nat := 1000

def handleHttpAck (g : Gateway) (md : MessageData) (s : GatewaySys) : GatewaySys :=
  let stack := g.stack s.log.length
  let payload := messageBytes s.client stack.overrun md.message
  let prior := (s.host.httpAckContext, s.host.httpReturnCode)
  let buf := printed payload
  ackStored payload (if buf.length < ACK_BUF then parseHttpAck buf prior stack.strayAck else stack.smashed) s

def handleInstructionMessage (g : Gateway) (app : GatewaySys → GatewaySys) (md : MessageData) (s : GatewaySys) :
    GatewaySys :=
  let stack := g.stack s.log.length
  let calls := handleInstruction g.getHmac g.secretKey s.host.registeredThings stack.prior stack.stray
    (topicBytes s.client md.topicName) (messageBytes s.client stack.overrun md.message)
  calls.foldl (fun s call => app (s.record (.note (.handled call)))) s

def putJSONString (buffer key value : Bytes) : Bytes :=
  buffer ++ ascii "\"" ++ key ++ ascii "\":\"" ++ value ++ ascii "\""

def putJSONStringAndComma (buffer key value : Bytes) : Bytes := putJSONString buffer key value ++ ascii ","

def putJSONDouble (buffer key value : Bytes) : Bytes := buffer ++ ascii "\"" ++ key ++ ascii "\":" ++ value

def putJSONDoubleAndComma (buffer key value : Bytes) : Bytes := putJSONDouble buffer key value ++ ascii ","

def endJSON (buffer : Bytes) : Bytes := buffer ++ ascii "\x7d"

def signedJson (g : Gateway) (json : Bytes) : Bytes :=
  let hash := g.getHmac g.secretKey json
  let json := json.dropLast ++ ascii ","
  let json := putJSONStringAndComma json (ascii "hash") hash
  let json := putJSONStringAndComma json (ascii "access_key") g.accessKey
  let json := putJSONDoubleAndComma json (ascii "aliot_protocol_version") (ascii "2")
  endJSON json.dropLast

def sendData (g : Gateway) (call : Call Handler Host Note) (qos : Nat) (topic data : Bytes) (flag : Int)
    (s : GatewaySys) : Option (Int × GatewaySys) :=
  let stack := g.stack s.log.length
  if flag = 1 ∧ data.length > 1024 then
    let topic := ascii "Altizon/Datonis/lzf/" ++ g.clientId ++ ascii "/event"
    (g.lzfCompressData data).map (fun compressed => mqttPublish call topic ⟨qos, stack.retained, stack.id, compressed⟩ s)
  else some (mqttPublish call topic ⟨qos, stack.retained, stack.id, data⟩ s)

def resetReturnCode (caller : Nat) (s : GatewaySys) : GatewaySys :=
  { s with host := { s.host with httpReturnCode := 408 } }.record (.note (.reset caller))

def ackAccepted (hash : Bytes) (host : Host) : Prop :=
  host.httpReturnCode ≠ 408 ∧ host.httpAckContext = hash ∨
    host.httpReturnCode = 500 ∧ host.httpAckContext = ascii "PARSE_ERROR"

instance (hash : Bytes) (host : Host) : Decidable (ackAccepted hash host) := inferInstanceAs (Decidable (_ ∨ _))

def waitForAck (call : Call Handler Host Note) (hash : Bytes) (caller : Nat) : Nat → GatewaySys → GatewaySys
  | 0, s => s
  | retries + 1, s =>
      let s := (mqttYield call s).2
      if ackAccepted hash s.host then s else waitForAck call hash caller retries (resetReturnCode caller s)

def awaitVerdict (g : Gateway) (call : Call Handler Host Note) (json : Bytes) (caller : Nat) (sent : Int × GatewaySys) :
    Int × GatewaySys :=
  if sent.1 ≠ 0 then sent
  else
    let s := waitForAck call (g.getHmac g.secretKey json) caller RETRIES_FOR_ACK (resetReturnCode caller sent.2)
    (translateHttpCode s.host.httpReturnCode, s)

def encodeAndSendData (g : Gateway) (call : Call Handler Host Note) (qos : Nat) (topic json : Bytes) (flag : Int)
    (s : GatewaySys) : Option (Int × GatewaySys) :=
  (sendData g call qos topic (signedJson g json) flag s).map (awaitVerdict g call json s.log.length)

-- Nothing of the program runs behind a call that does not return; the model goes on as if it had not been made.
def runAppCommand (g : Gateway) (call : Call Handler Host Note) (s : GatewaySys) : AppCommand → GatewaySys
  | .yield => (mqttYield call s).2
  | .transmit qos topic json flag => (encodeAndSendData g call qos topic json flag s).elim s Prod.snd

def runScript (g : Gateway) (call : Call Handler Host Note) (s : GatewaySys) : GatewaySys :=
  (s.host.scripts.headD []).foldl (runAppCommand g call) { s with host := { s.host with scripts := s.host.scripts.tail } }

def dispatch (g : Gateway) (app : GatewaySys → GatewaySys) : Call Handler Host Note
  | .httpAck, md, s => handleHttpAck g md s
  | .instruction _, md, s => handleInstructionMessage g app md s

def gatewayCall (g : Gateway) : Nat → Call Handler Host Note
  | 0 => dispatch g id
  | depth + 1 => dispatch g (runScript g (gatewayCall g depth))

end Aliot
