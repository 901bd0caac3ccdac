import Aliot.Builders
import Aliot.EventReceived

set_option autoImplicit false

namespace Aliot.Http

structure HttpRequest where
  url : Bytes
  headers : List Bytes
  body : Bytes

-- libcurl: whether curl_easy_init finds a handle, and the response code after a request, 0 for none.
structure Curl where
  init : Bool
  perform : HttpRequest → Int

-- The code and the request, if there is one; none where the call does not return.
def encodeAndSendData (g : Gateway) (curl : Curl) (url json : Bytes) (flag : Int) : Option (Int × Option HttpRequest) :=
  if curl.init then
    let hash := g.getHmac g.secretKey json
    let header := [ascii "X-Access-Key:" ++ g.accessKey, ascii "X-Dtn-Signature:" ++ hash]
    let request : Option HttpRequest :=
      if json.length > 1024 ∧ flag = 1 then
        (g.lzfCompressData json).map (fun compressed =>
          ⟨url, header ++ [ascii "X-Compressed:LZF", ascii "Content-Type:application/octet-stream"], compressed⟩)
      else some ⟨url, header, json⟩
    request.map (fun request => (curl.perform request, some request))
  else some (0, none)

section Transmit

variable (g : Gateway) (curl : Curl)

def translated (sent : Option (Int × Option HttpRequest)) : Option (Int × Option HttpRequest) :=
  sent.map (fun (code, request) => (translateHttpCode code, request))

def registerThing (thing : ThingBean) (timestamp : Int) : Option (Int × Option HttpRequest) :=
  translated (encodeAndSendData g curl (ascii "http://api.datonis.io/api/v3/things/register.json")
    (getThingRegisterJson thing (Json.intText timestamp)) 0)

def transmitThingHeartbeat (thing : ThingBean) (timestamp : Int) : Option (Int × Option HttpRequest) :=
  translated (encodeAndSendData g curl (ascii "http://api.datonis.io/api/v3/things/heartbeat.json")
    (getThingHeartbeatJson thing (Json.intText timestamp)) 0)

def transmitThingData (thing : ThingBean) (value waypoint : Option Bytes) (timestamp : Int) : Option (Int × Option HttpRequest) :=
  translated (encodeAndSendData g curl (ascii "http://api.datonis.io/api/v3/things/event.json")
    (getThingDataJsonTs thing value waypoint (Json.intText timestamp)) 0)

def transmitCompressedThingData (thing : ThingBean) (value waypoint : Option Bytes) (timestamp : Int) :
    Option (Int × Option HttpRequest) :=
  translated (encodeAndSendData g curl (ascii "http://api.datonis.io/api/v3/things/event.json")
    (getThingDataJsonTs thing value waypoint (Json.intText timestamp)) 1)

def transmitThingAlert (thing : ThingBean) (level : Int) (message : Bytes) (data : Option Bytes) (timestamp : Int) :
    Option (Int × Option HttpRequest) :=
  translated (encodeAndSendData g curl (ascii "http://api.datonis.io/api/v3/alerts.json")
    (getThingAlertJson thing level message data (Json.intText timestamp)) 0)

def transmitThingDataPacket (packet : Bytes) : Option (Int × Option HttpRequest) :=
  translated (encodeAndSendData g curl (ascii "http://api.datonis.io/api/v3/things/event.json") packet 0)

def transmitCompressedThingDataPacket (packet : Bytes) : Option (Int × Option HttpRequest) :=
  translated (encodeAndSendData g curl (ascii "http://api.datonis.io/api/v3/things/event.json") packet 1)

end Transmit

inductive Transmission where
  | register (thing : ThingBean) (timestamp : Int)
  | heartbeat (thing : ThingBean) (timestamp : Int)
  | thingData (thing : ThingBean) (value waypoint : Option Bytes) (timestamp : Int)
  | compressedThingData (thing : ThingBean) (value waypoint : Option Bytes) (timestamp : Int)
  | thingAlert (thing : ThingBean) (level : Int) (message : Bytes) (data : Option Bytes) (timestamp : Int)
  | dataPacket (packet : Bytes)
  | compressedDataPacket (packet : Bytes)

namespace Transmission

def transmit (g : Gateway) (curl : Curl) : Transmission → Option (Int × Option HttpRequest)
  | register thing timestamp => registerThing g curl thing timestamp
  | heartbeat thing timestamp => transmitThingHeartbeat g curl thing timestamp
  | thingData thing value waypoint timestamp => transmitThingData g curl thing value waypoint timestamp
  | compressedThingData thing value waypoint timestamp => transmitCompressedThingData g curl thing value waypoint timestamp
  | thingAlert thing level message data timestamp => transmitThingAlert g curl thing level message data timestamp
  | dataPacket packet => transmitThingDataPacket g curl packet
  | compressedDataPacket packet => transmitCompressedThingDataPacket g curl packet

-- The text that is the caller's, or that the caller's arguments make.
def text : Transmission → Bytes
  | register thing timestamp => (Builder.register thing timestamp).json
  | heartbeat thing timestamp => (Builder.heartbeat thing timestamp).json
  | thingData thing value waypoint timestamp => (Builder.thingData thing value waypoint timestamp).json
  | compressedThingData thing value waypoint timestamp => (Builder.thingData thing value waypoint timestamp).json
  | thingAlert thing level message data timestamp => (Builder.thingAlert thing level message data timestamp).json
  | dataPacket packet => packet
  | compressedDataPacket packet => packet

def url : Transmission → Bytes
  | register .. => ascii "http://api.datonis.io/api/v3/things/register.json"
  | heartbeat .. => ascii "http://api.datonis.io/api/v3/things/heartbeat.json"
  | thingAlert .. => ascii "http://api.datonis.io/api/v3/alerts.json"
  | _ => ascii "http://api.datonis.io/api/v3/things/event.json"

def flag : Transmission → Int
  | compressedThingData .. => 1
  | compressedDataPacket .. => 1
  | _ => 0

end Transmission

-- A server: the value of the first header of a name, and the text of the body.
def headerValue (name : Bytes) (headers : List Bytes) : Option Bytes :=
  (headers.find? (fun header => header.takeWhile (· != 0x3a) == name)).map (fun header => header.drop (name.length + 1))

def openBody (request : HttpRequest) : Option Bytes :=
  if headerValue (ascii "X-Compressed") request.headers = some (ascii "LZF") then openText request.body
  else some request.body

structure Authentic (secretKey accessKey text : Bytes) (request : HttpRequest) : Prop where
  body : openBody request = some text
  access : headerValue (ascii "X-Access-Key") request.headers = some accessKey
  signature : headerValue (ascii "X-Dtn-Signature") request.headers =
    some (printDigest (Hmac.hmac Fips180.sha256 64 secretKey text))

theorem named_header (name value : Bytes) (rest : List Bytes) (colon : (0x3a : UInt8) ∉ name) :
    headerValue name ((name ++ [0x3a] ++ value) :: rest) = some value := by
  have prefixed : (name ++ [0x3a] ++ value).takeWhile (· != 0x3a) = name := by
    rw [List.append_assoc, List.takeWhile_append_of_pos]
    · simp
    · intro byte member
      exact bne_iff_ne.mpr (fun same => colon (same ▸ member))
  simp only [headerValue, List.find?_cons, prefixed, beq_self_eq_true, Option.map_some, Option.some.injEq]
  rw [List.drop_append_of_le_length (by simp)]
  simp

theorem other_header (name other value : Bytes) (rest : List Bytes) (colon : (0x3a : UInt8) ∉ other) (different : other ≠ name) :
    headerValue name ((other ++ [0x3a] ++ value) :: rest) = headerValue name rest := by
  have prefixed : (other ++ [0x3a] ++ value).takeWhile (· != 0x3a) = other := by
    rw [List.append_assoc, List.takeWhile_append_of_pos]
    · simp
    · intro byte member
      exact bne_iff_ne.mpr (fun same => colon (same ▸ member))
  simp only [headerValue, List.find?_cons, prefixed, beq_eq_false_iff_ne.mpr different]

theorem transmit_sends (g : Gateway) (curl : Curl) (t : Transmission) :
    t.transmit g curl = translated (encodeAndSendData g curl t.url t.text t.flag) := by
  cases t <;> rfl

-- Whether the body is compressed.
def Packs (t : Transmission) : Prop := t.text.length > 1024 ∧ t.flag = 1

def signedHeaders (g : Gateway) (text : Bytes) (others : List Bytes) : List Bytes :=
  [ascii "X-Access-Key:" ++ g.accessKey, ascii "X-Dtn-Signature:" ++ g.getHmac g.secretKey text] ++ others

theorem signed_headers_read (g : Gateway) (text : Bytes) (others : List Bytes) :
    headerValue (ascii "X-Access-Key") (signedHeaders g text others) = some g.accessKey ∧
      headerValue (ascii "X-Dtn-Signature") (signedHeaders g text others) = some (g.getHmac g.secretKey text) ∧
      headerValue (ascii "X-Compressed") (signedHeaders g text others) = headerValue (ascii "X-Compressed") others := by
  have accessName : ascii "X-Access-Key:" = ascii "X-Access-Key" ++ [0x3a] := by decide
  have signatureName : ascii "X-Dtn-Signature:" = ascii "X-Dtn-Signature" ++ [0x3a] := by decide
  have plain : (0x3a : UInt8) ∉ ascii "X-Access-Key" ∧ (0x3a : UInt8) ∉ ascii "X-Dtn-Signature" := by decide
  simp only [signedHeaders, accessName, signatureName, List.cons_append, List.nil_append]
  refine ⟨named_header _ _ _ plain.1, ?_, ?_⟩
  · rw [other_header _ _ _ _ plain.1 (by decide), named_header _ _ _ plain.2]
  · rw [other_header _ _ _ _ plain.1 (by decide), other_header _ _ _ _ plain.2 (by decide)]

theorem request_authentic (g : Gateway) (scratch : Bytes → Nat → LzfScratch) (curl : Curl) (t : Transmission)
    (linked : Linked g scratch) (ready : curl.init = true) (key : g.secretKey.length < 2 ^ 31) (plain : (0 : UInt8) ∉ t.text)
    (small : t.text.length < 2 ^ 32) (packable : Packs t → t.text.length ≠ BLOCKSIZE ∧ t.text.length ≤ 8198) :
    ∃ request, t.transmit g curl = some (translateHttpCode (curl.perform request), some request) ∧ request.url = t.url ∧
      Authentic g.secretKey g.accessKey t.text request := by
  obtain ⟨stack, hmac⟩ := linked.hmac
  have signature : g.getHmac g.secretKey t.text = printDigest (Hmac.hmac Fips180.sha256 64 g.secretKey t.text) := by
    rw [hmac, get_hmac_whole stack g.secretKey t.text key small]
  rw [transmit_sends, encodeAndSendData, if_pos ready]
  by_cases packs : Packs t
  · obtain ⟨different, short⟩ := packable packs
    obtain ⟨buf1, buf2, outputBuffer, compressed⟩ := linked.compresses ⟨t.text, plain⟩
    have room := framed_short (scratch t.text) ⟨t.text, plain⟩ short
    have payload : g.lzfCompressData t.text = some (framed (lzfCompressCall (scratch t.text)) ⟨t.text, plain⟩) :=
      compressed.trans ((compress_text_eq _ buf1 buf2 outputBuffer ⟨t.text, plain⟩).trans (if_pos ⟨different, room⟩))
    obtain ⟨access, signed, packing⟩ := signed_headers_read g t.text
      [ascii "X-Compressed:LZF", ascii "Content-Type:application/octet-stream"]
    refine ⟨⟨t.url, signedHeaders g t.text [ascii "X-Compressed:LZF", ascii "Content-Type:application/octet-stream"],
      framed (lzfCompressCall (scratch t.text)) ⟨t.text, plain⟩⟩, ?_, rfl, ?_, access, signature ▸ signed⟩
    · have flagged : t.text.length > 1024 ∧ t.flag = 1 := packs
      simp only [translated, if_pos flagged, payload, Option.map_some]
      rfl
    · rw [openBody, if_pos (packing.trans (by decide))]
      exact framed_opens (scratch t.text) ⟨t.text, plain⟩
  · obtain ⟨access, signed, packing⟩ := signed_headers_read g t.text []
    refine ⟨⟨t.url, signedHeaders g t.text [], t.text⟩, ?_, rfl, ?_, access, signature ▸ signed⟩
    · have unflagged : ¬ (t.text.length > 1024 ∧ t.flag = 1) := packs
      simp only [translated, if_neg unflagged, Option.map_some]
      rfl
    · rw [openBody, if_neg (by rw [packing]; decide)]

-- Compressed, and accepted by the server.
theorem long_packet_authentic : ∃ request,
    (Transmission.compressedDataPacket longJson).transmit linkedGateway ⟨true, fun _ => 202⟩ = some (ERR_OK, some request) ∧
      request.url = ascii "http://api.datonis.io/api/v3/things/event.json" ∧
      Authentic linkedGateway.secretKey linkedGateway.accessKey longJson request := by
  obtain ⟨size, plain⟩ := long_json_plain
  exact request_authentic linkedGateway (fun _ => freshScratch) ⟨true, fun _ => 202⟩ (.compressedDataPacket longJson)
    gateway_linked rfl (by decide) plain (by simp only [Transmission.text, size]; decide)
    (fun _ => by simp only [Transmission.text, size]; decide)

end Aliot.Http
