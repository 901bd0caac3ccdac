import Aliot.Builders
import Aliot.LinkItPort
import Aliot.Signing

set_option autoImplicit false

namespace Aliot.LinkIt

def JSONBUF_SIZE : Nat := 300

-- The strings of struct thing, which are arrays here; the description is sent even if it was never set.
structure Thing where
  key : CString
  name : CString
  description : CString
  handler : Bool
  keyFits : key.strlen ≤ 63
  nameFits : name.strlen ≤ 63
  descriptionFits : description.strlen ≤ 255

structure GatewayAccess where
  accessKey : CString
  secretKey : CString
  hmacSha256 : CString → CString → Vector UInt8 32
  accessKeyFits : accessKey.strlen ≤ 63

-- Every byte of the digest is printed with "%02lx" here too.
def getHmac (access : GatewayAccess) (key message : CString) : CString where
  bytes := printDigest (access.hmacSha256 key message).toList
  nulFree := print_digest_nul_free _

def GatewayAccess.configuration (access : GatewayAccess) : Configuration := ⟨access.accessKey, access.secretKey, getHmac access⟩

-- The milliseconds are kept in an int: `double` is defined to be one.
def timestamp (now : UInt32) : Int := now.toInt32.toInt

def getThingRegisterJson (thing : Thing) (now : UInt32) : Bytes :=
  let json := putJSONIntAndComma startJSON (ascii "timestamp") (timestamp now)
  let json := putJSONStringAndComma json (ascii "name") thing.name.bytes
  let json := putJSONStringAndComma json (ascii "description") thing.description.bytes
  let json := putJSONStringAndComma json (ascii "thing_key") thing.key.bytes
  let json := json ++ ascii "\"bi_directional\":" ++ (if thing.handler then ascii "1" else ascii "0")
  endJSON json

def getThingHeartbeatJson (thing : Thing) (now : UInt32) : Bytes :=
  let json := putJSONStringAndComma startJSON (ascii "thing_key") thing.key.bytes
  let json := putJSONInt json (ascii "timestamp") (timestamp now)
  endJSON json

theorem nat_text_nul_free (n : Nat) : (0 : UInt8) ∉ Json.natText n := by
  intro zero
  exact absurd ((Json.nat_text_parts n).digits 0 zero) (by decide)

theorem int_text_nul_free (n : Int) : (0 : UInt8) ∉ Json.intText n := by
  cases n with
  | ofNat n => exact nat_text_nul_free n
  | negSucc n => simp [Json.intText, nat_text_nul_free]

theorem put_string_nul_free (buffer key value : Bytes) (before : (0 : UInt8) ∉ buffer) (keyNulFree : (0 : UInt8) ∉ key)
    (valueNulFree : (0 : UInt8) ∉ value) : (0 : UInt8) ∉ putJSONStringAndComma buffer key value := by
  have literals : (0 : UInt8) ∉ ascii "\"" ∧ (0 : UInt8) ∉ ascii "\":\"" ∧ (0 : UInt8) ∉ ascii "," := by decide
  simp only [putJSONStringAndComma, putJSONString, List.mem_append, before, keyNulFree, valueNulFree, literals, or_self,
    not_false_eq_true]

theorem put_int_nul_free (buffer key : Bytes) (value : Int) (before : (0 : UInt8) ∉ buffer)
    (keyNulFree : (0 : UInt8) ∉ key) : (0 : UInt8) ∉ putJSONInt buffer key value := by
  have literals : (0 : UInt8) ∉ ascii "\"" ∧ (0 : UInt8) ∉ ascii "\":" := by decide
  simp only [putJSONInt, List.mem_append, before, keyNulFree, int_text_nul_free, literals, or_self, not_false_eq_true]

theorem register_json_nul_free (thing : Thing) (now : UInt32) : (0 : UInt8) ∉ getThingRegisterJson thing now := by
  have flag : (0 : UInt8) ∉ (if thing.handler then ascii "1" else ascii "0") := by
    split <;> decide
  have literals : (0 : UInt8) ∉ ascii "," ∧ (0 : UInt8) ∉ ascii "\"bi_directional\":" ∧ (0 : UInt8) ∉ ascii "\x7d" := by decide
  have timed := put_int_nul_free startJSON (ascii "timestamp") (timestamp now) (by decide) (by decide)
  have named := put_string_nul_free _ (ascii "name") _ (fun zero => (List.mem_append.mp zero).elim timed literals.1) (by decide)
    thing.name.nulFree
  have described := put_string_nul_free _ (ascii "description") _ named (by decide) thing.description.nulFree
  have keyed := put_string_nul_free _ (ascii "thing_key") _ described (by decide) thing.key.nulFree
  simp only [getThingRegisterJson, endJSON, List.mem_append, flag, literals, or_false]
  exact keyed

theorem heartbeat_json_nul_free (thing : Thing) (now : UInt32) : (0 : UInt8) ∉ getThingHeartbeatJson thing now := by
  have keyed := put_string_nul_free startJSON (ascii "thing_key") _ (by decide) (by decide) thing.key.nulFree
  have timed := put_int_nul_free _ (ascii "timestamp") (timestamp now) keyed (by decide)
  exact fun zero => (List.mem_append.mp zero).elim timed (by decide)

def registerJson (thing : Thing) (now : UInt32) : CString := ⟨getThingRegisterJson thing now, register_json_nul_free thing now⟩

def heartbeatJson (thing : Thing) (now : UInt32) : CString := ⟨getThingHeartbeatJson thing now, heartbeat_json_nul_free thing now⟩

-- my_strcat only lengthens the text, so jsonbuf holds each part of it; a request past its array ends the call of the model.
def CallFits (access : GatewayAccess) (api : Api) (json : CString) (free : Bool) (p : Port) : Prop :=
  json.strlen + 1 ≤ JSONBUF_SIZE ∧ (encodeAndSendData access.configuration api.path json free p).isSome = true

def timestampLength (now : UInt32) : Nat := (Json.intText (timestamp now)).length

def RegisterFits (access : GatewayAccess) (thing : Thing) (now : UInt32) (p : Port) : Prop :=
  if p.localMyWebData = [] then
    access.accessKey.strlen + thing.key.strlen + thing.name.strlen + thing.description.strlen + timestampLength now ≤ 159
  else thing.key.strlen + thing.name.strlen + thing.description.strlen + timestampLength now ≤ 224

theorem nat_text_length_le (n k : Nat) (some : 0 < k) (small : n < 10 ^ k) : (Json.natText n).length ≤ k := by
  rw [Json.natText, List.length_map]
  exact (Nat.length_toDigits_le_iff (by decide) some).mpr small

theorem nat_text_length_gt (n k : Nat) (some : 0 < k) (large : 10 ^ k ≤ n) : k < (Json.natText n).length := by
  by_contra short
  rw [Json.natText, List.length_map, Nat.not_lt, Nat.length_toDigits_le_iff (by decide) some] at short
  omega

theorem timestamp_length_le (now : UInt32) : timestampLength now ≤ 11 := by
  have low := now.toInt32.le_toInt
  have high := now.toInt32.toInt_lt
  rw [timestampLength, timestamp]
  generalize now.toInt32.toInt = value at low high
  cases value with
  | ofNat n =>
      have bound : (n : Int) ≤ 2147483647 := Int.le_of_lt_add_one high
      have digits := nat_text_length_le n 10 (by decide) (by omega)
      exact Nat.le_succ_of_le digits
  | negSucc n =>
      have digits := nat_text_length_le (n + 1) 10 (by decide) (by omega)
      exact Nat.succ_le_succ digits

theorem put_string_length (buffer key value : Bytes) :
    (putJSONStringAndComma buffer key value).length = buffer.length + key.length + value.length + 6 := by
  simp only [putJSONStringAndComma, putJSONString, ascii, List.length_append, List.length_map]
  have literals : "\"".toList.length = 1 ∧ "\":\"".toList.length = 3 ∧ ",".toList.length = 1 := by decide
  omega

theorem put_int_length (buffer key : Bytes) (now : UInt32) :
    (putJSONInt buffer key (timestamp now)).length = buffer.length + key.length + timestampLength now + 3 := by
  simp only [putJSONInt, ascii, List.length_append, List.length_map, timestampLength]
  have literals : "\"".toList.length = 1 ∧ "\":".toList.length = 2 := by decide
  omega

theorem register_json_length (thing : Thing) (now : UInt32) : (registerJson thing now).strlen =
    75 + thing.key.strlen + thing.name.strlen + thing.description.strlen + timestampLength now := by
  have flag : (if thing.handler then ascii "1" else ascii "0").length = 1 := by
    split <;> rfl
  have literals : startJSON.length = 1 ∧ (ascii "timestamp").length = 9 ∧ (ascii "name").length = 4 ∧
      (ascii "description").length = 11 ∧ (ascii "thing_key").length = 9 ∧ (ascii "\"bi_directional\":").length = 17 ∧
      (ascii ",").length = 1 ∧ (ascii "\x7d").length = 1 := by decide
  simp only [registerJson, CString.strlen, getThingRegisterJson, endJSON, putJSONIntAndComma, List.length_append,
    put_string_length, put_int_length, flag]
  omega

theorem heartbeat_json_length (thing : Thing) (now : UInt32) :
    (heartbeatJson thing now).strlen = 29 + thing.key.strlen + timestampLength now := by
  have literals : startJSON.length = 1 ∧ (ascii "timestamp").length = 9 ∧ (ascii "thing_key").length = 9 ∧
      (ascii "\x7d").length = 1 := by decide
  simp only [heartbeatJson, CString.strlen, getThingHeartbeatJson, endJSON, List.length_append, put_string_length, put_int_length]
  omega

theorem hmac_length (access : GatewayAccess) (key message : CString) : (getHmac access key message).bytes.length = 64 := by
  rw [getHmac, print_digest_length, Vector.length_toList]

-- All that is printed around the path, the access key, the length and the JSON text; the hash has its 64 characters.
theorem request_text_length (access : GatewayAccess) (path : Bytes) (json : CString) :
    (requestText access.configuration path json).length =
      234 + path.length + access.accessKey.strlen + (Json.natText json.strlen).length + json.strlen := by
  have literals : (ascii "POST ").length = 5 ∧ (ascii " HTTP/1.1\r\nHost: ").length = 17 ∧ host.length = 21 ∧
      (ascii "\r\nAccept: */*\r\nX-Access-Key: ").length = 29 ∧ (ascii "\r\nX-Dtn-Signature: ").length = 19 ∧
      (ascii "\r\nContent-Type: application/json\r\nContent-Length: ").length = 50 ∧
      (ascii "\r\nCache-Control: no-cache\r\n\r\n").length = 29 := by decide +kernel
  have hash := hmac_length access access.secretKey json
  simp only [requestText, GatewayAccess.configuration, CString.strlen, List.length_append, hash]
  omega

theorem call_fits_iff (access : GatewayAccess) (api : Api) (json : CString) (free : Bool) (p : Port) :
    CallFits access api json free p ↔ json.strlen ≤ 299 ∧ (p.localMyWebData = [] →
      234 + api.path.length + access.accessKey.strlen + (Json.natText json.strlen).length + json.strlen < WEB_DATA_SIZE) := by
  obtain ⟨q, _, _, outcome⟩ := call_outcome access.configuration api.path json free p
  have length := request_text_length access api.path json
  rw [CallFits, outcome, ← length]
  have short : json.strlen + 1 ≤ JSONBUF_SIZE ↔ json.strlen ≤ 299 := Nat.succ_le_succ_iff
  rw [short]
  by_cases empty : p.localMyWebData = []
  · by_cases fits : (requestText access.configuration api.path json).length < WEB_DATA_SIZE
    · simp [empty, fits]
    · simp [empty, fits]
  · simp [empty]

theorem heartbeat_fits (access : GatewayAccess) (thing : Thing) (now : UInt32) (free : Bool) (p : Port) :
    CallFits access .transmitThingHeartbeat (heartbeatJson thing now) free p := by
  have length := heartbeat_json_length thing now
  have time := timestamp_length_le now
  have key := thing.keyFits
  have accessKey := access.accessKeyFits
  have path : Api.transmitThingHeartbeat.path.length = 29 := by decide
  have digits := nat_text_length_le (heartbeatJson thing now).strlen 3 (by decide) (by omega)
  rw [call_fits_iff, WEB_DATA_SIZE, path]
  exact ⟨by omega, fun _ => by omega⟩

theorem register_fits_iff (access : GatewayAccess) (thing : Thing) (now : UInt32) (free : Bool) (p : Port) :
    CallFits access .registerThing (registerJson thing now) free p ↔ RegisterFits access thing now p := by
  have length := register_json_length thing now
  have time := timestamp_length_le now
  have key := thing.keyFits
  have name := thing.nameFits
  have description := thing.descriptionFits
  have accessKey := access.accessKeyFits
  have path : Api.registerThing.path.length = 28 := by decide
  have digits := nat_text_length_le (registerJson thing now).strlen 3 (by decide) (by omega)
  rw [call_fits_iff, WEB_DATA_SIZE, path, RegisterFits]
  by_cases empty : p.localMyWebData = []
  · rw [if_pos empty]
    by_cases long : 100 ≤ (registerJson thing now).strlen
    · have more := nat_text_length_gt (registerJson thing now).strlen 2 (by decide) long
      simp only [empty, true_imp_iff]
      omega
    · have fewer := nat_text_length_le (registerJson thing now).strlen 2 (by decide) (by omega)
      simp only [empty, true_imp_iff]
      omega
  · rw [if_neg empty]
    simp only [empty, false_imp_iff, and_true]
    omega

theorem requests_fit_iff (access : GatewayAccess) (thing : Thing) (now : UInt32) (free : Bool) (p : Port) :
    (CallFits access .registerThing (registerJson thing now) free p ∧
        CallFits access .transmitThingHeartbeat (heartbeatJson thing now) free p) ↔ RegisterFits access thing now p := by
  rw [register_fits_iff]
  exact and_iff_left (heartbeat_fits access thing now free p)

def lettersA (n : Nat) : CString := ⟨List.replicate n 0x61, fun zero => absurd (List.eq_of_mem_replicate zero) (by decide)⟩

def sampleAccess : GatewayAccess :=
  ⟨lettersA 40, lettersA 40, fun _ _ => Vector.replicate 32 0, by decide⟩

-- A key of 10 and a name of 6 characters, as in the sample program, with a longer description.
def described (n : Nat) (fits : n ≤ 255) : Thing :=
  ⟨lettersA 10, lettersA 6, lettersA n, true, by decide, by decide, by simpa [lettersA, CString.strlen] using fits⟩

def idlePort : Port := ⟨[], true, false, ⟨.established, 0, UIP_TCP_MSS, UIP_TCP_MSS⟩⟩

-- 160 characters of description fit jsonbuf and overrun local_my_web_data, 255 overrun jsonbuf.
theorem long_description_overruns :
    (registerJson (described 160 (by decide)) 1).strlen + 1 ≤ JSONBUF_SIZE ∧
      ¬ CallFits sampleAccess .registerThing (registerJson (described 160 (by decide)) 1) false idlePort ∧
      JSONBUF_SIZE < (registerJson (described 255 (by decide)) 1).strlen + 1 := by
  have small : ¬ RegisterFits sampleAccess (described 160 (by decide)) 1 idlePort := by
    have empty : idlePort.localMyWebData = [] := rfl
    rw [RegisterFits, if_pos empty]
    decide +kernel
  refine ⟨?_, fun fits => small ((register_fits_iff _ _ _ _ _).mp fits), ?_⟩
  · rw [register_json_length]
    decide +kernel
  · rw [register_json_length]
    decide +kernel

end Aliot.LinkIt
