import Aliot.GetHmac
import Aliot.HttpText
import Aliot.LinkItPort

set_option autoImplicit false

namespace Aliot

-- The sprintf that the gateways without curl make their requests with.
def postText (host path accessKey hash json : Bytes) : Bytes :=
  ascii "POST " ++ path ++ ascii " HTTP/1.1\r\nHost: " ++ host ++ ascii "\r\nAccept: */*\r\nX-Access-Key: " ++ accessKey ++
    ascii "\r\nX-Dtn-Signature: " ++ hash ++ ascii "\r\nContent-Type: application/json\r\nContent-Length: " ++
    Json.natText json.length ++ ascii "\r\nCache-Control: no-cache\r\n\r\n" ++ json

def postMessage (host path accessKey hash json : Bytes) : HttpText.Message where
  line := ascii "POST " ++ path ++ ascii " HTTP/1.1"
  fields := [(ascii "Host", host), (ascii "Accept", ascii "*/*"), (ascii "X-Access-Key", accessKey),
    (ascii "X-Dtn-Signature", hash), (ascii "Content-Type", ascii "application/json"),
    (ascii "Content-Length", Json.natText json.length), (ascii "Cache-Control", ascii "no-cache")]
  body := json

-- What can stand in a header field as it is.
def HeaderValue (text : Bytes) : Prop := (13 : UInt8) ∉ text ∧ text.head? ≠ some 0x20

instance (text : Bytes) : Decidable (HeaderValue text) := inferInstanceAs (Decidable (_ ∧ _))

theorem post_text_written (host path accessKey hash json : Bytes) :
    postText host path accessKey hash json = HttpText.write (postMessage host path accessKey hash json) := by
  simp only [postText, postMessage, HttpText.write, HttpText.lines, HttpText.fieldText, HttpText.ended, List.map_cons,
    List.map_nil, List.flatMap_cons, List.flatMap_nil, List.append_assoc]
  rfl

theorem nat_text_header (n : Nat) : HeaderValue (Json.natText n) := by
  have digits := (Json.nat_text_parts n).digits
  obtain ⟨byte, rest, text, digit⟩ := Json.nat_text_digit_first n
  refine ⟨fun ended => absurd (digits 13 ended) (by decide), fun space => ?_⟩
  rw [text] at space
  obtain rfl := Option.some.inj space
  cases digit

theorem plain_field (name value : Bytes) (named : (13 : UInt8) ∉ name ∧ (0x3a : UInt8) ∉ name) (valued : HeaderValue value) :
    HttpText.PlainField (name, value) := ⟨named, valued⟩

theorem post_message_formed (host path accessKey hash json : Bytes) (named : HeaderValue host) (path_plain : (13 : UInt8) ∉ path)
    (access : HeaderValue accessKey) (signature : HeaderValue hash) :
    HttpText.WellFormed (postMessage host path accessKey hash json) where
  line := by
    have start : (13 : UInt8) ∉ ascii "POST " := by decide
    have stop : (13 : UInt8) ∉ ascii " HTTP/1.1" := by decide
    refine ⟨fun none => ?_, by simp [postMessage, start, stop, path_plain]⟩
    have all := congrArg List.length none
    simp [postMessage, ascii] at all
  fields := by
    have length := nat_text_header json.length
    simp only [postMessage, List.forall_mem_cons]
    refine ⟨plain_field _ host ?_ named, plain_field _ (ascii "*/*") ?_ ?_, plain_field _ accessKey ?_ access,
      plain_field _ hash ?_ signature, plain_field _ (ascii "application/json") ?_ ?_, plain_field _ _ ?_ length,
      plain_field _ (ascii "no-cache") ?_ ?_, by simp⟩ <;> decide
  size := rfl

theorem print_digest_header (digest : Bytes) : HeaderValue (printDigest digest) := by
  have all := print_digest_alphanumeric digest
  refine ⟨fun ended => absurd (all 13 ended) (by decide), fun space => ?_⟩
  exact absurd (all 0x20 (List.mem_of_mem_head? space)) (by decide)

namespace LinkIt

theorem request_text_post (configuration : Configuration) (path : Bytes) (json : CString) :
    requestText configuration path json = postText host path configuration.accessKey.bytes
      (configuration.getHmac configuration.secretKey json).bytes json.bytes := rfl

-- get_hmac of this port is that of the other one.
def SignsLinked (configuration : Configuration) : Prop :=
  ∃ stack, ∀ key message, (configuration.getHmac key message).bytes = get_hmac stack key.bytes message.bytes

def message (configuration : Configuration) (api : Api) (json : CString) : HttpText.Message :=
  postMessage host api.path configuration.accessKey.bytes
    (printDigest (Hmac.hmac Fips180.sha256 64 configuration.secretKey.bytes json.bytes)) json.bytes

def requests (configuration : Configuration) : List Step → List HttpText.Message
  | [] => []
  | .call api json _ :: events => message configuration api json :: requests configuration events
  | .process _ :: events => requests configuration events

section Run

variable (configuration : Configuration) (linked : SignsLinked configuration)
variable (key : configuration.secretKey.strlen < 2 ^ 31) (access : HeaderValue configuration.accessKey.bytes)

include access in
theorem message_formed (api : Api) (json : CString) : HttpText.WellFormed (message configuration api json) := by
  refine post_message_formed _ _ _ _ _ (by decide) ?_ access (print_digest_header _)
  cases api <;> decide

include access in
theorem requests_formed (events : List Step) : ∀ request ∈ requests configuration events, HttpText.WellFormed request := by
  induction events with
  | nil => simp [requests]
  | cons event events ih =>
      cases event with
      | call api json free => exact List.forall_mem_cons.mpr ⟨message_formed configuration access api json, ih⟩
      | process event => exact ih

include linked key in
theorem request_text_message (api : Api) (json : CString) (small : json.strlen < 2 ^ 32) :
    requestText configuration api.path json = HttpText.write (message configuration api json) := by
  obtain ⟨stack, hmac⟩ := linked
  rw [request_text_post, post_text_written, message, hmac, get_hmac_whole stack _ _ key small]

theorem json_small (api : Api) (json : CString) (fits : (requestText configuration api.path json).length < WEB_DATA_SIZE) :
    json.strlen < 2 ^ 32 := by
  rw [request_text_post] at fits
  simp only [postText, List.length_append, WEB_DATA_SIZE] at fits
  simp only [CString.strlen]
  omega

theorem call_normal (api : Api) (json : CString) (free : Bool) (s next : System)
    (safe : StepSafe configuration s (.call api json free)) (stepped : step configuration (.call api json free) s = some next) :
    next.normal = s.normal ++ [requestText configuration api.path json] := by
  obtain ⟨q, _, _, outcome⟩ := call_outcome configuration api.path json free s.port
  rw [if_pos (List.length_eq_zero_iff.mpr safe.1), if_pos safe.2] at outcome
  rw [step, outcome] at stepped
  rw [← Option.some.inj stepped]
  rfl

include linked key in
-- A safe run has given back the normal result for the texts of all its calls.
theorem run_normal (events : List Step) (s : System) (order : InOrder s) (safe : RunSafe configuration s events) :
    ∃ t, run configuration events s = some t ∧ InOrder t ∧
      t.normal = s.normal ++ (requests configuration events).map HttpText.write := by
  induction events generalizing s with
  | nil => exact ⟨s, rfl, order, by simp [requests]⟩
  | cons event events ih =>
      obtain ⟨first, later⟩ := safe
      cases event with
      | call api json free =>
          obtain ⟨next, stepped, orderNext⟩ := (call_in_order_iff configuration api json free s order).mpr first
          obtain ⟨t, ran, orderLast, normal⟩ := ih next orderNext (later next stepped)
          refine ⟨t, by rw [run, stepped]; exact ran, orderLast, ?_⟩
          have text := request_text_message configuration linked key api json (json_small configuration api json first.2)
          rw [normal, call_normal configuration api json free s next first stepped, text]
          simp [requests]
      | process event =>
          obtain ⟨next, stepped, orderNext⟩ := (process_in_order_iff configuration event s order).mpr first
          obtain ⟨t, ran, orderLast, normal⟩ := ih next orderNext (later next stepped)
          refine ⟨t, by rw [run, stepped]; exact ran, orderLast, ?_⟩
          rw [normal, ← Option.some.inj stepped]
          rfl

include linked key access in
-- What has been passed on reads as the requests of the calls, in order, but for one that may still wait.
theorem run_requests_received (events : List Step) (uipConn : Connection) (safe : RunSafe configuration (started uipConn) events) :
    ∃ t, run configuration events (started uipConn) = some t ∧
      HttpText.format.decodeAll t.passed.flatten = some ((requests configuration events).take t.passed.length) ∧
      (requests configuration events).length ≤ t.passed.length + 1 := by
  obtain ⟨t, ran, order, normal⟩ := run_normal configuration linked key events (started uipConn) rfl safe
  have texts : t.passed ++ waiting t.port = (requests configuration events).map HttpText.write := by
    rw [← order, normal]
    rfl
  have passed : t.passed = ((requests configuration events).take t.passed.length).map HttpText.write := by
    rw [List.map_take, ← texts, List.take_left]
  refine ⟨t, ran, ?_, ?_⟩
  · have decoded := HttpText.format.decode_all_encode ((requests configuration events).take t.passed.length)
      (fun request member => requests_formed configuration access events request (List.mem_of_mem_take member))
    have flat : HttpText.format.encodeAll ((requests configuration events).take t.passed.length) = t.passed.flatten := by
      rw [FrameFormat.encodeAll, List.flatMap_def]
      exact congrArg List.flatten passed.symm
    rwa [flat] at decoded
  · have lengths := congrArg List.length texts
    rw [List.length_append, List.length_map] at lengths
    have one : (waiting t.port).length ≤ 1 := by
      unfold waiting
      split
      · exact Nat.zero_le 1
      · exact Nat.le_refl 1
    omega

end Run

def linkedConfiguration : Configuration where
  accessKey := ⟨ascii "access", by decide⟩
  secretKey := ⟨ascii "secret", by decide⟩
  getHmac := fun key message => ⟨get_hmac strayHmac key.bytes message.bytes, print_digest_nul_free _⟩

def beatJson : CString := ⟨ascii "\x7b\"timestamp\":1\x7d", by decide⟩

def beatRun : List Step :=
  [.process (.synAck 536), .call .transmitThingHeartbeat beatJson false, .process (.periodic true)]

theorem beat_short : (requestText linkedConfiguration Api.transmitThingHeartbeat.path beatJson).length < WEB_DATA_SIZE := by
  have hash : (linkedConfiguration.getHmac linkedConfiguration.secretKey beatJson).bytes.length = 64 := print_digest_length _
  rw [request_text_post]
  simp only [postText, List.length_append, hash]
  decide

theorem call_ready (configuration : Configuration) (path : Bytes) (json : CString) (free : Bool) (p : Port)
    (ready : p.readyFlag = true) (idle : p.localMyWebData = [])
    (short : (requestText configuration path json).length < WEB_DATA_SIZE) :
    encodeAndSendData configuration path json free p = some (1, { p with localMyWebData := requestText configuration path json }) := by
  simp only [encodeAndSendData, ready, if_true, idle, List.length_nil, if_pos short]

theorem beat_run_safe :
    RunSafe linkedConfiguration (started ⟨.synSent, 1, UIP_TCP_MSS, UIP_TCP_MSS⟩) beatRun := by
  refine ⟨trivial, fun s stepped => ?_⟩
  obtain rfl := Option.some.inj stepped
  refine ⟨⟨rfl, beat_short⟩, fun t called => ⟨fun _ => ?_, fun _ _ => trivial⟩⟩
  rw [step, call_ready _ _ _ _ _ rfl rfl beat_short] at called
  rw [← Option.some.inj called]
  exact Nat.le_trans (Nat.le_of_lt beat_short) (by decide)

theorem beat_received :
    ∃ t, run linkedConfiguration beatRun (started ⟨.synSent, 1, UIP_TCP_MSS, UIP_TCP_MSS⟩) = some t ∧
      HttpText.format.decodeAll t.passed.flatten = some ((requests linkedConfiguration beatRun).take t.passed.length) ∧
      (requests linkedConfiguration beatRun).length ≤ t.passed.length + 1 :=
  run_requests_received linkedConfiguration ⟨strayHmac, fun _ _ => rfl⟩ (by decide) (by decide) beatRun
    ⟨.synSent, 1, UIP_TCP_MSS, UIP_TCP_MSS⟩ beat_run_safe

end LinkIt

end Aliot
