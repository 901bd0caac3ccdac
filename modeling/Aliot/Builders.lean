import Aliot.JsonFields
import Aliot.Registration

set_option autoImplicit false

namespace Aliot

open Json (Value Members Given Fields)

def putJSONInt (buff key : Bytes) (value : Int) : Bytes := buff ++ ascii "\"" ++ key ++ ascii "\":" ++ Json.intText value

def putJSONIntAndComma (buff key : Bytes) (value : Int) : Bytes := putJSONInt buff key value ++ ascii ","

def getThingHeartbeatJson (thing : ThingBean) (timestamp : Bytes) : Bytes :=
  let json := putJSONStringAndComma startJSON (ascii "thing_key") thing.key
  let json := putJSONDouble json (ascii "timestamp") timestamp
  endJSON json

def getThingDataJsonTs (thing : ThingBean) (value waypoint : Option Bytes) (timestamp : Bytes) : Bytes :=
  let json := putJSONDoubleAndComma startJSON (ascii "timestamp") timestamp
  let json := putJSONStringAndComma json (ascii "thing_key") thing.key
  let json := value.elim json (fun value => json ++ ascii "\"data\":" ++ value)
  let json := waypoint.elim json (fun waypoint =>
    (if value.isSome then json ++ ascii "," else json) ++ ascii "\"waypoint\":" ++ waypoint)
  endJSON json

def getAlertJson (thing : Option ThingBean) (alertKey : Option Bytes) (level : Int) (message : Bytes) (data : Option Bytes)
    (timestamp : Bytes) : Bytes :=
  let json := startJSON ++ ascii "\"alert\":\x7b"
  let json := putJSONDoubleAndComma json (ascii "timestamp") timestamp
  let json := thing.elim json (fun thing => putJSONStringAndComma json (ascii "thing_key") thing.key)
  let json := alertKey.elim json (putJSONStringAndComma json (ascii "alert_key"))
  let json := putJSONIntAndComma json (ascii "alert_type") level
  let json := putJSONString json (ascii "message") message
  let json := data.elim json (fun data => json ++ ascii ",\"data\":" ++ data)
  endJSON (endJSON json)

def getThingAlertJson (thing : ThingBean) (level : Int) (message : Bytes) (data : Option Bytes) (timestamp : Bytes) : Bytes :=
  getAlertJson (some thing) none level message data timestamp

def getInstructionAlertJson (alertKey : Bytes) (level : Int) (message : Bytes) (data : Option Bytes) (timestamp : Bytes) :
    Bytes :=
  getAlertJson none (some alertKey) level message data timestamp

-- A call of one of the builders at a time in whole milliseconds, which %0.0f prints as an integer.
inductive Builder where
  | register (thing : ThingBean) (timestamp : Int)
  | heartbeat (thing : ThingBean) (timestamp : Int)
  | thingData (thing : ThingBean) (value waypoint : Option Bytes) (timestamp : Int)
  | thingAlert (thing : ThingBean) (level : Int) (message : Bytes) (data : Option Bytes) (timestamp : Int)
  | instructionAlert (alertKey : Bytes) (level : Int) (message : Bytes) (data : Option Bytes) (timestamp : Int)

namespace Builder

def json : Builder → Bytes
  | register thing timestamp => getThingRegisterJson thing (Json.intText timestamp)
  | heartbeat thing timestamp => getThingHeartbeatJson thing (Json.intText timestamp)
  | thingData thing value waypoint timestamp => getThingDataJsonTs thing value waypoint (Json.intText timestamp)
  | thingAlert thing level message data timestamp => getThingAlertJson thing level message data (Json.intText timestamp)
  | instructionAlert alertKey level message data timestamp =>
      getInstructionAlertJson alertKey level message data (Json.intText timestamp)

end Builder

def textField (name : String) (value : Bytes) : Bytes × Given := (ascii name, .text value)

def numberField (name : String) (value : Int) : Bytes × Given := (ascii name, .number value)

def jsonField (name : String) (value : Bytes) : Bytes × Given := (ascii name, .json value)

namespace Builder

-- The members that the caller gives, those of the inner object for the alerts.
def fields : Builder → Fields
  | register thing timestamp =>
      [numberField "timestamp" timestamp, textField "name" thing.name] ++
        (thing.description.map (textField "description")).toList ++
        [textField "thing_key" thing.key, numberField "bi_directional" (if thing.handler then 1 else 0)]
  | heartbeat thing timestamp => [textField "thing_key" thing.key, numberField "timestamp" timestamp]
  | thingData thing value waypoint timestamp =>
      [numberField "timestamp" timestamp, textField "thing_key" thing.key] ++ (value.map (jsonField "data")).toList ++
        (waypoint.map (jsonField "waypoint")).toList
  | thingAlert thing level message data timestamp =>
      [numberField "timestamp" timestamp, textField "thing_key" thing.key, numberField "alert_type" level,
        textField "message" message] ++ (data.map (jsonField "data")).toList
  | instructionAlert alertKey level message data timestamp =>
      [numberField "timestamp" timestamp, textField "alert_key" alertKey, numberField "alert_type" level,
        textField "message" message] ++ (data.map (jsonField "data")).toList

def isAlert : Builder → Bool
  | thingAlert .. => true
  | instructionAlert .. => true
  | _ => false

-- The C strings of the call.
def strings : Builder → List Bytes
  | register thing _ => [thing.name] ++ thing.description.toList ++ [thing.key]
  | heartbeat thing _ => [thing.key]
  | thingData thing _ _ _ => [thing.key]
  | thingAlert thing _ message _ _ => [thing.key, message]
  | instructionAlert alertKey _ message _ _ => [alertKey, message]

-- Every argument that is put in as JSON is NULL or JSON, and there is something to transmit.
def Allowed : Builder → Prop
  | thingData _ value waypoint _ =>
      (∀ text ∈ value, Json.IsJson text) ∧ (∀ text ∈ waypoint, Json.IsJson text) ∧ (value.isSome ∨ waypoint.isSome)
  | thingAlert _ _ _ data _ => ∀ text ∈ data, Json.IsJson text
  | instructionAlert _ _ _ data _ => ∀ text ∈ data, Json.IsJson text
  | _ => True

-- An object, with exactly the given members; the alerts are one member of their own.
def RoundTrips (b : Builder) : Prop :=
  ∃ members : Members, members.wellFormed = true ∧ members.Gives b.fields ∧
    if b.isAlert then
      ∃ key, Json.stringBody 0 key = true ∧ Json.unescape key = ascii "alert" ∧
        Json.Padded (.object (.cons (.string key) (.object members) .nil)) b.json
    else Json.Padded (.object members) b.json

end Builder

theorem put_string (buffer key value : Bytes) :
    putJSONString buffer key value = buffer ++ (Json.quoted key ++ Json.colon :: (Given.text value).spelled) := by
  have between : ascii "\":\"" = [Json.quote, Json.colon, Json.quote] := rfl
  have mark : ascii "\"" = [Json.quote] := rfl
  simp only [putJSONString, between, mark, Given.spelled, Json.quoted]
  simp

theorem put_number (buffer key : Bytes) (value : Int) :
    putJSONDouble buffer key (Json.intText value) =
      buffer ++ (Json.quoted key ++ Json.colon :: (Given.number value).spelled) := by
  have between : ascii "\":" = [Json.quote, Json.colon] := rfl
  have mark : ascii "\"" = [Json.quote] := rfl
  simp only [putJSONDouble, between, mark, Given.spelled, Json.quoted]
  simp

theorem put_int (buffer key : Bytes) (value : Int) :
    putJSONInt buffer key value = putJSONDouble buffer key (Json.intText value) := rfl

attribute [simp] textField numberField jsonField Given.spelled Given.Sound Given.Plain Given.isJson put_number put_string put_int
  putJSONDoubleAndComma putJSONStringAndComma putJSONIntAndComma endJSON

-- The members of an alert; the application's alerts name their thing, the feedback to an instruction its alert key.
def alertFields (thing : Option ThingBean) (alertKey : Option Bytes) (level : Int) (message : Bytes) (data : Option Bytes)
    (timestamp : Int) : Fields :=
  [numberField "timestamp" timestamp] ++ (thing.map (fun thing => textField "thing_key" thing.key)).toList ++
    (alertKey.map (textField "alert_key")).toList ++ [numberField "alert_type" level, textField "message" message] ++
    (data.map (jsonField "data")).toList

theorem get_alert_text (thing : Option ThingBean) (alertKey : Option Bytes) (level : Int) (message : Bytes)
    (data : Option Bytes) (timestamp : Int) :
    getAlertJson thing alertKey level message data (Json.intText timestamp) = Json.openBrace ::
      (Json.quoted (ascii "alert") ++ Json.colon :: Json.fieldsText (alertFields thing alertKey level message data timestamp) ++
        [Json.closeBrace]) := by
  have opened : startJSON ++ ascii "\"alert\":\x7b" =
    Json.openBrace :: (Json.quoted (ascii "alert") ++ [Json.colon, Json.openBrace]) := rfl
  have comma : ascii "," = [Json.comma] := rfl
  have brace : ascii "\x7d" = [Json.closeBrace] := rfl
  have dataName : ascii ",\"data\":" = Json.comma :: (Json.quoted (ascii "data") ++ [Json.colon]) := rfl
  cases thing <;> cases alertKey <;> cases data <;>
    simp [getAlertJson, alertFields, opened, comma, brace, dataName, Json.fieldsText, Json.fieldsListed]

theorem alert_json_text (b : Builder) (alert : b.isAlert = true) :
    b.json = Json.openBrace :: (Json.quoted (ascii "alert") ++ Json.colon :: Json.fieldsText b.fields ++ [Json.closeBrace]) := by
  cases b with
  | thingAlert thing level message data timestamp => exact get_alert_text (some thing) none level message data timestamp
  | instructionAlert alertKey level message data timestamp => exact get_alert_text none (some alertKey) level message data timestamp
  | _ => cases alert

theorem object_json_text (b : Builder) (flat : b.isAlert = false) (allowed : b.Allowed) : b.json = Json.fieldsText b.fields := by
  have opened : startJSON = [Json.openBrace] := rfl
  have comma : ascii "," = [Json.comma] := rfl
  have brace : ascii "\x7d" = [Json.closeBrace] := rfl
  have dataName : ascii "\"data\":" = Json.quoted (ascii "data") ++ [Json.colon] := rfl
  have waypointName : ascii "\"waypoint\":" = Json.quoted (ascii "waypoint") ++ [Json.colon] := rfl
  have handled : ascii "\"bi_directional\":" = Json.quoted (ascii "bi_directional") ++ [Json.colon] := rfl
  have flag : ∀ handler : Bool, (if handler then ascii "1" else ascii "0") = Json.intText (if handler then 1 else 0) := by decide
  simp only [Json.fieldsText]
  cases b with
  | register thing timestamp =>
      cases described : thing.description <;>
        simp [Builder.json, getThingRegisterJson, Builder.fields, described, opened, comma, brace, handled, flag, Json.fieldsListed]
  | heartbeat thing timestamp =>
      simp [Builder.json, getThingHeartbeatJson, Builder.fields, opened, comma, brace, Json.fieldsListed]
  | thingData thing value waypoint timestamp =>
      rcases value with _ | value <;> rcases waypoint with _ | waypoint
      · rcases allowed.2.2 with absent | absent <;> cases absent
      all_goals
        simp [Builder.json, getThingDataJsonTs, Builder.fields, opened, comma, brace, dataName, waypointName, Json.fieldsListed]
  | _ => cases flat

theorem names_plain : ∀ name ∈ ["timestamp", "name", "description", "thing_key", "bi_directional", "data", "waypoint",
    "alert_key", "alert_type", "message"], Json.plain (ascii name) = true := by
  decide +kernel

theorem fields_proper (b : Builder) (allowed : b.Allowed) : Json.Proper b.fields := by
  have names := names_plain
  simp only [List.forall_mem_cons] at names
  cases b with
  | register thing timestamp =>
      cases described : thing.description <;> simp [Json.Proper, Builder.fields, described, names]
  | heartbeat thing timestamp => simp [Json.Proper, Builder.fields, names]
  | thingData thing value waypoint timestamp =>
      obtain ⟨valueJson, waypointJson, _⟩ := allowed
      cases value <;> cases waypoint <;> simp_all [Json.Proper, Builder.fields]
  | thingAlert thing level message data timestamp =>
      cases data <;> simp_all [Json.Proper, Builder.fields, Builder.Allowed]
  | instructionAlert alertKey level message data timestamp =>
      cases data <;> simp_all [Json.Proper, Builder.fields, Builder.Allowed]

theorem fields_json_last (b : Builder) : Json.JsonLast b.fields := by
  cases b with
  | register thing timestamp => cases described : thing.description <;> simp [Builder.fields, described, Json.JsonLast]
  | heartbeat thing timestamp => simp [Builder.fields, Json.JsonLast]
  | thingData thing value waypoint timestamp => cases value <;> cases waypoint <;> simp [Builder.fields, Json.JsonLast]
  | thingAlert thing level message data timestamp => cases data <;> simp [Builder.fields, Json.JsonLast]
  | instructionAlert alertKey level message data timestamp => cases data <;> simp [Builder.fields, Json.JsonLast]

theorem fields_plain_iff (b : Builder) : Json.AllPlain b.fields ↔ ∀ text ∈ b.strings, Json.plain text = true := by
  cases b with
  | register thing timestamp =>
      cases described : thing.description <;> simp [Builder.fields, Builder.strings, described, Json.AllPlain]
  | heartbeat thing timestamp => simp [Builder.fields, Builder.strings, Json.AllPlain]
  | thingData thing value waypoint timestamp =>
      cases value <;> cases waypoint <;> simp [Builder.fields, Builder.strings, Json.AllPlain]
  | thingAlert thing level message data timestamp => cases data <;> simp [Builder.fields, Builder.strings, Json.AllPlain]
  | instructionAlert alertKey level message data timestamp => cases data <;> simp [Builder.fields, Builder.strings, Json.AllPlain]

theorem fields_some (b : Builder) : b.fields ≠ [] := by
  cases b <;> exact List.cons_ne_nil _ _

theorem round_trips_object (b : Builder) (allowed : b.Allowed) :
    b.RoundTrips ↔ ∃ members, Json.ObjectOf b.fields members (Json.fieldsText b.fields) := by
  cases alert : b.isAlert with
  | false =>
      simp only [Builder.RoundTrips, alert, Bool.false_eq_true, if_false, object_json_text b alert allowed]
      exact Iff.rfl
  | true =>
      simp only [Builder.RoundTrips, alert, if_true, alert_json_text b alert]
      constructor
      · rintro ⟨members, valid, gives, key, keyValid, named, padded⟩
        exact ⟨members, valid, gives, Json.nested_back (ascii "alert") key _ _ keyValid named padded⟩
      · rintro ⟨members, valid, gives, padded⟩
        have name : Json.plain (ascii "alert") = true := by decide
        exact ⟨members, valid, gives, ascii "alert", Json.plain_string_body _ name, Json.unescape_plain _ name,
          Json.nested_padded (ascii "alert") _ _ padded⟩

theorem round_trips_plain (b : Builder) (allowed : b.Allowed) :
    (∃ members, Json.ObjectOf b.fields members (Json.fieldsText b.fields)) ↔ ∀ text ∈ b.strings, Json.plain text = true := by
  rw [Json.object_of_iff b.fields (fields_some b) (fields_proper b allowed) (fields_json_last b), fields_plain_iff]

theorem builders_round_trip_iff (b : Builder) (allowed : b.Allowed) :
    b.RoundTrips ↔ ∀ text ∈ b.strings, Json.plain text = true := by
  rw [round_trips_object b allowed, round_trips_plain b allowed]

def lampBean : ThingBean := ⟨ascii "k", ascii "n", some [], true⟩

def overheated : Builder :=
  .thingAlert lampBean 2 (ascii "too hot") (some (ascii "[ 41.5, true ]")) 1700000000000

def overheatedItems : Json.Items := .cons (.primitive (ascii "41.5")) (.cons (.primitive (ascii "true")) .nil)

theorem overheated_data : Json.IsJson (ascii "[ 41.5, true ]") := by
  refine ⟨.array overheatedItems, ⟨[], ascii "[ 41.5, true ]", [], rfl, Json.blank_nil, Json.blank_nil, ?_⟩, by decide +kernel⟩
  have space : Json.Blank (ascii " ") := List.forall_mem_singleton.mpr rfl
  refine ⟨ascii " 41.5, true ", rfl, .inr ⟨ascii " ", ascii "41.5", [], ascii ", true ", rfl, space, Json.blank_nil, rfl, ?_⟩⟩
  exact ⟨ascii " ", ascii "true", ascii " ", [], rfl, space, space, rfl, rfl⟩

theorem overheated_round_trips : overheated.RoundTrips := by
  have allowed : overheated.Allowed := fun text given => Option.some.inj given ▸ overheated_data
  have allPlain : ∀ text ∈ overheated.strings, Json.plain text = true := by decide +kernel
  exact (builders_round_trip_iff overheated allowed).mpr allPlain

-- A key with a quote in it.
def quotedKey : Builder := .heartbeat { lampBean with key := ascii "a\"b" } 1

theorem quoted_key_not_read : quotedKey.Allowed ∧ quotedKey.json = ascii "\x7b\"thing_key\":\"a\"b\",\"timestamp\":1\x7d" ∧
    ¬ quotedKey.RoundTrips := by
  refine ⟨trivial, by decide +kernel, fun round => ?_⟩
  have allPlain := (round_trips_plain quotedKey trivial).mp ((round_trips_object quotedKey trivial).mp round)
  have keyPlain : Json.plain (ascii "a\"b") = true := allPlain _ List.mem_cons_self
  revert keyPlain
  decide

end Aliot
