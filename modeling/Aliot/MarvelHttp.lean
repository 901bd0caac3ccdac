import Aliot.HttpGateway
import Aliot.PostRequest

set_option autoImplicit false

-- The HTTP gateway of the MW300 port, which has the socket to itself.
namespace Aliot.Marvel

open Http (Transmission)

def DATA_SIZE : Nat := 10000

-- What read finds, one call after the other: nothing for a second without data and for a closed connection.
def mbedRead (len : Nat) : List Bytes → Bytes
  | [] => []
  | found :: later =>
      let val := found.take len
      if val.length < 1 then []
      else if val.length < len then val ++ mbedRead (len - val.length) later
      else val

-- strtok_r(&data[9], " ", &saveptr1); none for a NULL, or where no end is found in the array.
def statusToken (data : Bytes) : Option Bytes :=
  let text := (data.drop 9).dropWhile (· == 0x20)
  let token := text.takeWhile (fun c => c != 0x20 && c != 0)
  if token = [] ∨ token.length = text.length then none else some token

-- A long has 32 bits here.
def atoi (text : Bytes) : Int := max (-INT_MAX - 1) (min (strtol text) INT_MAX)

-- The code and the request; none where the sprintf runs past the end of data.
def encodeAndSendData (g : Gateway) (stack : Nat → UInt8) (reads : List Bytes) (host url json : Bytes) (_flag : Int) :
    Option (Int × Bytes) :=
  let hash := g.getHmac g.secretKey json
  let text := postText host url g.accessKey hash json
  if text.length < DATA_SIZE then
    let data := Memory.store stack 0 (text ++ [0])
    let data := Memory.store data 0 (mbedRead DATA_SIZE reads)
    (statusToken (Memory.load data 0 DATA_SIZE)).map (fun token => (atoi token, text))
  else none

section Transmit

variable (g : Gateway) (stack : Nat → UInt8) (reads : List Bytes)

def translated (sent : Option (Int × Bytes)) : Option (Int × Bytes) := sent.map (fun (code, text) => (translateHttpCode code, text))

def registerThing (thing : ThingBean) (timestamp : Int) : Option (Int × Bytes) :=
  translated (encodeAndSendData g stack reads (ascii "api.datonis.io") (ascii "/api/v3/things/register.json")
    (getThingRegisterJson thing (Json.intText timestamp)) 0)

def transmitThingHeartbeat (thing : ThingBean) (timestamp : Int) : Option (Int × Bytes) :=
  translated (encodeAndSendData g stack reads (ascii "api.datonis.io") (ascii "/api/v3/things/heartbeat.json")
    (getThingHeartbeatJson thing (Json.intText timestamp)) 0)

def transmitThingData (thing : ThingBean) (value waypoint : Option Bytes) (timestamp : Int) : Option (Int × Bytes) :=
  translated (encodeAndSendData g stack reads (ascii "api.datonis.io") (ascii "/api/v3/things/event.json")
    (getThingDataJsonTs thing value waypoint (Json.intText timestamp)) 0)

def transmitCompressedThingData (thing : ThingBean) (value waypoint : Option Bytes) (timestamp : Int) : Option (Int × Bytes) :=
  translated (encodeAndSendData g stack reads (ascii "api.datonis.io") (ascii "/api/v3/things/event.json")
    (getThingDataJsonTs thing value waypoint (Json.intText timestamp)) 1)

def transmitThingAlert (thing : ThingBean) (level : Int) (message : Bytes) (data : Option Bytes) (timestamp : Int) :
    Option (Int × Bytes) :=
  translated (encodeAndSendData g stack reads (ascii "api.datonis.io") (ascii "/api/v3/alerts.json")
    (getThingAlertJson thing level message data (Json.intText timestamp)) 0)

def transmitThingDataPacket (packet : Bytes) : Option (Int × Bytes) :=
  translated (encodeAndSendData g stack reads (ascii "api.datonis.io") (ascii "/api/v3/things/event.json") packet 0)

def transmitCompressedThingDataPacket (packet : Bytes) : Option (Int × Bytes) :=
  translated (encodeAndSendData g stack reads (ascii "api.datonis.io") (ascii "/api/v3/things/event.json") packet 1)

def transmit : Transmission → Option (Int × Bytes)
  | .register thing timestamp => registerThing g stack reads thing timestamp
  | .heartbeat thing timestamp => transmitThingHeartbeat g stack reads thing timestamp
  | .thingData thing value waypoint timestamp => transmitThingData g stack reads thing value waypoint timestamp
  | .compressedThingData thing value waypoint timestamp => transmitCompressedThingData g stack reads thing value waypoint timestamp
  | .thingAlert thing level message data timestamp => transmitThingAlert g stack reads thing level message data timestamp
  | .dataPacket packet => transmitThingDataPacket g stack reads packet
  | .compressedDataPacket packet => transmitCompressedThingDataPacket g stack reads packet

-- The path below /api/v3/.
def resource : Transmission → Bytes
  | .register .. => ascii "things/register.json"
  | .heartbeat .. => ascii "things/heartbeat.json"
  | .thingAlert .. => ascii "alerts.json"
  | _ => ascii "things/event.json"

def path (t : Transmission) : Bytes := ascii "/api/v3/" ++ resource t

def requestText (t : Transmission) : Bytes :=
  postText (ascii "api.datonis.io") (path t) g.accessKey (g.getHmac g.secretKey t.text) t.text

theorem transmit_sends (t : Transmission) : transmit g stack reads t =
    translated (encodeAndSendData g stack reads (ascii "api.datonis.io") (path t) t.text t.flag) := by
  cases t <;> rfl

end Transmit

theorem mbed_read_arrived (len : Nat) (reads : List Bytes) : mbedRead len reads <+: reads.flatten := by
  induction reads generalizing len with
  | nil => exact List.nil_prefix
  | cons found later ih =>
      simp only [mbedRead, List.flatten_cons]
      split
      · exact List.nil_prefix
      · split
        · rename_i short
          have whole : found.take len = found := List.take_of_length_le (by
            rw [List.length_take] at short
            omega)
          rw [whole]
          exact (List.prefix_append_right_inj found).mpr (ih _)
        · exact (List.take_prefix len found).trans (List.prefix_append found _)

theorem mbed_read_length (len : Nat) (reads : List Bytes) : (mbedRead len reads).length ≤ len := by
  induction reads generalizing len with
  | nil => exact Nat.zero_le _
  | cons found later ih =>
      simp only [mbedRead]
      have taken := List.length_take_le len found
      split
      · exact Nat.zero_le _
      · split
        · have rest := ih (len - (found.take len).length)
          rw [List.length_append]
          omega
        · exact taken

-- The array once what is read stands over the request.
theorem data_loaded (stack : Nat → UInt8) (text got : Bytes) (fits : text.length < DATA_SIZE) (room : got.length ≤ DATA_SIZE) :
    ∃ rest, Memory.load (Memory.store (Memory.store stack 0 (text ++ [0])) 0 got) 0 DATA_SIZE =
      got ++ (text ++ 0 :: rest).drop got.length := by
  have ended : (text ++ [(0 : UInt8)]).length ≤ DATA_SIZE := by
    rw [List.length_append]
    exact fits
  refine ⟨(Memory.load stack 0 DATA_SIZE).drop (text ++ [(0 : UInt8)]).length, ?_⟩
  rw [Memory.load_stored_over _ got DATA_SIZE room, Memory.load_stored_over stack _ DATA_SIZE ended, List.append_assoc]
  rfl

theorem token_found (data token more : Bytes) (placed : data.drop 9 = token ++ 0x20 :: more) (some_text : token ≠ [])
    (plain : ∀ c ∈ token, c ≠ 0x20 ∧ c ≠ 0) : statusToken data = some token := by
  have skipped : (token ++ 0x20 :: more).dropWhile (· == 0x20) = token ++ 0x20 :: more := by
    cases token with
    | nil => exact absurd rfl some_text
    | cons c token =>
        refine List.dropWhile_cons_of_neg (fun space => ?_)
        exact (plain c List.mem_cons_self).1 (beq_iff_eq.mp space)
  have inside : ∀ c ∈ token, (c != 0x20 && c != 0) = true := by
    intro c member
    simpa using plain c member
  have taken : (token ++ 0x20 :: more).takeWhile (fun c => c != 0x20 && c != 0) = token := by
    rw [List.takeWhile_append_of_pos inside]
    exact List.append_nil token
  have behind : ¬ (token = [] ∨ token.length = (token ++ 0x20 :: more).length) := by
    simp [some_text]
  simp only [statusToken, placed, skipped, taken, if_neg behind]

theorem digit_plain (c : UInt8) (digit : Json.isDigit c = true) :
    isspace c = false ∧ c ≠ 0x2d ∧ c ≠ 0x2b ∧ c ≠ 0x20 ∧ c ≠ 0 := by
  refine ⟨?_, ?_, ?_, ?_, ?_⟩
  · simp only [Json.isDigit, Bool.and_eq_true, decide_eq_true_eq, UInt8.le_iff_toNat_le] at digit
    have low : 48 ≤ c.toNat := digit.1
    simp only [isspace, Bool.or_eq_false_iff, beq_eq_false_iff_ne, Bool.and_eq_false_iff, decide_eq_false_iff_not, UInt8.le_iff_toNat_le]
    refine ⟨fun same => ?_, .inr (fun high => ?_)⟩
    · rw [same] at low
      exact absurd low (by decide)
    · have high : c.toNat ≤ 13 := high
      omega
  all_goals
    intro same
    rw [same] at digit
    exact absurd digit (by decide)

theorem atoi_digits (digits tail : Bytes) (all : ∀ c ∈ digits, Json.isDigit c = true) (some_digit : digits ≠ [])
    (stop : ∀ c, tail.head? = some c → Json.isDigit c = false) (small : Json.decimal digits ≤ 2147483647) :
    atoi (digits ++ tail) = Json.decimal digits := by
  have taken : (digits ++ tail).takeWhile Json.isDigit = digits := by
    rw [List.takeWhile_append_of_pos all]
    cases tail with
    | nil => exact List.append_nil digits
    | cons c tail => rw [List.takeWhile_cons_of_neg (by rw [stop c rfl]; exact Bool.false_ne_true), List.append_nil]
  cases digits with
  | nil => exact absurd rfl some_digit
  | cons c digits =>
      obtain ⟨unspaced, notMinus, notPlus, _⟩ := digit_plain c (all c List.mem_cons_self)
      have kept : (c :: digits ++ tail).dropWhile isspace = c :: digits ++ tail :=
        List.dropWhile_cons_of_neg (by rw [unspaced]; exact Bool.false_ne_true)
      have value : strtol (c :: digits ++ tail) = Json.decimal (c :: digits) := by
        rw [strtol, kept, List.cons_append]
        split
        · rename_i rest same
          exact absurd (List.cons.inj same).1 notMinus
        · rename_i rest same
          exact absurd (List.cons.inj same).1 notPlus
        · rw [← List.cons_append, taken, LONG_MAX]
          omega
      rw [atoi, value, INT_MAX]
      omega

-- A response with three digits for its code behind the protocol and version.
structure Answers (response : Bytes) (d1 d2 d3 : UInt8) : Prop where
  shape : ∃ front after, response = front ++ d1 :: d2 :: d3 :: 0x20 :: after ∧ front.length = 9
  digits : Json.isDigit d1 = true ∧ Json.isDigit d2 = true ∧ Json.isDigit d3 = true

theorem checked_plain (text : Bytes) (checked : text.all (fun c => c != 0x20 && c != 0 && c != 13) = true) :
    ∀ c ∈ text, c ≠ 0x20 ∧ c ≠ 0 ∧ c ≠ 13 := by
  intro c member
  have plain := List.all_eq_true.mp checked c member
  simpa only [Bool.and_eq_true, bne_iff_ne, and_assoc] using plain

theorem resource_plain (t : Transmission) : ∀ c ∈ resource t, c ≠ 0x20 ∧ c ≠ 0 ∧ c ≠ 13 := by
  refine checked_plain (resource t) ?_
  cases t <;> rfl

theorem request_text_start (g : Gateway) (t : Transmission) :
    ∃ tail, requestText g t = ascii "POST /api/v3/" ++ (resource t ++ 0x20 :: tail) := by
  simp only [requestText, postText, path, List.append_assoc]
  exact ⟨ascii "HTTP/1.1\r\nHost: " ++ _, rfl⟩

section Overlay

variable (resource : Bytes) (d1 d2 d3 : UInt8)

-- What strtok_r finds, by how much of the response has come.
def tokenOf : Nat → Bytes
  | 10 => d1 :: (ascii "v3/" ++ resource)
  | 11 => d1 :: d2 :: (ascii "3/" ++ resource)
  | 12 => d1 :: d2 :: d3 :: (ascii "/" ++ resource)
  | k => if k ≤ 9 then ascii "/v3/" ++ resource else [d1, d2, d3]

theorem token_late (k : Nat) (late : 13 ≤ k) : tokenOf resource d1 d2 d3 k = [d1, d2, d3] := by
  unfold tokenOf
  split
  all_goals first | omega | rw [if_neg (by omega)]

-- The first nine bytes of the one text are over those of the other, and then comes the code.
theorem overlay_placed (response got text : Bytes) (answers : Answers response d1 d2 d3) (cut : got <+: response) : ∃ more,
    (got ++ (ascii "POST /api/v3/" ++ (resource ++ 0x20 :: text)).drop got.length).drop 9 =
      tokenOf resource d1 d2 d3 got.length ++ 0x20 :: more := by
  obtain ⟨front, after, rfl, nine⟩ := answers.shape
  by_cases early : got.length ≤ 9
  · refine ⟨text, ?_⟩
    have beyond : (got ++ (ascii "POST /api/v3/" ++ (resource ++ 0x20 :: text)).drop got.length).drop 9 =
        (ascii "POST /api/v3/" ++ (resource ++ 0x20 :: text)).drop 9 := by
      rw [List.drop_append, List.drop_of_length_le early, List.nil_append, List.drop_drop, Nat.add_sub_cancel' early]
    have token : tokenOf resource d1 d2 d3 got.length = ascii "/v3/" ++ resource := by
      unfold tokenOf
      split
      all_goals first | omega | rw [if_pos early]
    rw [beyond, token, List.append_assoc]
    rfl
  · obtain ⟨rest, rfl⟩ := List.prefix_of_prefix_length_le (List.prefix_append front _) cut (by omega)
    have size : (front ++ rest).length = 9 + rest.length := by rw [List.length_append, nine]
    have dropped : ∀ behind : Bytes, (front ++ rest ++ behind).drop 9 = rest ++ behind := by
      intro behind
      rw [List.append_assoc, List.drop_left' nine]
    have coded := (List.prefix_append_right_inj front).mp cut
    rw [dropped, size]
    rcases rest with _ | ⟨a, _ | ⟨b, _ | ⟨c, _ | ⟨e, rest⟩⟩⟩⟩
    · exact absurd (by simp [nine]) early
    · obtain ⟨rfl, _⟩ := List.cons_prefix_cons.mp coded
      exact ⟨text, by simp [tokenOf, ascii]⟩
    · simp only [List.cons_prefix_cons] at coded
      obtain ⟨rfl, rfl, _⟩ := coded
      exact ⟨text, by simp [tokenOf, ascii]⟩
    · simp only [List.cons_prefix_cons] at coded
      obtain ⟨rfl, rfl, rfl, _⟩ := coded
      exact ⟨text, by simp [tokenOf, ascii]⟩
    · simp only [List.cons_prefix_cons] at coded
      obtain ⟨rfl, rfl, rfl, rfl, _⟩ := coded
      rw [token_late resource a b c _ (by simp only [List.length_cons]; omega)]
      exact ⟨rest ++ _, rfl⟩

theorem token_plain (k : Nat) (digits : ∀ d ∈ [d1, d2, d3], Json.isDigit d = true) (plain : ∀ c ∈ resource, c ≠ 0x20 ∧ c ≠ 0) :
    tokenOf resource d1 d2 d3 k ≠ [] ∧ ∀ c ∈ tokenOf resource d1 d2 d3 k, c ≠ 0x20 ∧ c ≠ 0 := by
  have clean : ∀ d ∈ [d1, d2, d3], d ≠ 0x20 ∧ d ≠ 0 := fun d member => (digit_plain d (digits d member)).2.2.2
  simp only [List.forall_mem_cons] at clean
  have path : ∀ c ∈ ascii "/v3/", c ≠ 0x20 ∧ c ≠ 0 := fun c member =>
    ⟨(checked_plain _ rfl c member).1, (checked_plain _ rfl c member).2.1⟩
  unfold tokenOf
  split
  · simp_all [ascii]
  · simp_all [ascii]
  · simp_all [ascii]
  · split
    · simp_all [ascii]
    · simp_all [ascii]

theorem digit_value (d : UInt8) (digit : Json.isDigit d = true) : d.toNat - 48 ≤ 9 := by
  simp only [Json.isDigit, Bool.and_eq_true, decide_eq_true_eq, UInt8.le_iff_toNat_le] at digit
  have high : d.toNat ≤ 57 := digit.2
  omega

theorem translate_unknown (code : Int) (unknown : code < 200 ∨ code % 10 = 3) : translateHttpCode code = ERR_FAILED := by
  unfold translateHttpCode
  repeat rw [if_neg (by omega)]

-- The code that is read: the response's own once its three digits are there, and none that means anything before.
theorem token_code (k : Nat) (first : Json.isDigit d1 = true) (second : Json.isDigit d2 = true) (third : Json.isDigit d3 = true) :
    translateHttpCode (atoi (tokenOf resource d1 d2 d3 k)) =
      if 12 ≤ k then translateHttpCode (Json.decimal [d1, d2, d3]) else ERR_FAILED := by
  have low1 := digit_value d1 first
  have low2 := digit_value d2 second
  have low3 := digit_value d3 third
  unfold tokenOf
  split
  · have code := atoi_digits [d1] (ascii "v3/" ++ resource) (by simp [first]) (by simp) (fun c start => by
      obtain rfl := Option.some.inj start
      rfl) (by simp [Json.decimal]; omega)
    rw [List.singleton_append] at code
    rw [code, if_neg (by decide)]
    refine translate_unknown _ (.inl ?_)
    simp only [Json.decimal, List.foldl_cons, List.foldl_nil]
    omega
  · have code := atoi_digits [d1, d2, 0x33] (ascii "/" ++ resource) (by simp [first, second]; rfl) (by simp) (fun c start => by
      obtain rfl := Option.some.inj start
      rfl) (by simp [Json.decimal]; omega)
    have same : d1 :: d2 :: (ascii "3/" ++ resource) = [d1, d2, 0x33] ++ (ascii "/" ++ resource) := rfl
    rw [same, code, if_neg (by decide)]
    refine translate_unknown _ (.inr ?_)
    simp only [Json.decimal, List.foldl_cons, List.foldl_nil, UInt8.reduceToNat]
    omega
  · have code := atoi_digits [d1, d2, d3] (ascii "/" ++ resource) (by simp [first, second, third]) (by simp) (fun c start => by
      obtain rfl := Option.some.inj start
      rfl) (by simp [Json.decimal]; omega)
    have same : d1 :: d2 :: d3 :: (ascii "/" ++ resource) = [d1, d2, d3] ++ (ascii "/" ++ resource) := rfl
    rw [same, code, if_pos (by decide)]
  · rename_i no10 no11 no12
    by_cases early : k ≤ 9
    · have nothing : atoi (ascii "/v3/" ++ resource) = 0 := rfl
      rw [if_pos early, nothing, if_neg (by omega)]
      exact translate_unknown 0 (.inl (by decide))
    · have code := atoi_digits [d1, d2, d3] [] (by simp [first, second, third]) (by simp) (fun c start => by cases start)
        (by simp [Json.decimal]; omega)
      rw [List.append_nil] at code
      have late : 12 ≤ k := by
        have not10 : k ≠ 10 := no10
        have not11 : k ≠ 11 := no11
        omega
      rw [if_neg early, code, if_pos late]

end Overlay

theorem answer_read (g : Gateway) (stack : Nat → UInt8) (reads : List Bytes) (t : Transmission) (response : Bytes) (d1 d2 d3 : UInt8)
    (fits : (requestText g t).length < DATA_SIZE) (answers : Answers response d1 d2 d3) (cut : reads.flatten <+: response) :
    transmit g stack reads t = some (if 12 ≤ (mbedRead DATA_SIZE reads).length then translateHttpCode (Json.decimal [d1, d2, d3])
      else ERR_FAILED, requestText g t) := by
  have got := (mbed_read_arrived DATA_SIZE reads).trans cut
  obtain ⟨rest, loaded⟩ := data_loaded stack (requestText g t) (mbedRead DATA_SIZE reads) fits (mbed_read_length DATA_SIZE reads)
  obtain ⟨tail, start⟩ := request_text_start g t
  obtain ⟨first, second, third⟩ := answers.digits
  have written : requestText g t ++ 0 :: rest = ascii "POST /api/v3/" ++ (resource t ++ 0x20 :: (tail ++ 0 :: rest)) := by
    rw [start]
    simp
  rw [written] at loaded
  obtain ⟨more, placed⟩ := overlay_placed (resource t) d1 d2 d3 response _ (tail ++ 0 :: rest) answers got
  rw [← loaded] at placed
  obtain ⟨some_token, plain⟩ := token_plain (resource t) d1 d2 d3 (mbedRead DATA_SIZE reads).length
    (by simp [first, second, third]) (fun c member => ⟨(resource_plain t c member).1, (resource_plain t c member).2.1⟩)
  have token := token_found _ _ _ placed some_token plain
  rw [transmit_sends, encodeAndSendData]
  simp only [requestText] at fits token ⊢
  rw [if_pos fits, token]
  simp only [translated, Option.map_some]
  rw [token_code (resource t) d1 d2 d3 _ first second third]

-- However the response comes, the result is that of its code, or ERR_FAILED as long as the code is not there; the request
-- reads as the JSON text with its signature.
theorem transmit_outcome (g : Gateway) (stack : Nat → UInt8) (reads : List Bytes) (t : Transmission) (response : Bytes)
    (d1 d2 d3 : UInt8) (linked : ∃ stack, g.getHmac = get_hmac stack) (key : g.secretKey.length < 2 ^ 31) (access : HeaderValue g.accessKey)
    (fits : (requestText g t).length < DATA_SIZE) (answers : Answers response d1 d2 d3) (cut : reads.flatten <+: response) :
    transmit g stack reads t = some (if 12 ≤ (mbedRead DATA_SIZE reads).length then translateHttpCode (Json.decimal [d1, d2, d3])
        else ERR_FAILED, requestText g t) ∧
      HttpText.read (requestText g t) = some (postMessage (ascii "api.datonis.io") (path t) g.accessKey
        (printDigest (Hmac.hmac Fips180.sha256 64 g.secretKey t.text)) t.text, []) := by
  refine ⟨answer_read g stack reads t response d1 d2 d3 fits answers cut, ?_⟩
  obtain ⟨stack, hmac⟩ := linked
  have small : t.text.length < 2 ^ 32 := by
    simp only [requestText, postText, List.length_append, DATA_SIZE] at fits
    omega
  have plain : (13 : UInt8) ∉ path t := by
    have front : (13 : UInt8) ∉ ascii "/api/v3/" := by decide
    rw [path, List.mem_append, not_or]
    exact ⟨front, fun member => (resource_plain t 13 member).2.2 rfl⟩
  have formed := post_message_formed (ascii "api.datonis.io") (path t) g.accessKey
    (printDigest (Hmac.hmac Fips180.sha256 64 g.secretKey t.text)) t.text (by decide) plain access (print_digest_header _)
  have read := HttpText.read_written _ [] formed
  rw [List.append_nil] at read
  rw [requestText, hmac, get_hmac_whole stack g.secretKey t.text key small, post_text_written, read]

theorem cut_answer_failed :
    transmit linkedGateway (fun _ => 0) [ascii "HTTP/1.1 ", ascii "20"] (.dataPacket (ascii "\x7b\x7d")) =
        some (if 12 ≤ (mbedRead DATA_SIZE [ascii "HTTP/1.1 ", ascii "20"]).length then translateHttpCode (Json.decimal [0x32, 0x30, 0x30])
          else ERR_FAILED, requestText linkedGateway (.dataPacket (ascii "\x7b\x7d"))) ∧
      HttpText.read (requestText linkedGateway (.dataPacket (ascii "\x7b\x7d"))) =
        some (postMessage (ascii "api.datonis.io") (path (.dataPacket (ascii "\x7b\x7d"))) linkedGateway.accessKey
          (printDigest (Hmac.hmac Fips180.sha256 64 linkedGateway.secretKey (ascii "\x7b\x7d"))) (ascii "\x7b\x7d"), []) := by
  have hash : (linkedGateway.getHmac linkedGateway.secretKey (ascii "\x7b\x7d")).length = 64 := print_digest_length _
  have fits : (requestText linkedGateway (.dataPacket (ascii "\x7b\x7d"))).length < DATA_SIZE := by
    simp only [requestText, postText, List.length_append, Transmission.text, hash]
    decide
  exact transmit_outcome linkedGateway (fun _ => 0) [ascii "HTTP/1.1 ", ascii "20"] (.dataPacket (ascii "\x7b\x7d"))
    (ascii "HTTP/1.1 200 OK\r\n") 0x32 0x30 0x30 gateway_linked.hmac (by decide) (by decide) fits
    ⟨⟨ascii "HTTP/1.1 ", ascii "OK\r\n", rfl, rfl⟩, by decide⟩ ⟨ascii "0 OK\r\n", rfl⟩

end Aliot.Marvel
