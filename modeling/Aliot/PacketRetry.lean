import Aliot.PublishedBytes

set_option autoImplicit false

namespace Aliot

open Json (Value Members)

def eventTopic (g : Gateway) : Bytes := ascii "Altizon/Datonis/" ++ g.clientId ++ ascii "/event"

-- The caller's buffer before and after the call, and the result if the call returns.
structure Attempt where
  packet : Bytes
  text : Bytes
  rc : Option Int
deriving DecidableEq

def transmitPacket (g : Gateway) (call : Call Handler Host Note) (flag : Int) (packet : Bytes) (s : GatewaySys) :
    Attempt × GatewaySys :=
  let outcome := encodeAndSendData g call QOS1 (eventTopic g) packet flag s
  (⟨packet, signedJson g packet, outcome.map Prod.fst⟩, outcome.elim s Prod.snd)

def transmitThingDataPacket (g : Gateway) (call : Call Handler Host Note) (packet : Bytes) (s : GatewaySys) :
    Attempt × GatewaySys :=
  transmitPacket g call 0 packet s

def transmitCompressedThingDataPacket (g : Gateway) (call : Call Handler Host Note) (packet : Bytes) (s : GatewaySys) :
    Attempt × GatewaySys :=
  transmitPacket g call 1 packet s

-- One call after the other on the same buffer; true stands for the compressed variant.
def attempts (g : Gateway) (call : Call Handler Host Note) : List Bool → Bytes → GatewaySys → List Attempt
  | [], _, _ => []
  | compressed :: more, packet, s =>
      let outcome :=
        if compressed then transmitCompressedThingDataPacket g call packet s else transmitThingDataPacket g call packet s
      outcome.1 :: if outcome.1.rc.isSome then attempts g call more outcome.1.text outcome.2 else []

def EarlierFailed (g : Gateway) (call : Call Handler Host Note) (calls : List Bool) (packet : Bytes) (s : GatewaySys) : Prop :=
  (attempts g call calls packet s).length = calls.length ∧
    ∀ attempt ∈ (attempts g call calls packet s).dropLast, attempt.rc ≠ none ∧ attempt.rc ≠ some ERR_OK

-- The members that encode_and_send_data adds, with the hash of the text it is given.
def envelope (g : Gateway) (packet : Bytes) : Members :=
  .cons (.string (ascii "hash")) (.string (g.getHmac g.secretKey packet))
    (.cons (.string (ascii "access_key")) (.string g.accessKey)
      (.cons (.string (ascii "aliot_protocol_version")) (.primitive (ascii "2")) .nil))

-- The caller's text up to its last brace, and as a whole the caller's object with the added members.
def Signed (g : Gateway) (members : Members) (packet text : Bytes) : Prop :=
  packet.dropLast <+: text ∧ (Value.object (members.append (envelope g packet))).Spells text

-- Every attempt publishes what the first one does, the signed event.
def RetriesAlike (g : Gateway) (call : Call Handler Host Note) (calls : List Bool) (members : Members) (packet : Bytes)
    (s : GatewaySys) : Prop :=
  ∀ attempt ∈ attempts g call calls packet s,
    ∃ text, Publishes g packet text ∧ Publishes g attempt.packet text ∧ Signed g members packet text

def added (g : Gateway) (packet : Bytes) : Bytes :=
  ascii ",\"hash\":\"" ++ g.getHmac g.secretKey packet ++ ascii "\",\"access_key\":\"" ++ g.accessKey ++
    ascii "\",\"aliot_protocol_version\":2"

theorem signed_json_text (g : Gateway) (packet : Bytes) :
    signedJson g packet = packet.dropLast ++ added g packet ++ [Json.closeBrace] := by
  have comma : ascii "," = [Json.comma] := rfl
  have brace : ascii "\x7d" = [Json.closeBrace] := rfl
  have opened : ascii ",\"hash\":\"" = ascii "," ++ ascii "\"" ++ ascii "hash" ++ ascii "\":\"" := by decide
  have next : ascii "\",\"access_key\":\"" = ascii "\"" ++ ascii "," ++ ascii "\"" ++ ascii "access_key" ++ ascii "\":\"" := by
    decide
  have last : ascii "\",\"aliot_protocol_version\":2" =
      ascii "\"" ++ ascii "," ++ ascii "\"" ++ ascii "aliot_protocol_version" ++ ascii "\":" ++ ascii "2" := by decide
  simp only [signedJson, putJSONStringAndComma, putJSONDoubleAndComma, putJSONString, putJSONDouble, endJSON, added, opened,
    next, last, brace]
  rw [comma, List.dropLast_concat]
  simp only [List.append_assoc]

theorem signed_json_longer (g : Gateway) (packet : Bytes) : packet.length < (signedJson g packet).length := by
  have extra : (ascii ",\"hash\":\"").length = 9 := by decide
  rw [signed_json_text]
  simp only [added, List.length_append, List.length_dropLast, extra, List.length_cons, List.length_nil]
  omega

theorem added_listed (g : Gateway) (packet : Bytes) : added g packet = (envelope g packet).listed := by
  have opened : ascii ",\"hash\":\"" = Json.comma :: (Json.quoted (ascii "hash") ++ [Json.colon, Json.quote]) := by decide
  have next : ascii "\",\"access_key\":\"" =
      [Json.quote, Json.comma] ++ Json.quoted (ascii "access_key") ++ [Json.colon, Json.quote] := by decide
  have last : ascii "\",\"aliot_protocol_version\":2" =
      [Json.quote, Json.comma] ++ Json.quoted (ascii "aliot_protocol_version") ++ [Json.colon] ++ ascii "2" := by decide
  simp only [added, opened, next, last, envelope, Members.listed, Value.text]
  simp [Json.quoted]

theorem envelope_lists (g : Gateway) (packet : Bytes) : (envelope g packet).Lists (added g packet) := by
  rw [added_listed]
  exact Json.members_listed _

theorem drop_brace (inner : Bytes) :
    (Json.openBrace :: (inner ++ [Json.closeBrace])).dropLast = Json.openBrace :: inner := by
  rw [← List.cons_append]
  exact List.dropLast_concat

theorem signed_first (g : Gateway) (members : Members) (packet : Bytes) (object : (Value.object members).Spells packet)
    (some : members.isNil = false) : Signed g members packet (signedJson g packet) := by
  obtain ⟨inner, rfl, empty | lists⟩ := object
  · rw [empty.1] at some
    cases some
  rw [Signed, signed_json_text, drop_brace]
  refine ⟨⟨_, (List.append_assoc _ _ _).symm⟩, inner ++ added g _, rfl, .inr ?_⟩
  exact Json.lists_append members _ (Json.comma :: inner) _ lists (envelope_lists g _)

-- After the brace of an empty object comes a comma, where a member has to start.
theorem empty_unsigned (g : Gateway) (packet : Bytes) (object : (Value.object .nil).Spells packet) :
    ¬ Signed g .nil packet (signedJson g packet) := by
  obtain ⟨inner, rfl, ⟨_, blank⟩ | lists⟩ := object
  swap
  · cases lists
  rintro ⟨_, listed, text, empty | lists⟩
  · cases empty.1
  obtain ⟨before, keyText, afterKey, beforeValue, valueText, after, more, spelled, blankBefore, _, _, _, keySpells, _⟩ := lists
  obtain rfl : keyText = Json.quoted (ascii "hash") := keySpells
  rw [signed_json_text, drop_brace] at text
  have blankStart : ∀ space tail : Bytes, Json.Blank space →
      (space ++ tail).dropWhile Json.isSpace = tail.dropWhile Json.isSpace :=
    fun space tail allBlank => List.dropWhile_append_of_pos allBlank
  rw [List.cons_append, List.cons_append] at text
  have same := congrArg (List.dropWhile Json.isSpace) (List.cons.inj text).2
  rw [(List.cons.inj spelled).2] at same
  simp only [List.append_assoc] at same
  rw [blankStart inner _ blank, blankStart before _ blankBefore] at same
  obtain ⟨rest, starts⟩ : ∃ rest, added g (Json.openBrace :: (inner ++ [Json.closeBrace])) = Json.comma :: rest := ⟨_, rfl⟩
  have commaStays : ¬ Json.isSpace Json.comma = true := by decide
  have quoteStays : ¬ Json.isSpace Json.quote = true := by decide
  rw [starts, Json.quoted, List.cons_append, List.cons_append, List.dropWhile_cons_of_neg commaStays,
    List.dropWhile_cons_of_neg quoteStays] at same
  exact absurd (List.cons.inj same).1 (by decide)

theorem attempts_cons (g : Gateway) (call : Call Handler Host Note) (compressed : Bool) (more : List Bool) (packet : Bytes)
    (s : GatewaySys) : ∃ rc rest, attempts g call (compressed :: more) packet s = ⟨packet, signedJson g packet, rc⟩ :: rest ∧
      (rest = [] ∨ ∃ t, rest = attempts g call more (signedJson g packet) t) := by
  have first : ∃ rc t, (if compressed then transmitCompressedThingDataPacket g call packet s
      else transmitThingDataPacket g call packet s) = (⟨packet, signedJson g packet, rc⟩, t) := by
    cases compressed with
    | false => exact ⟨_, _, rfl⟩
    | true => exact ⟨_, _, rfl⟩
  obtain ⟨rc, t, outcome⟩ := first
  rw [attempts, outcome]
  cases rc with
  | none => exact ⟨none, [], rfl, .inl rfl⟩
  | some rc => exact ⟨some rc, attempts g call more (signedJson g packet) t, rfl, .inr ⟨t, rfl⟩⟩

theorem second_differs (g : Gateway) (call : Call Handler Host Note) (calls : List Bool) (members : Members)
    (packet : Bytes) (s : GatewaySys) (again : 2 ≤ (attempts g call calls packet s).length) :
    ¬ RetriesAlike g call calls members packet s := by
  intro alike
  cases calls with
  | nil => cases again
  | cons compressed more =>
      obtain ⟨rc, rest, once, none | ⟨t, made⟩⟩ := attempts_cons g call compressed more packet s
      · rw [once, none, List.length_singleton] at again
        omega
      cases more with
      | nil =>
          rw [once, made, attempts, List.length_singleton] at again
          omega
      | cons other later =>
          obtain ⟨_, _, twice, _⟩ := attempts_cons g call other later (signedJson g packet) t
          rw [RetriesAlike, once, made, twice] at alike
          obtain ⟨text, first, second, _⟩ := alike _ (List.mem_cons_of_mem _ List.mem_cons_self)
          have longer := signed_json_longer g (signedJson g packet)
          rw [← published_text g _ text second, ← published_text g packet text first] at longer
          exact absurd longer (Nat.lt_irrefl _)

theorem attempts_alike_iff (g : Gateway) (call : Call Handler Host Note) (calls : List Bool) (members : Members)
    (packet : Bytes) (s : GatewaySys) (object : (Value.object members).Spells packet) :
    RetriesAlike g call calls members packet s ↔
      calls = [] ∨ (attempts g call calls packet s).length = 1 ∧ members.isNil = false := by
  cases calls with
  | nil => exact iff_of_true (fun _ made => nomatch made) (.inl rfl)
  | cons compressed more =>
      obtain ⟨rc, rest, once, _⟩ := attempts_cons g call compressed more packet s
      cases rest with
      | nil =>
          simp only [RetriesAlike, once, List.mem_singleton, forall_eq, reduceCtorEq, List.length_singleton, true_and, false_or]
          cases members with
          | nil =>
              refine iff_of_false ?_ Bool.noConfusion
              rintro ⟨text, publishes, _, signed⟩
              rw [published_text g packet text publishes] at signed
              exact empty_unsigned g packet object signed
          | cons key value rest =>
              have published := signed_json_published g packet
              exact iff_of_true ⟨_, published, published, signed_first g _ packet object rfl⟩ rfl
      | cons other later =>
          have again := second_differs g call (compressed :: more) members packet s (by rw [once]; simp)
          exact iff_of_false again (by rw [once]; simp)

theorem retries_alike_iff (g : Gateway) (call : Call Handler Host Note) (calls : List Bool) (members : Members)
    (packet : Bytes) (s : GatewaySys) (object : (Value.object members).Spells packet)
    (failed : EarlierFailed g call calls packet s) :
    RetriesAlike g call calls members packet s ↔ calls = [] ∨ calls.length = 1 ∧ members.isNil = false := by
  rw [attempts_alike_iff g call calls members packet s object, failed.1]

def eventObject : Members :=
  .cons (.string (ascii "thing_key")) (.string (ascii "k")) (.cons (.string (ascii "data")) (.primitive (ascii "1")) .nil)

theorem event_json_object : (Value.object eventObject).Spells eventJson := by
  have text : eventJson = (Value.object eventObject).text := by decide +kernel
  rw [text]
  exact Json.text_spells _

def refusedSystem : GatewaySys :=
  { eventSystem [] [] with world := ⟨[], [false, true], [], []⟩ }

theorem event_sent_once :
    RetriesAlike eventGateway (gatewayCall eventGateway 0) [false] eventObject eventJson refusedSystem :=
  (retries_alike_iff eventGateway (gatewayCall eventGateway 0) [false] eventObject eventJson refusedSystem event_json_object
    ⟨by decide +kernel, by decide +kernel⟩).mpr (.inr ⟨rfl, rfl⟩)

theorem retry_signs_again :
    (Value.object eventObject).Spells eventJson ∧
      EarlierFailed eventGateway (gatewayCall eventGateway 0) [false, false] eventJson refusedSystem ∧
      ¬ RetriesAlike eventGateway (gatewayCall eventGateway 0) [false, false] eventObject eventJson refusedSystem := by
  exact ⟨event_json_object, ⟨by decide +kernel, by decide +kernel⟩, second_differs _ _ _ _ _ _ (by decide +kernel)⟩

end Aliot
