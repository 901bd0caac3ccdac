import Aliot.Builders
import Aliot.Signing

set_option autoImplicit false

namespace Aliot

open Json (Value Members Items)

-- A char * is an offset into memory, and its string ends in front of the next NUL.
def stringAt (memory : Bytes) (address : Int) : Bytes := printed (memory.drop address.toNat)

-- The loop of get_thing_bulk_data_json with sep and packets as its next round finds them.
def catEvents (memory : Bytes) (packetSize : Int) : Nat → Bytes → Int → Bytes → Bytes
  | 0, _, _, json => json
  | left + 1, sep, packets, json =>
      catEvents memory packetSize left (ascii ",") (packets + packetSize) (json ++ sep ++ stringAt memory packets)

def getThingBulkDataJson (memory : Bytes) (packets packetSize count : Int) : Bytes :=
  let json := startJSON ++ ascii "\"events\":["
  let json := catEvents memory packetSize count.toNat [] packets json
  endJSON (json ++ ascii "]")

def createThingBulkDataPacket (memory : Bytes) (packets packetSize count : Int) : Bytes :=
  getThingBulkDataJson memory packets packetSize count

structure EventText extends CString where
  members : Members
  object : Json.Padded (.object members) bytes
  valid : (Value.object members).wellFormed = true

-- The string with its NUL in a slot of packetSize bytes; anything may be behind it.
def Slot (memory : Bytes) (address packetSize : Int) (s : CString) : Prop :=
  0 ≤ address ∧ ∃ rest, (memory.drop address.toNat).take packetSize.toNat = s.bytes ++ 0 :: rest

def Slots (memory : Bytes) (packets packetSize : Int) (events : List EventText) : Prop :=
  ∀ i (inside : i < events.length), Slot memory (packets + i * packetSize) packetSize events[i].toCString

def eventItems : List EventText → Items
  | [] => .nil
  | event :: events => .cons (.object event.members) (eventItems events)

def bulkMembers (events : List EventText) : Members := .cons (.string (ascii "events")) (.array (eventItems events)) .nil

def joined (sep : Bytes) : List EventText → Bytes
  | [] => []
  | event :: events => sep ++ event.bytes ++ joined (ascii ",") events

def eventsArray (events : List EventText) : Bytes := Json.openBracket :: (joined [] events ++ [Json.closeBracket])

-- An object with the member events, and `more` in front of its last brace.
def bulkText (array more : Bytes) : Bytes :=
  Json.openBrace :: (Json.quoted (ascii "events") ++ Json.colon :: (array ++ more) ++ [Json.closeBrace])

-- What is built, and what encode_and_send_data makes of it and hands to send_data.
structure BulkLaw (g : Gateway) (events : List EventText) (packet : Bytes) : Prop where
  built : packet = bulkText (eventsArray events) []
  object : (Value.object (bulkMembers events)).Spells packet
  valid : (Value.object (bulkMembers events)).wellFormed = true
  published : Publishes g packet (bulkText (eventsArray events) (envelope g packet).listed)
  signed : (signedObject g (bulkMembers events) packet).Spells (bulkText (eventsArray events) (envelope g packet).listed)
  signedValid : ∀ digest, g.getHmac g.secretKey packet = printDigest digest →
    ((signedObject g (bulkMembers events) packet).wellFormed = true ↔ Json.stringBody 0 g.accessKey = true)

theorem slot_string (memory : Bytes) (address packetSize : Int) (s : CString) (slot : Slot memory address packetSize s) :
    stringAt memory address = s.bytes := by
  obtain ⟨_, rest, taken⟩ := slot
  have whole := List.take_append_drop packetSize.toNat (memory.drop address.toNat)
  rw [taken, List.append_assoc] at whole
  have visible : ∀ byte ∈ s.bytes, (byte != 0) = true := fun byte listed =>
    bne_iff_ne.mpr (fun zero => s.nulFree (zero ▸ listed))
  rw [stringAt, ← whole, printed, List.takeWhile_append_of_pos visible, List.cons_append, List.takeWhile_cons_of_neg (by decide),
    List.append_nil]

theorem slots_cons (memory : Bytes) (packets packetSize : Int) (event : EventText) (events : List EventText)
    (slots : Slots memory packets packetSize (event :: events)) :
    Slot memory packets packetSize event.toCString ∧ Slots memory (packets + packetSize) packetSize events := by
  constructor
  · have first := slots 0 (Nat.succ_pos _)
    rw [Nat.cast_zero, Int.zero_mul, Int.add_zero] at first
    exact first
  · intro i inside
    have later := slots (i + 1) (Nat.succ_lt_succ inside)
    have stride : packets + ((i + 1 : Nat) : Int) * packetSize = packets + packetSize + i * packetSize := by
      push_cast
      ring
    rw [stride] at later
    exact later

theorem cat_events_joined (memory : Bytes) (packetSize : Int) (events : List EventText) (sep : Bytes) (packets : Int)
    (json : Bytes) (slots : Slots memory packets packetSize events) :
    catEvents memory packetSize events.length sep packets json = json ++ joined sep events := by
  induction events generalizing sep packets json with
  | nil => exact (List.append_nil json).symm
  | cons event events ih =>
      obtain ⟨first, rest⟩ := slots_cons memory packets packetSize event events slots
      rw [List.length_cons, catEvents, ih _ _ _ rest, slot_string memory packets packetSize _ first, joined]
      simp only [List.append_assoc]

theorem bulk_data_text (memory : Bytes) (packets packetSize : Int) (events : List EventText)
    (slots : Slots memory packets packetSize events) :
    createThingBulkDataPacket memory packets packetSize events.length = bulkText (eventsArray events) [] := by
  have opened : startJSON ++ ascii "\"events\":[" =
    Json.openBrace :: (Json.quoted (ascii "events") ++ [Json.colon, Json.openBracket]) := rfl
  have bracket : ascii "]" = [Json.closeBracket] := rfl
  have brace : ascii "\x7d" = [Json.closeBrace] := rfl
  simp only [createThingBulkDataPacket, getThingBulkDataJson, Int.toNat_natCast,
    cat_events_joined memory packetSize events [] packets _ slots, opened, bracket, endJSON, brace, bulkText, eventsArray]
  simp only [List.append_assoc, List.cons_append, List.nil_append, List.append_nil]

theorem joined_lists (events : List EventText) : (eventItems events).Lists (joined (ascii ",") events) := by
  induction events with
  | nil => rfl
  | cons event events ih =>
      obtain ⟨before, spelled, after, text, blank, blankAfter, spells⟩ := event.object
      refine ⟨before, spelled, after, joined (ascii ",") events, ?_, blank, blankAfter, spells, ih⟩
      rw [joined, text]
      rfl

theorem events_array_spells (events : List EventText) : (Value.array (eventItems events)).Spells (eventsArray events) := by
  refine ⟨joined [] events, rfl, ?_⟩
  cases events with
  | nil => exact .inl ⟨rfl, Json.blank_nil⟩
  | cons event events => exact .inr (joined_lists (event :: events))

theorem event_items_valid (events : List EventText) : (eventItems events).wellFormed = true := by
  induction events with
  | nil => rfl
  | cons event events ih => exact Bool.and_eq_true_iff.mpr ⟨event.valid, ih⟩

theorem events_name_valid : Json.stringBody 0 (ascii "events") = true := by decide +kernel

theorem bulk_members_valid (events : List EventText) : (bulkMembers events).wellFormed = true := by
  simp only [bulkMembers, Members.wellFormed, Value.isKey, Value.wellFormed, events_name_valid, event_items_valid, Bool.and_self]

theorem bulk_members_list (events : List EventText) :
    (bulkMembers events).Lists (Json.comma :: (Json.quoted (ascii "events") ++ Json.colon :: eventsArray events)) := by
  refine ⟨[], Json.quoted (ascii "events"), [], [], eventsArray events, [], [], ?_, Json.blank_nil, Json.blank_nil,
    Json.blank_nil, Json.blank_nil, rfl, events_array_spells events, rfl⟩
  simp only [List.nil_append, List.append_nil]

theorem bulk_text_spells (events : List EventText) (more : Members) (moreText : Bytes) (lists : more.Lists moreText) :
    (Value.object ((bulkMembers events).append more)).Spells (bulkText (eventsArray events) moreText) := by
  refine ⟨_, rfl, .inr ?_⟩
  have listed := Json.lists_append (bulkMembers events) more _ _ (bulk_members_list events) lists
  simpa only [List.cons_append, List.append_assoc] using listed

theorem bulk_text_signed (g : Gateway) (events : List EventText) :
    signedJson g (bulkText (eventsArray events) []) =
      bulkText (eventsArray events) (envelope g (bulkText (eventsArray events) [])).listed := by
  rw [signed_json_text, added_listed]
  conv_lhs => rw [bulkText, drop_brace]
  simp only [bulkText, List.append_assoc, List.cons_append, List.append_nil]

theorem bulk_packet_signed (g : Gateway) (memory : Bytes) (packets packetSize : Int) (events : List EventText)
    (slots : Slots memory packets packetSize events) :
    BulkLaw g events (createThingBulkDataPacket memory packets packetSize events.length) := by
  rw [bulk_data_text memory packets packetSize events slots]
  have none : (bulkMembers events).append .nil = bulkMembers events := rfl
  refine ⟨rfl, none ▸ bulk_text_spells events .nil [] rfl, bulk_members_valid events, ?_, ?_, ?_⟩
  · rw [← bulk_text_signed]
    exact signed_json_published g _
  · exact bulk_text_spells events _ _ (Json.members_listed _)
  · intro digest hash
    rw [signedObject, Value.wellFormed, Json.well_formed_append, bulk_members_valid, Bool.true_and]
    exact envelope_valid_iff g _ digest hash

def firstReading : EventText where
  bytes := ascii "\x7b\"t\":1\x7d"
  nulFree := by decide
  members := .cons (.string (ascii "t")) (.primitive (ascii "1")) .nil
  object := Json.text_padded _
  valid := by decide +kernel

def secondReading : EventText where
  bytes := ascii "\x7b\"t\":22\x7d"
  nulFree := by decide
  members := .cons (.string (ascii "t")) (.primitive (ascii "22")) .nil
  object := Json.text_padded _
  valid := by decide +kernel

def packetBuffer : Bytes := firstReading.bytes ++ [0, 0x7d, 0x7d] ++ secondReading.bytes ++ [0, 0x7d]

theorem reading_slots : Slots packetBuffer 0 10 [firstReading, secondReading] := by
  intro i inside
  rcases i with _ | _ | i
  · exact ⟨by decide, [0x7d, 0x7d], rfl⟩
  · exact ⟨by decide, [0x7d], rfl⟩
  · simp only [List.length_cons, List.length_nil] at inside
    omega

theorem readings_signed :
    createThingBulkDataPacket packetBuffer 0 10 2 = ascii "\x7b\"events\":[\x7b\"t\":1\x7d,\x7b\"t\":22\x7d]\x7d" ∧
      BulkLaw digestGateway [firstReading, secondReading] (createThingBulkDataPacket packetBuffer 0 10 2) :=
  ⟨by decide +kernel, bulk_packet_signed digestGateway packetBuffer 0 10 [firstReading, secondReading] reading_slots⟩

end Aliot
