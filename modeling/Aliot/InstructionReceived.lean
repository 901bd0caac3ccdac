import Aliot.CopyBounds
import Aliot.CycleReply
import Aliot.InstructionMembers
import Aliot.PaddedLength
import Aliot.Registration

set_option autoImplicit false

namespace Aliot

open Json (Value Members Items)

-- Copied whole, and without a string that json_handler acts on.
def WordFree (value : Value) : Prop := intact value = true ∧ ∀ body ∈ value.strings, stateAfter body = 0

-- The words that json_handler acts on name members on top, with a string behind them but for the instruction.
def NamesOnTop (members : Members) : Prop :=
  ∀ member ∈ members.pairs, ∃ name, member.1 = .string name ∧
    (stateAfter name ≠ 0 → name ≠ ascii "instruction" → isString member.2 = true) ∧
    (isSigning name = false → WordFree member.2)

-- What Datonis sends for a thing: the four members, in any order and among any others.
structure Commands (members : Members) (hash thingKey alertKey : Bytes) (command : Value) : Prop where
  onTop : NamesOnTop members
  hash : ∀ value, (.string (ascii "hash"), value) ∈ members.pairs ↔ value = .string hash
  thingKey : ∀ value, (.string (ascii "thing_key"), value) ∈ members.pairs ↔ value = .string thingKey
  alertKey : ∀ value, (.string (ascii "alert_key"), value) ∈ members.pairs ↔ value = .string alertKey
  instruction : ∀ value, (.string (ascii "instruction"), value) ∈ members.pairs ↔ value = command
  container : leafOf command = none

-- The word that stands before a key: none of those that take the string behind them.
def Passed (word : Bytes) : Prop := stateAfter word = 0 ∨ word = ascii "instruction"

theorem followers_append (word : Bytes) (first second : List Bytes) :
    followers word (first ++ second) = followers word first ++ followers (lastWord word first) second := by
  induction first generalizing word with
  | nil => rfl
  | cons next first ih => simp only [List.cons_append, followers, lastWord, ih]

theorem unacted_unsigned (word : Bytes) (unacted : stateAfter word = 0) : isSigning word = false := by
  rw [← Bool.not_eq_true, ← state_after_signing]
  omega

theorem passed_unsigned (word : Bytes) (passed : Passed word) : isSigning word = false := by
  rcases passed with unacted | rfl
  · exact unacted_unsigned word unacted
  · decide

theorem last_word_other (other word : Bytes) (strings : List Bytes) (some : other ≠ []) (first : word ≠ other)
    (rest : ∀ body ∈ strings, body ≠ other) : lastWord word strings ≠ other := by
  induction strings generalizing word with
  | nil => exact first
  | cons next strings ih =>
      obtain ⟨nextOther, rest⟩ := List.forall_mem_cons.mp rest
      rw [lastWord]
      refine ih _ ?_ rest
      split
      · exact some.symm
      · exact nextOther

theorem last_word_free (word : Bytes) (strings : List Bytes) (unsigned : isSigning word = false)
    (free : ∀ body ∈ strings, stateAfter body = 0) : lastWord word strings = word ∨ stateAfter (lastWord word strings) = 0 := by
  induction strings generalizing word with
  | nil => exact .inl rfl
  | cons next strings ih =>
      obtain ⟨nextFree, free⟩ := List.forall_mem_cons.mp free
      rw [lastWord, if_neg (Bool.eq_false_iff.mp unsigned)]
      rcases ih next (unacted_unsigned next nextFree) free with same | unacted
      · exact .inr (same.symm ▸ nextFree)
      · exact .inr unacted

-- Nothing is taken behind a name that neither the word nor the strings are.
theorem none_behind (name word : Bytes) (strings : List Bytes) (some : name ≠ []) (first : word ≠ name)
    (rest : ∀ body ∈ strings, body ≠ name) : (followers word strings).filterMap (behind name) = [] := by
  induction strings generalizing word with
  | nil => rfl
  | cons next strings ih =>
      obtain ⟨nextOther, rest⟩ := List.forall_mem_cons.mp rest
      have here : behind name (word, next) = none := if_neg first
      rw [followers, List.filterMap_cons_none here]
      refine ih _ ?_ rest
      split
      · exact some.symm
      · exact nextOther

def bodyNamed (name : Bytes) : Value × Value → Option Bytes
  | (.string key, .string body) => if key = name then some body else none
  | _ => none

-- No word left behind a member on top takes the next key.
theorem member_passed (key : Bytes) (value : Value) (string : stateAfter key ≠ 0 → key ≠ ascii "instruction" → isString value = true)
    (free : isSigning key = false → WordFree value) : Passed (lastWord key value.strings) := by
  by_cases passed : Passed key
  · have unsigned := passed_unsigned key passed
    rcases last_word_free key value.strings unsigned (free unsigned).2 with same | unacted
    · exact same.symm ▸ passed
    · exact .inl unacted
  · obtain ⟨acts, other⟩ := not_or.mp passed
    cases value with
    | string body =>
        by_cases signing : isSigning key = true
        · have none : stateAfter [] = 0 := by decide
          simp only [Value.strings, lastWord, if_pos signing]
          exact .inl none
        · simp only [Value.strings, lastWord, if_neg signing]
          exact .inl ((free (Bool.eq_false_iff.mpr signing)).2 body List.mem_cons_self)
    | _ => cases string acts other

-- What is taken behind a name in a member on top is the member's own string.
theorem member_behind (name key : Bytes) (value : Value) (acts : stateAfter name ≠ 0) (unpassed : name ≠ ascii "instruction")
    (string : stateAfter key ≠ 0 → key ≠ ascii "instruction" → isString value = true)
    (free : isSigning key = false → WordFree value) :
    (followers key value.strings).filterMap (behind name) = (bodyNamed name (.string key, value)).toList := by
  have none : stateAfter [] = 0 := by decide
  have some : name ≠ [] := fun empty => acts (empty ▸ none)
  by_cases passed : Passed key
  · have different : key ≠ name := by
      rintro rfl
      exact passed.elim acts unpassed
    obtain ⟨_, strings⟩ := free (passed_unsigned key passed)
    rw [none_behind name key value.strings some different (fun body listed same => acts (same ▸ strings body listed))]
    cases value with
    | string body => exact (congrArg Option.toList (if_neg different : bodyNamed name (.string key, .string body) = .none)).symm
    | _ => rfl
  · obtain ⟨keyActs, other⟩ := not_or.mp passed
    cases value with
    | string body =>
        simp only [Value.strings, followers, List.filterMap_cons, List.filterMap_nil, behind, bodyNamed]
        split <;> simp_all
    | _ => cases string keyActs other

theorem members_behind (name : Bytes) (acts : stateAfter name ≠ 0) (other : name ≠ ascii "instruction") (members : Members)
    (onTop : NamesOnTop members) (word : Bytes) (passed : Passed word) :
    (followers word members.strings).filterMap (behind name) = members.pairs.filterMap (bodyNamed name) := by
  induction members using Members.spine_induction generalizing word with
  | nil => rfl
  | cons key value rest ih =>
      obtain ⟨⟨body, named, string, free⟩, onTopRest⟩ := List.forall_mem_cons.mp onTop
      obtain rfl : key = .string body := named
      have own := member_behind name body value acts other string free
      have after := member_passed body value string free
      have different : word ≠ name := by
        rintro rfl
        exact passed.elim acts other
      have here : behind name (word, body) = none := if_neg different
      rw [Members.strings, Value.strings, List.singleton_append, followers, List.filterMap_cons_none here,
        if_neg (Bool.eq_false_iff.mp (passed_unsigned word passed)), followers_append, List.filterMap_append, own,
        ih onTopRest _ after, Members.pairs, List.filterMap_cons]
      cases bodyNamed name (.string body, value) <;> rfl

mutual
theorem none_instructed : ∀ (value : Value) (word : Bytes), word ≠ ascii "instruction" →
    (∀ body ∈ value.strings, body ≠ ascii "instruction") → instructionsIn word value = []
  | .primitive _, _, _, _ => rfl
  | .string _, _, _, _ => rfl
  | .object members, word, first, rest => by
      rw [instructionsIn, if_neg first, List.append_nil, none_instructed_members members word first rest]
  | .array items, word, first, rest => by
      rw [instructionsIn, if_neg first, List.append_nil, none_instructed_items items word first rest]

theorem none_instructed_members : ∀ (members : Members) (word : Bytes), word ≠ ascii "instruction" →
    (∀ body ∈ members.strings, body ≠ ascii "instruction") → instructionsInMembers word members = []
  | .nil, _, _, _ => rfl
  | .cons key value rest, word, first, others => by
      obtain ⟨keyOthers, others⟩ := List.forall_mem_append.mp others
      obtain ⟨valueOthers, others⟩ := List.forall_mem_append.mp others
      have past := last_word_other (ascii "instruction") word key.strings (by decide) first keyOthers
      have after := last_word_other (ascii "instruction") _ value.strings (by decide) past valueOthers
      rw [instructionsInMembers, none_instructed key word first keyOthers, none_instructed value _ past valueOthers,
        none_instructed_members rest _ after others]
      rfl

theorem none_instructed_items : ∀ (items : Items) (word : Bytes), word ≠ ascii "instruction" →
    (∀ body ∈ items.strings, body ≠ ascii "instruction") → instructionsInItems word items = []
  | .nil, _, _, _ => rfl
  | .cons value rest, word, first, others => by
      obtain ⟨valueOthers, others⟩ := List.forall_mem_append.mp others
      have after := last_word_other (ascii "instruction") word value.strings (by decide) first valueOthers
      rw [instructionsInItems, none_instructed value word first valueOthers, none_instructed_items rest _ after others]
      rfl
end

def instructionNamed : Value × Value → List Value
  | (.string key, value) => if key = ascii "instruction" then instructionsIn key value else []
  | _ => []

theorem members_instructed (members : Members) (onTop : NamesOnTop members) (word : Bytes) (passed : Passed word) :
    instructionsInMembers word members = members.pairs.flatMap instructionNamed := by
  induction members using Members.spine_induction generalizing word with
  | nil => rfl
  | cons key value rest ih =>
      obtain ⟨⟨body, named, string, free⟩, onTopRest⟩ := List.forall_mem_cons.mp onTop
      obtain rfl : key = .string body := named
      have after := member_passed body value string free
      have past : lastWord word (Value.string body).strings = body :=
        if_neg (Bool.eq_false_iff.mp (passed_unsigned word passed))
      have none : instructionsIn word (.string body) = [] := rfl
      rw [instructionsInMembers, past, none, List.nil_append, ih onTopRest _ after, Members.pairs, List.flatMap_cons]
      congr 1
      by_cases isInstruction : body = ascii "instruction"
      · exact (if_pos isInstruction).symm
      · rw [instructionNamed, if_neg isInstruction]
        by_cases signing : isSigning body = true
        · have acted := (state_after_signing body).mpr signing
          cases value with
          | string => rfl
          | _ => cases string (by omega) isInstruction
        · have unacted : stateAfter (ascii "instruction") ≠ 0 := by decide
          obtain ⟨_, strings⟩ := free (Bool.eq_false_iff.mpr signing)
          exact none_instructed value body isInstruction (fun other listed same => unacted (same ▸ strings other listed))

theorem flat_map_last {α β : Type} (f : α → List β) (last : β) (all : List α)
    (only : ∀ x ∈ all, f x = [] ∨ (f x).getLast? = some last) (found : ∃ x ∈ all, (f x).getLast? = some last) :
    (all.flatMap f).getLast? = some last := by
  induction all with
  | nil =>
      obtain ⟨x, listed, _⟩ := found
      cases listed
  | cons x all ih =>
      obtain ⟨first, rest⟩ := List.forall_mem_cons.mp only
      rw [List.flatMap_cons, List.getLast?_append]
      by_cases later : ∃ y ∈ all, (f y).getLast? = some last
      · rw [ih rest later, Option.some_or]
      · have empty : all.flatMap f = [] := by
          rw [List.flatMap_eq_nil_iff]
          exact fun y listed => (rest y listed).resolve_right (fun ends => later ⟨y, listed, ends⟩)
        obtain ⟨y, listed, ends⟩ := found
        rcases List.mem_cons.mp listed with rfl | inside
        · rw [empty, ends]
          rfl
        · exact absurd ⟨y, inside, ends⟩ later

-- Every string that is not a signing word's own keeps the object from becoming empty.
theorem unsigned_kept (members : Members) (name : Bytes) (value : Value) (unsigned : isSigning name = false)
    (listed : (.string name, value) ∈ members.pairs) : (unsignedMembers members).isNil = false := by
  induction members using Members.spine_induction with
  | nil => cases listed
  | cons key other rest ih =>
      rw [unsignedMembers]
      split
      · rename_i signed
        rcases List.mem_cons.mp listed with same | inside
        · obtain ⟨rfl, rfl⟩ := Prod.mk.inj same
          simp [signingKey, unsigned] at signed
        · exact ih inside
      · rfl

theorem on_top_clean (members : Members) (valid : members.wellFormed = true) (onTop : NamesOnTop members) :
    cleanMembers members = true := by
  induction members using Members.spine_induction with
  | nil => rfl
  | cons key value rest ih =>
      obtain ⟨⟨body, named, string, free⟩, onTopRest⟩ := List.forall_mem_cons.mp onTop
      obtain rfl : key = .string body := named
      simp only [Members.wellFormed, Bool.and_eq_true] at valid
      rw [cleanMembers, ih valid.2 onTopRest, Bool.and_true, signingKey]
      by_cases signing : isSigning body = true
      · rw [if_pos signing]
        have acted := (state_after_signing body).mpr signing
        refine string (by omega) ?_
        rintro rfl
        exact absurd acted (by decide)
      · rw [if_neg signing]
        exact (intact_clean value valid.1.2 (free (Bool.eq_false_iff.mpr signing)).1).1

theorem member_well_formed (members : Members) (valid : members.wellFormed = true) (key value : Value)
    (listed : (key, value) ∈ members.pairs) : value.wellFormed = true := by
  induction members using Members.spine_induction with
  | nil => cases listed
  | cons first other rest ih =>
      simp only [Members.wellFormed, Bool.and_eq_true] at valid
      rcases List.mem_cons.mp listed with same | inside
      · obtain ⟨rfl, rfl⟩ := Prod.mk.inj same
        exact valid.1.2
      · exact ih valid.2 inside

theorem container_instructed (value : Value) (container : leafOf value = none) (word : Bytes) (isInstruction : word = ascii "instruction") :
    (instructionsIn word value).getLast? = some value := by
  cases value with
  | primitive text => cases container
  | string body => cases container
  | object members => rw [instructionsIn, if_pos isInstruction, List.getLast?_concat]
  | array items => rw [instructionsIn, if_pos isInstruction, List.getLast?_concat]

theorem padded_nul_free (value : Value) (bytes : Bytes) (padded : Json.Padded value bytes) (valid : value.wellFormed = true) :
    (0 : UInt8) ∉ bytes := by
  obtain ⟨space, text, after, same, blank, blankAfter, spells⟩ := padded
  rw [same, List.mem_append, List.mem_append, not_or, not_or]
  exact ⟨⟨blank_nul_free space blank, spelled_nul_free value text valid spells⟩, blank_nul_free after blankAfter⟩

section Message

variable (members : Members) (payload hash thingKey alertKey : Bytes) (command : Value)
variable (object : Json.Padded (.object members) payload) (valid : (Value.object members).wellFormed = true)
variable (fits : (Value.object members).nodes ≤ 100) (commands : Commands members hash thingKey alertKey command)

include object valid fits in
theorem payload_document : document payload = some (.object members) := by
  obtain ⟨space, text, after, same, blank, blankAfter, spells⟩ := object
  obtain ⟨read, rc⟩ := jsmn_document payload 100 (.object members) space text after valid spells same blank blankAfter fits
  have accepted : ¬ (jsmnParse payload 100).rc < 0 := by rw [rc]; omega
  simp only [document, accepted, if_false, read]

include commands

theorem commands_behind (name body : Bytes) (acts : stateAfter name ≠ 0) (other : name ≠ ascii "instruction")
    (named : ∀ value, (.string name, value) ∈ members.pairs ↔ value = .string body) :
    (stringsBehind name members).getLast? = some body := by
  have start : Passed [] := .inl (by decide)
  rw [stringsBehind, members_behind name acts other members commands.onTop [] start]
  apply last_of_all
  · rw [List.mem_filterMap]
    exact ⟨_, (named _).mpr rfl, if_pos rfl⟩
  · intro found listed
    obtain ⟨⟨key, value⟩, member, taken⟩ := List.mem_filterMap.mp listed
    cases key with
    | string word =>
        cases value with
        | string text =>
            simp only [bodyNamed] at taken
            split at taken
            · rename_i same
              obtain rfl := Option.some.inj taken
              exact Value.string.inj ((named _).mp (same ▸ member))
            · cases taken
        | _ => cases taken
    | _ => cases taken

theorem commands_instructed : (instructionsInMembers [] members).getLast? = some command := by
  have start : Passed [] := .inl (by decide)
  have named : instructionNamed (.string (ascii "instruction"), command) = instructionsIn (ascii "instruction") command := by
    rw [instructionNamed, if_pos rfl]
  have ends := container_instructed command commands.container (ascii "instruction") rfl
  rw [← named] at ends
  rw [members_instructed members commands.onTop [] start]
  apply flat_map_last
  · rintro ⟨key, value⟩ listed
    cases key with
    | string word =>
        by_cases isInstruction : word = ascii "instruction"
        · subst isInstruction
          obtain rfl := (commands.instruction value).mp listed
          exact .inr ends
        · exact .inl (if_neg isInstruction)
    | _ => exact .inl rfl
  · exact ⟨_, (commands.instruction command).mpr rfl, ends⟩

include valid in
theorem commands_clean : (clean (.object members)) = true := by
  have unsigned : isSigning (ascii "thing_key") = false := by decide
  have some := unsigned_kept members _ _ unsigned ((commands.thingKey _).mpr rfl)
  rw [clean, some, Bool.not_false, Bool.and_true]
  exact on_top_clean members valid commands.onTop

include valid in
theorem command_copied : instructionText command = command.text := by
  have unsigned : isSigning (ascii "instruction") = false := by decide
  have listed := (commands.instruction command).mpr rfl
  have valueValid := member_well_formed members valid _ _ listed
  obtain ⟨name, named, _, free⟩ := commands.onTop _ listed
  obtain rfl := Value.string.inj named
  exact (instruction_text_iff command valueValid).mpr (free unsigned).1

include object valid fits in
-- Whatever the buffers held before, the text without its signature and the four outputs are the message's.
theorem commands_parsed (prior stray : Bytes × Outputs) :
    parseInstructionJson payload prior stray =
      ⟨0, (unsignedValue (.object members)).text, ⟨hash, thingKey, alertKey, command.text⟩⟩ := by
  have parsed := parse_document payload prior stray (.object members) (payload_document members payload object valid fits)
  have outputs := outputs_read members payload prior stray object valid fits
  have acts : stateAfter (ascii "hash") ≠ 0 ∧ stateAfter (ascii "thing_key") ≠ 0 ∧ stateAfter (ascii "alert_key") ≠ 0 := by decide
  rw [commands_behind members hash thingKey alertKey command commands _ _ acts.1 (by decide) commands.hash,
    commands_behind members hash thingKey alertKey command commands _ _ acts.2.1 (by decide) commands.thingKey,
    commands_behind members hash thingKey alertKey command commands _ _ acts.2.2 (by decide) commands.alertKey,
    commands_instructed members hash thingKey alertKey command commands, Option.map_some,
    command_copied members hash thingKey alertKey command valid commands] at outputs
  rw [parsed] at outputs ⊢
  have whole := commands_clean members hash thingKey alertKey command valid commands
  rcases object_walk_faithful members valid prior.2 with ⟨_, rebuilt, _⟩ | ⟨notClean, _⟩
  · have original : (walkValue (.object members) ⟨[], prior.2, 0⟩).current = (unsignedValue (.object members)).text := rebuilt
    have out : (walkValue (.object members) ⟨[], prior.2, 0⟩).out = ⟨hash, thingKey, alertKey, command.text⟩ := outputs
    rw [original, out]
  · rw [whole] at notClean
    cases notClean

include object valid fits in
-- The signature is that of the message without its signing members.
theorem instruction_handled (getHmac : GetHmac) (secretKey : Bytes) (things : List Thing) (prior stray : Bytes × Outputs)
    (topic : Bytes) (signed : hash = getHmac secretKey (unsignedValue (.object members)).text) :
    handleInstruction getHmac secretKey things prior stray topic payload =
      (things.filter (fun thing => thing.instructionTopic = printed topic)).map
        (fun thing => ⟨thing, thingKey, alertKey, command.text⟩) := by
  have whole := printed_of_nul_free payload (padded_nul_free _ payload object valid)
  have parsed := commands_parsed members payload hash thingKey alertKey command object valid fits commands prior stray
  simp only [handleInstruction, whole, parsed, signed, ge_iff_le, Int.le_refl, if_true]

end Message

-- What the packet's places of readbuf hold when its handlers are called.
theorem publish_bytes (readbuf : Nat → UInt8) (dup retain : Bool) (qos : Nat) (topic : Bytes) (id : UInt16) (payload : Bytes)
    (holds : Holds readbuf (.publish dup retain qos topic id payload)) :
    Memory.load readbuf (topicStart (Inbound.publish dup retain qos topic id payload).body.length) topic.length = topic ∧
      Memory.load readbuf (payloadStart (Inbound.publish dup retain qos topic id payload).body.length topic qos) payload.length =
        payload := by
  obtain ⟨_, _, body⟩ := holds_parts readbuf _ holds
  obtain ⟨_, rest⟩ := load_split readbuf _ _ _ body
  obtain ⟨topicRead, rest⟩ := load_split readbuf _ _ _ rest
  obtain ⟨_, payloadRead⟩ := load_split readbuf _ _ _ rest
  refine ⟨topicRead, ?_⟩
  have start : payloadStart (Inbound.publish dup retain qos topic id payload).body.length topic qos =
      1 + (VarInt.encode (Inbound.publish dup retain qos topic id payload).body.length).length + (writeInt topic.length).length +
        topic.length + (if qos > 0 then writeInt id.toNat else []).length := by
    rw [payloadStart, topicStart]
    split <;> rfl
  rw [start]
  exact payloadRead

section Cycle

variable {H σ ε : Type}

-- A message that cycle is about to deliver, with what it had in mind when the packet came.
structure Delivers (call : Call H σ ε) (s : Sys H σ ε) (topic payload : Bytes) (md : MessageData) (before : Sys H σ ε) : Prop where
  topic : topicBytes before.client md.topicName = topic
  payload : payloadBytes before.client md.message = payload
  counted : 0 ≤ md.message.payloadlen
  table : before.client.messageHandlers = s.client.messageHandlers
  host : before.host = s.host
  replied : cycle call s = replyPublish (s.cycles + 1) md.message (deliverMessage call (s.cycles + 1) md before).2

-- Not taken for a QoS 2 message that has been delivered already, and with room in the table for another.
def New (table : List UInt16) (qos : Nat) (id : UInt16) : Prop := qos = QOS2 → isQoS2msgidFree table id = true ∧ 0 ∈ table

theorem accept_publish_delivers (call : Call H σ ε) (n : Nat) (md : MessageData) (t : Sys H σ ε)
    (new : New t.client.incomingQos2Messages md.message.qos md.message.id) :
    ∃ before : Sys H σ ε, before.client.readbuf = t.client.readbuf ∧
      before.client.messageHandlers = t.client.messageHandlers ∧ before.host = t.host ∧
      acceptPublish call n md t = (deliverMessage call n md before).2 := by
  by_cases exactly : md.message.qos = QOS2
  · obtain ⟨free, room⟩ := new exactly
    have used : useQoS2msgid t.client.incomingQos2Messages md.message.id =
        some (t.client.incomingQos2Messages.replace 0 md.message.id) := if_pos (List.contains_iff_mem.mpr room)
    refine ⟨(t.record (.received md.message.id t.client.incomingQos2Messages)).withTable
      (t.client.incomingQos2Messages.replace 0 md.message.id), rfl, rfl, rfl, ?_⟩
    simp only [acceptPublish, exactly, ne_eq, not_true_eq_false, if_false, free, if_true, used]
  · exact ⟨t, rfl, rfl, rfl, if_pos exactly⟩

theorem cycle_delivers (call : Call H σ ε) (s : Sys H σ ε) (arrival : Arrival) (arrivals : List Arrival) (dup retain : Bool)
    (qos : Nat) (topic : Bytes) (id : UInt16) (payload : Bytes) (coming : s.world.arrivals = arrival :: arrivals)
    (read : packetType arrival.rc = PUBLISH) (holds : Holds arrival.readbuf (.publish dup retain qos topic id payload))
    (valid : (Inbound.publish dup retain qos topic id payload).WellFormed) (new : New s.client.incomingQos2Messages qos id) :
    ∃ md before, Delivers call s topic payload md before := by
  have deserialized := publish_deserialized arrival.readbuf dup retain qos topic id payload arrival.message arrival.topicName
    holds valid
  obtain ⟨topicRead, payloadRead⟩ := publish_bytes arrival.readbuf dup retain qos topic id payload holds
  obtain ⟨publish, same⟩ : ∃ publish, mqttDeserializePublish arrival.readbuf arrival.message arrival.topicName = publish :=
    ⟨_, rfl⟩
  rw [same] at deserialized
  have numbered : New s.client.incomingQos2Messages publish.message.qos publish.message.id := by
    rw [deserialized]
    intro exactly
    obtain rfl : qos = 2 := exactly
    exact new rfl
  obtain ⟨before, readbuf, table, host, accepted⟩ := accept_publish_delivers call (s.cycles + 1) ⟨publish.topicName, publish.message⟩
    (s.startCycle.arrive arrival arrivals) numbered
  have unread : s.startCycle.world.arrivals = arrival :: arrivals := coming
  have buffer : (s.startCycle.arrive arrival arrivals).client.readbuf = arrival.readbuf := rfl
  have parsed : publish.rc = 1 := by rw [deserialized]
  rw [buffer] at readbuf
  refine ⟨⟨publish.topicName, publish.message⟩, before, ?_, ?_, ?_, table, host, ?_⟩
  · rw [topicBytes, readbuf, deserialized]
    exact topicRead
  · rw [payloadBytes, readbuf, deserialized]
    exact payloadRead
  · rw [deserialized]
    exact Int.natCast_nonneg payload.length
  · simp only [cycle, unread, read, if_true, cyclePublish, buffer, same, parsed, ne_eq, not_true_eq_false, if_false]
    exact congrArg (replyPublish (s.cycles + 1) publish.message) accepted

end Cycle

-- A message that carries its own signature under the gateway's secret key, of a size that every buffer has room for.
structure Instruction (g : Gateway) where
  members : Members
  payload : Bytes
  thingKey : Bytes
  alertKey : Bytes
  command : Value
  object : Json.Padded (.object members) payload
  valid : (Value.object members).wellFormed = true
  fits : (Value.object members).nodes ≤ 100
  commands : Commands members (g.getHmac g.secretKey (unsignedValue (.object members)).text) thingKey alertKey command
  roomy : Roomy (.object members) 0
  short : payload.length < 2048

namespace Instruction

variable {g : Gateway} (instruction : Instruction g)

-- What a handler of the thing is to be called with.
def callOf (thing : Thing) : HandlerCall := ⟨thing, instruction.thingKey, instruction.alertKey, instruction.command.text⟩

theorem handled (things : List Thing) (prior stray : Bytes × Outputs) (topic : Bytes) :
    handleInstruction g.getHmac g.secretKey things prior stray topic instruction.payload =
      (things.filter (fun thing => thing.instructionTopic = printed topic)).map instruction.callOf :=
  instruction_handled _ _ _ _ _ _ instruction.object instruction.valid instruction.fits instruction.commands _ _ things prior stray
    topic rfl

theorem whole : printed instruction.payload = instruction.payload :=
  printed_of_nul_free _ (padded_nul_free _ _ instruction.object instruction.valid)

theorem signed : SignedInstruction g instruction.payload := by
  intro prior stray
  have parsed := commands_parsed _ _ _ _ _ _ instruction.object instruction.valid instruction.fits instruction.commands prior stray
  rw [instruction.whole, parsed]
  exact ⟨Int.le_refl 0, rfl⟩

theorem copies_fit (place : Nat) (c : Client Handler) (md : MessageData) (counted : 0 ≤ md.message.payloadlen)
    (payload : payloadBytes c md.message = instruction.payload) (topic : (topicBytes c md.topicName).length < 1024) :
    CopiesFit (.instruction place) c md := by
  intro overrun outputs globals stray
  have found := payload_document _ _ instruction.object instruction.valid instruction.fits
  have topicFits : (printed (topicBytes c md.topicName)).length < 1024 :=
    Nat.lt_of_le_of_lt (List.takeWhile_sublist _).length_le topic
  rw [handlerCopies, message_bytes_counted c overrun md.message counted, payload]
  refine (instruction_copies_fit _ _ outputs).mpr ⟨topicFits, ?_, ?_⟩ stray
  · rw [instruction.whole]
    exact instruction.short
  · rw [instruction.whole]
    exact .inr (.inr ⟨_, found, instruction.roomy⟩)

end Instruction

-- The calls of things' handlers that these calls of handle_instruction make.
def handlerCalls (g : Gateway) (things : List Thing) (stack : Nat → Stack) (calls : List (Invocation Handler)) : List HandlerCall :=
  calls.flatMap (fun call =>
    match call.fp with
    | .httpAck => []
    | .instruction _ => handleInstruction g.getHmac g.secretKey things (stack call.entry).prior (stack call.entry).stray call.topic
        call.payload)

theorem handler_calls_things (g : Gateway) (things : List Thing) (stack : Nat → Stack) (c : Client Handler) (md : MessageData)
    (instruction : Instruction g) (payload : payloadBytes c md.message = instruction.payload) :
    handlerCalls g things stack (addressed c md) = (calledThings g things stack (addressed c md)).map instruction.callOf := by
  rw [handlerCalls, calledThings, List.map_flatMap]
  apply List.flatMap_congr
  intro call member
  obtain ⟨i, _, found⟩ := List.mem_filterMap.mp member
  obtain ⟨fp, _, rfl⟩ := Option.map_eq_some_iff.mp found
  cases fp with
  | httpAck => rfl
  | instruction place =>
      have handled := instruction.handled things (stack i).prior (stack i).stray (topicBytes c md.topicName)
      rw [← payload] at handled
      change handleInstruction _ _ _ _ _ _ _ = (List.map HandlerCall.thing (handleInstruction _ _ _ _ _ _ _)).map _
      simp only [invocation, handled, List.map_map]
      rfl

-- readPacket takes the packet off the stream as cycle is to find it.
theorem publish_arrives (dup retain : Bool) (qos : Nat) (topic : Bytes) (id : UInt16) (payload rest : Bytes) (readbuf : Nat → UInt8)
    (net : Net) (valid : (Inbound.publish dup retain qos topic id payload).WellFormed)
    (fits : (Inbound.publish dup retain qos topic id payload).wire.length ≤ 4096)
    (stream : net.stream = (Inbound.publish dup retain qos topic id payload).wire ++ rest) (complete : ReadsComplete net) :
    packetType (readPacket readbuf net).rc = PUBLISH ∧
      Holds (readPacket readbuf net).readbuf (.publish dup retain qos topic id payload) := by
  generalize packetEq : Inbound.publish dup retain qos topic id payload = packet at fits stream valid ⊢
  have room : 1 + (VarInt.encode packet.body.length).length + packet.body.length ≤ 4096 := by
    rw [Inbound.wire, List.length_cons, List.length_append] at fits
    omega
  let padded : PaddedPacket 4096 := ⟨packet.header, VarInt.encode packet.body.length, packet.body, VarInt.encode_ended _,
    VarInt.encode_length_le 3 _ valid.1, VarInt.value_encode _, room⟩
  have shown := framed_packet_read padded rest readbuf net stream complete
  obtain ⟨holds, returned⟩ := read_as_holds _ padded packet rest rfl rfl shown
  refine ⟨?_, holds⟩
  have type : headerType packet.header = PUBLISH := by
    subst packetEq
    exact publish_header_type dup retain qos topic id payload valid.2.1
  rw [returned, type]
  rfl

-- Handlers without an application behind them leave the client as it was.
theorem resting_client (g : Gateway) (handler : Handler) (md : MessageData) (s : GatewaySys) :
    (gatewayCall g 0 handler md s).client = s.client := by
  cases handler with
  | httpAck => rfl
  | instruction place =>
      simp only [gatewayCall, dispatch, handleInstructionMessage]
      generalize handleInstruction g.getHmac g.secretKey _ _ _ _ _ = calls
      induction calls generalizing s with
      | nil => rfl
      | cons call calls ih => exact ih (s.record (.note (.handled call)))

theorem resting_left_intact (g : Gateway) (cycle : Nat) (md : MessageData) (s : GatewaySys) :
    LeftIntact (gatewayCall g 0) cycle md s := by
  have same : ∀ (entries : List Nat) (t : GatewaySys), (afterHandlers (gatewayCall g 0) md s.client entries t).client = t.client := by
    intro entries
    induction entries with
    | nil => exact fun _ => rfl
    | cons i entries ih =>
        intro t
        rw [afterHandlers, ih]
        cases chosen s.client md.topicName i with
        | none => rfl
        | some handler => exact resting_client g handler md t
  intro i _
  rw [same]
  exact ⟨rfl, fun _ => ⟨rfl, rfl⟩⟩

section Session

variable (depth : Nat) (x : Session) (thing : Thing) (accepted : thing ∈ x.accepted) (instruction : Instruction x.gateway)

include accepted

-- However deep the handlers nest, those of the packet are the accepted thing's alone.
theorem accepted_thing_called (inv : Dispatching x) (s before : GatewaySys) (md : MessageData) (cycle : Nat)
    (table : before.client.messageHandlers = x.sys.client.messageHandlers)
    (things : before.host.registeredThings = x.sys.host.registeredThings)
    (delivers : Delivers (x.call depth) s thing.instructionTopic instruction.payload md before)
    (undisturbed : LeftIntact (x.call depth) cycle md before) (stack : Nat → Stack) :
    handlerCalls x.gateway before.host.registeredThings stack (invoked (x.call depth) cycle md before) =
      [instruction.callOf thing] := by
  have signed : SignedInstruction x.gateway (payloadBytes before.client md.message) := by
    rw [delivers.payload]
    exact instruction.signed
  have once := dispatching_exactly_once depth x inv thing accepted before cycle md stack table things delivers.topic signed undisturbed
  rw [invoked_undisturbed _ cycle md before undisturbed] at once ⊢
  rw [handler_calls_things x.gateway _ stack before.client md instruction delivers.payload, once]
  rfl

end Session

theorem lamp_commands : Commands lampMembers instructionHash (ascii "k") (ascii "a")
    (.object (.cons (.string (ascii "on")) (.primitive (ascii "1")) .nil)) := by
  have apart : ascii "hash" ≠ ascii "thing_key" ∧ ascii "hash" ≠ ascii "alert_key" ∧ ascii "hash" ≠ ascii "instruction" ∧
      ascii "thing_key" ≠ ascii "alert_key" ∧ ascii "thing_key" ≠ ascii "instruction" ∧
      ascii "alert_key" ≠ ascii "instruction" := by decide
  obtain ⟨hashThing, hashAlert, hashCommand, thingAlert, thingCommand, alertCommand⟩ := apart
  have plain : stateAfter (ascii "k") = 0 ∧ stateAfter (ascii "a") = 0 ∧ stateAfter (ascii "on") = 0 := by decide
  have signing : isSigning (ascii "hash") = true := by decide
  refine ⟨?_, ?_, ?_, ?_, ?_, rfl⟩
  · intro member listed
    simp only [lampMembers, Members.pairs, List.mem_cons, List.not_mem_nil, or_false] at listed
    rcases listed with rfl | rfl | rfl | rfl
    · exact ⟨_, rfl, fun _ _ => rfl, fun _ => ⟨by decide, by simpa [Value.strings] using plain.1⟩⟩
    · exact ⟨_, rfl, fun _ _ => rfl, fun _ => ⟨by decide, by simpa [Value.strings] using plain.2.1⟩⟩
    · exact ⟨_, rfl, fun _ other => absurd rfl other, fun _ => ⟨by decide, by simpa [Value.strings, Members.strings] using plain.2.2⟩⟩
    · exact ⟨_, rfl, fun _ _ => rfl, fun unsigned => absurd (signing.symm.trans unsigned) (by decide)⟩
  all_goals
    intro value
    simp [lampMembers, Members.pairs, hashThing, hashAlert, hashCommand, thingAlert, thingCommand, alertCommand, hashThing.symm,
      hashAlert.symm, hashCommand.symm, thingAlert.symm, thingCommand.symm, alertCommand.symm]

-- The instruction to the lamp as a message under lampGateway's key.
def lampOrder (clientId : Bytes) : Instruction { lampGateway with clientId := clientId } where
  members := lampMembers
  payload := lampMessage.text
  thingKey := ascii "k"
  alertKey := ascii "a"
  command := .object (.cons (.string (ascii "on")) (.primitive (ascii "1")) .nil)
  object := Json.text_padded _
  valid := by decide +kernel
  fits := by decide +kernel
  commands := by
    have signed : lampGateway.getHmac lampGateway.secretKey (unsignedValue (.object lampMembers)).text = instructionHash := by
      decide +kernel
    exact signed ▸ lamp_commands
  roomy := by
    simp only [Roomy, RoomyMembers, lampMembers]
    refine ⟨⟨?_, ?_, ?_, ?_, ?_, ?_, ?_, ?_, trivial⟩, ?_⟩
    all_goals decide +kernel
  short := by decide +kernel

def lampOrdered : Net := ⟨(Inbound.publish false false 1 lampTopic 7 lampMessage.text).wire, []⟩

def lampRead (readbuf : Nat → UInt8) : Arrival :=
  ⟨(readPacket readbuf lampOrdered).rc, (readPacket readbuf lampOrdered).readbuf, ⟨0, 0, 0, 0, 0, 0⟩, ⟨0, 0⟩, 0⟩

theorem lamp_order_read : ReadsComplete lampOrdered := by
  refine ⟨by decide +kernel, ?_, ?_⟩
  · simp only [MAX_NO_OF_REMAINING_LENGTH_BYTES, FieldComplete]
    decide +kernel
  · decide +kernel

def lampLive : Session := (lampSession 1).run 0 lampCalls

-- The instruction's packet comes next.
def beforeOrder (s : GatewaySys) : GatewaySys := { s with world := ⟨[lampRead s.client.readbuf], [], [], []⟩ }

theorem before_order_kept (s : GatewaySys) : (beforeOrder s).client = s.client ∧ (beforeOrder s).host = s.host ∧
    (beforeOrder s).world.arrivals = [lampRead s.client.readbuf] := ⟨rfl, rfl, rfl⟩

end Aliot
