import Mathlib.Data.Fintype.EquivFin
import Aliot.JsonHandler

set_option autoImplicit false

namespace Aliot

open Json (Value Members Items)

-- A stored thing as handle_instruction reads it: where its struct is, its topic, and its handler pointer with none for NULL.
structure Thing where
  place : Nat
  instructionTopic : Bytes
  handler : Option Nat
deriving DecidableEq

structure HandlerCall where
  thing : Thing
  thingKey : Bytes
  alertKey : Bytes
  instruction : Bytes
deriving DecidableEq

-- get_hmac depends on the secret key of the configuration and on the message.
abbrev GetHmac := Bytes → Bytes → Bytes

-- `prior` is what the local buffers hold before anything is written to them.
def handleInstruction (getHmac : GetHmac) (secretKey : Bytes) (registeredThings : List Thing)
    (prior stray : Bytes × Outputs) (topic payload : Bytes) : List HandlerCall :=
  let topic_str := printed topic
  let buf := printed payload
  let parsed := parseInstructionJson buf prior stray
  if parsed.rc ≥ 0 then
    let hash := getHmac secretKey parsed.originalJson
    if parsed.out.hash = hash then
      (registeredThings.filter (fun thing => thing.instructionTopic = topic_str)).map
        (fun thing => ⟨thing, parsed.out.thingKey, parsed.out.alertKey, parsed.out.instruction⟩)
    else []
  else []

structure Scan where
  state : Nat
  hash : Bytes
  thingKey : Bytes
  alertKey : Bytes
deriving DecidableEq

def Walk.scan (w : Walk) : Scan := ⟨w.state, w.out.hash, w.out.thingKey, w.out.alertKey⟩

def Scan.read (s : Scan) (buf : Bytes) : Scan :=
  if s.state = 1 then { s with state := 0, hash := buf }
  else if s.state = 2 then { s with state := 0 }
  else
    { s with
      state := stateAfter buf
      alertKey := if s.state = 3 then buf else s.alertKey
      thingKey := if s.state = 4 then buf else s.thingKey }

theorem scan_string_read (buf : Bytes) (w : Walk) : (stringRead buf w).scan = w.scan.read buf := by
  have kept : ∀ (out : Outputs) (state : Nat),
      (if state = 1 ∨ state = 2 then Walk.mk w.current out state else ⟨w.current ++ Json.quoted buf, out, state⟩).scan =
        ⟨state, out.hash, out.thingKey, out.alertKey⟩ := by
    intro out state
    split <;> rfl
  unfold stringRead Scan.read
  by_cases one : w.state = 1
  · simp [one, Walk.scan]
  · by_cases two : w.state = 2
    · simp [two, Walk.scan]
    · simp only [one, two, if_false, kept]
      by_cases three : w.state = 3
      · simp [three, Walk.scan]
      · by_cases four : w.state = 4 <;> simp [one, two, three, four, Walk.scan]

theorem scan_separate (w : Walk) (skipped : Prop) [Decidable skipped] (byte : UInt8) :
    (separate w skipped byte).scan = w.scan := by
  unfold separate
  split <;> rfl

theorem scan_close (outer w : Walk) (closing : UInt8) : (closeContainer outer w closing).scan = w.scan := by
  unfold closeContainer
  by_cases five : outer.state = 5 <;> simp [five, Walk.scan]

mutual
theorem scan_value : ∀ (value : Value) (w : Walk), (walkValue value w).scan = value.strings.foldl Scan.read w.scan
  | .primitive _, _ => rfl
  | .string body, w => scan_string_read body w
  | .object members, w => by
      rw [walkValue, scan_close, scan_members members]
      rfl
  | .array items, w => by
      rw [walkValue, scan_close, scan_items items]
      rfl

theorem scan_members : ∀ (members : Members) (w : Walk),
    (walkMembers members w).scan = members.strings.foldl Scan.read w.scan
  | .nil, _ => rfl
  | .cons key value rest, w => by
      rw [walkMembers, scan_members rest, scan_separate, scan_value value, scan_separate, scan_value key]
      simp only [Members.strings, List.foldl_append]

theorem scan_items : ∀ (items : Items) (w : Walk),
    (walkItems items w).scan = items.strings.foldl Scan.read w.scan
  | .nil, _ => rfl
  | .cons value rest, w => by
      have comma : ((walkValue value w).strcat 0x2c).scan = (walkValue value w).scan := rfl
      rw [walkItems, scan_items rest, comma, scan_value value]
      simp only [Items.strings, List.foldl_append]
end

-- The strings that follow a "hash". A "hash" or "access_key" takes the string after it out of the sequence.
def signatures : List Bytes → List Bytes
  | [] => []
  | [_] => []
  | word :: next :: rest =>
      if word = ascii "hash" then next :: signatures rest
      else if word = ascii "access_key" then signatures rest
      else signatures (next :: rest)

theorem scan_hash (strings : List Bytes) (s : Scan) (notHash : s.state ≠ 1) (notAccess : s.state ≠ 2) :
    (strings.foldl Scan.read s).hash = ((signatures strings).getLast?).getD s.hash := by
  fun_induction signatures strings generalizing s with
  | case1 => rfl
  | case2 word => simp [Scan.read, notHash, notAccess]
  | case3 next rest ih =>
      have first : (s.read (ascii "hash")).read next =
          { s.read (ascii "hash") with state := 0, hash := next } := by
        simp [Scan.read, notHash, notAccess, state_after_hash]
      rw [List.foldl_cons, List.foldl_cons, first, ih _ (by simp) (by simp), List.getLast?_cons]
      rfl
  | case4 next rest _ ih =>
      have first : (s.read (ascii "access_key")).read next = { s.read (ascii "access_key") with state := 0 } := by
        simp [Scan.read, notHash, notAccess, state_after_access_key]
      rw [List.foldl_cons, List.foldl_cons, first, ih _ (by simp) (by simp)]
      simp [Scan.read, notHash, notAccess]
  | case5 word next rest otherHash otherAccess ih =>
      obtain ⟨one, two⟩ := state_after_other word otherHash otherAccess
      have state : (s.read word).state = stateAfter word := by simp [Scan.read, notHash, notAccess]
      have kept : (s.read word).hash = s.hash := by simp [Scan.read, notHash, notAccess]
      rw [List.foldl_cons, ih (s.read word) (by rwa [state]) (by rwa [state]), kept]

theorem walk_hash (value : Value) (out : Outputs) :
    (walkValue value ⟨[], out, 0⟩).out.hash = ((signatures value.strings).getLast?).getD out.hash := by
  have scan := congrArg Scan.hash (scan_value value ⟨[], out, 0⟩)
  rwa [scan_hash value.strings _ (by simp [Walk.scan]) (by simp [Walk.scan])] at scan

-- Every call of a handler goes back to a "hash" member with the hash of the rebuilt text.
def HashChecked (payload : Bytes) : Prop :=
  ∀ (getHmac : GetHmac) (secretKey : Bytes) (registeredThings : List Thing) (prior stray : Bytes × Outputs)
    (topic : Bytes), ∀ call ∈ handleInstruction getHmac secretKey registeredThings prior stray topic payload,
    (parseInstructionJson (printed payload) prior stray).rc ≥ 0 ∧
      ∃ value, document (printed payload) = some value ∧
        getHmac secretKey (parseInstructionJson (printed payload) prior stray).originalJson ∈
          value.memberStrings (ascii "hash")

-- The last string to follow a "hash" is the value of a "hash" member.
def HashFromMember (payload : Bytes) : Prop :=
  (jsmnParse (printed payload) 100).rc < 0 ∨
    ∃ value, document (printed payload) = some value ∧
      ∃ hash ∈ (signatures value.strings).getLast?, hash ∈ value.memberStrings (ascii "hash")

theorem handler_called (getHmac : GetHmac) (secretKey : Bytes) (registeredThings : List Thing)
    (prior stray : Bytes × Outputs) (topic payload : Bytes) (call : HandlerCall)
    (called : call ∈ handleInstruction getHmac secretKey registeredThings prior stray topic payload) :
    (parseInstructionJson (printed payload) prior stray).rc ≥ 0 ∧
      (parseInstructionJson (printed payload) prior stray).out.hash =
        getHmac secretKey (parseInstructionJson (printed payload) prior stray).originalJson := by
  unfold handleInstruction at called
  by_cases accepted : (parseInstructionJson (printed payload) prior stray).rc ≥ 0
  · by_cases same : (parseInstructionJson (printed payload) prior stray).out.hash =
        getHmac secretKey (parseInstructionJson (printed payload) prior stray).originalJson
    · exact ⟨accepted, same⟩
    · simp only [accepted, same, if_true, if_false] at called
      cases called
  · simp only [accepted, if_false] at called
    cases called

theorem handler_reached (hash : Bytes) (prior stray : Bytes × Outputs) (payload : Bytes)
    (accepted : (parseInstructionJson (printed payload) prior stray).rc ≥ 0)
    (same : (parseInstructionJson (printed payload) prior stray).out.hash = hash) :
    ∃ call, call ∈ handleInstruction (fun _ _ => hash) [] [⟨0, [], none⟩] prior stray [] payload := by
  unfold handleInstruction
  simp only [accepted, same, if_true]
  exact ⟨_, List.mem_map_of_mem (List.mem_filter.mpr ⟨List.mem_singleton_self _, rfl⟩)⟩

-- The choice of the hash function can make a prior, a stray or a misplaced hash the right one.
theorem hash_from_member (payload : Bytes) (checked : HashChecked payload) : HashFromMember payload := by
  by_cases rejected : (jsmnParse (printed payload) 100).rc < 0
  · exact Or.inl rejected
  · refine Or.inr ?_
    cases read : document (printed payload) with
    | none =>
        have parsed := parse_no_document (printed payload) ([], ⟨[], [], [], []⟩) ([], ⟨[], [], [], []⟩) rejected read
        obtain ⟨call, called⟩ := handler_reached [] ([], ⟨[], [], [], []⟩) ([], ⟨[], [], [], []⟩) payload
          (by rw [parsed]; split <;> exact Int.le_refl 0) (by rw [parsed]; split <;> rfl)
        obtain ⟨_, value, found, _⟩ := checked _ _ _ _ _ _ call called
        rw [read] at found
        cases found
    | some value =>
        refine ⟨value, rfl, ?_⟩
        obtain ⟨other, outside⟩ := Infinite.exists_notMem_finset (value.memberStrings (ascii "hash")).toFinset
        have parsed := parse_document (printed payload) ([], ⟨other, [], [], []⟩) ([], ⟨[], [], [], []⟩) value read
        have hash := walk_hash value ⟨other, [], [], []⟩
        obtain ⟨call, called⟩ := handler_reached (((signatures value.strings).getLast?).getD other)
          ([], ⟨other, [], [], []⟩) ([], ⟨[], [], [], []⟩) payload (by rw [parsed])
          (by rw [parsed]; exact hash)
        obtain ⟨_, same, found, member⟩ := checked _ _ _ _ _ _ call called
        obtain rfl := Option.some.inj (read.symm.trans found)
        cases last : (signatures value.strings).getLast? with
        | none =>
            rw [last] at member
            exact absurd (List.mem_toFinset.mpr member) outside
        | some signature =>
            rw [last] at member
            exact ⟨signature, rfl, member⟩

theorem handle_instruction_hash_checked_iff (payload : Bytes) : HashChecked payload ↔ HashFromMember payload := by
  refine ⟨hash_from_member payload, ?_⟩
  intro signed getHmac secretKey registeredThings prior stray topic call called
  obtain ⟨accepted, same⟩ := handler_called _ _ _ _ _ _ _ call called
  refine ⟨accepted, ?_⟩
  rcases signed with rejected | ⟨value, read, hash, last, member⟩
  · rw [parse_rejected (printed payload) prior stray rejected] at accepted
    exact absurd rejected (Int.not_lt.mpr accepted)
  · refine ⟨value, read, ?_⟩
    rw [← same, parse_document (printed payload) prior stray value read, walk_hash, Option.mem_def.mp last]
    exact member

-- {"a":1} has no hash member, and server_hash still holds that of an earlier message.
theorem unsigned_instruction_handled : ¬ HashChecked (ascii "\x7b\"a\":1\x7d") := by
  intro checked
  obtain ⟨call, called⟩ := handler_reached (ascii "5f70") ([], ⟨ascii "5f70", [], [], []⟩) ([], ⟨[], [], [], []⟩)
    (ascii "\x7b\"a\":1\x7d") (by decide +kernel) (by decide +kernel)
  obtain ⟨_, value, read, member⟩ := checked _ _ _ _ _ _ call called
  have none : ((document (printed (ascii "\x7b\"a\":1\x7d"))).map (fun value => value.memberStrings (ascii "hash"))) =
      some [] := by decide +kernel
  rw [read, Option.map_some] at none
  rw [Option.some.inj none] at member
  cases member

end Aliot
