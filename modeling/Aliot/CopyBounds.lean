import Aliot.Delivery
import Aliot.Gateway
import Aliot.InstructionCopies
import Aliot.SignedText

set_option autoImplicit false

namespace Aliot

open Json (Value Members Items Leaf)

def ackLeaf (w : AckWalk) : Leaf → AckWalk
  | .primitive text => ackPrimitive text w
  | .string body => ackString body w

def leafCopies (w : AckWalk) : Leaf → List Copy
  | .primitive text => [⟨1000, text.length⟩]
  | .string body => ⟨1000, body.length⟩ :: if w.state = 1 then [⟨65, body.length⟩] else []

def leafCopied (leaf : Leaf) (x : Copied AckWalk) : Copied AckWalk := (ackLeaf x.1 leaf, x.2 ++ leafCopies x.1 leaf)

def ackLoopCopied (child : Nat → Copied AckWalk → Option (Nat × Copied AckWalk)) :
    Nat → Nat → Copied AckWalk → Option (Nat × Copied AckWalk)
  | 0, j, x => some (j, x)
  | left + 1, j, x => do
      let (used, x) ← child j x
      ackLoopCopied child left (j + used) x

-- ack_handler with a record of what it copies.
def ackHandlerCopied (js : Bytes) (tokens : List JsmnTok) : Nat → Nat → Nat → Copied AckWalk → Option (Nat × Copied AckWalk)
  | 0, _, _, _ => none
  | fuel + 1, t, count, x =>
      if count = 0 then some (0, x)
      else
        match tokens[t]? with
        | none => none
        | some tok =>
            let child := fun j x => ackHandlerCopied js tokens fuel (t + 1 + j) (count - j) x
            match tok.type with
            | .primitive => some (1, leafCopied (.primitive (tokenText js tok)) x)
            | .string => some (1, leafCopied (.string (tokenText js tok)) x)
            | .object => (ackLoopCopied child (2 * tok.size) 0 x).map (fun (j, x) => (j + 1, x))
            | .array => (ackLoopCopied child tok.size 0 x).map (fun (j, x) => (j + 1, x))

theorem ack_loop_erased (child : Nat → Copied AckWalk → Option (Nat × Copied AckWalk))
    (plain : Nat → AckWalk → Option (Nat × AckWalk)) (same : ∀ j x, (child j x).map erased = plain j x.1) (left j : Nat)
    (x : Copied AckWalk) : (ackLoopCopied child left j x).map erased = ackLoop plain left j x.1 :=
  item_loop_erased child plain same (ackLoopCopied child) (ackLoop plain) id id (fun _ => rfl) (fun _ _ => rfl)
    (fun _ _ => rfl) (fun _ _ _ => rfl) (fun _ _ _ => rfl) left j x

-- Without its record the walk is ack_handler's.
theorem ack_handler_erased (js : Bytes) (tokens : List JsmnTok) (fuel t count : Nat) (x : Copied AckWalk) :
    (ackHandlerCopied js tokens fuel t count x).map erased = ackHandler js tokens fuel t count x.1 := by
  induction fuel generalizing t count x with
  | zero => rfl
  | succ fuel ih =>
      unfold ackHandlerCopied ackHandler
      split
      · rfl
      · cases tokens[t]? with
        | none => rfl
        | some tok =>
            have loop := fun left => ack_loop_erased _ _ (fun j x => ih (t + 1 + j) (count - j) x) left 0 x
            cases type : tok.type with
            | primitive => simp only [type]; rfl
            | string => simp only [type]; rfl
            | object =>
                simp only [type, ← loop]
                cases ackLoopCopied _ (2 * tok.size) 0 x <;> rfl
            | array =>
                simp only [type, ← loop]
                cases ackLoopCopied _ tok.size 0 x <;> rfl

def leavesCopies : List Leaf → AckWalk → List Copy
  | [], _ => []
  | leaf :: leaves, w => leafCopies w leaf ++ leavesCopies leaves (ackLeaf w leaf)

theorem leaves_copies_append (first second : List Leaf) (w : AckWalk) :
    leavesCopies (first ++ second) w = leavesCopies first w ++ leavesCopies second (first.foldl ackLeaf w) := by
  induction first generalizing w with
  | nil => rfl
  | cons leaf first ih => rw [List.cons_append, leavesCopies, ih, leavesCopies, List.append_assoc, List.foldl_cons]

def leavesCopied (leaves : List Leaf) (x : Copied AckWalk) : Copied AckWalk :=
  (leaves.foldl ackLeaf x.1, x.2 ++ leavesCopies leaves x.1)

theorem leaves_copied_append (first second : List Leaf) (x : Copied AckWalk) :
    leavesCopied (first ++ second) x = leavesCopied second (leavesCopied first x) := by
  simp only [leavesCopied, List.foldl_append, leaves_copies_append, List.append_assoc]

def ackCopied (value : Value) (x : Copied AckWalk) : Copied AckWalk := leavesCopied value.leaves x

theorem ack_loop_members (child : Nat → Copied AckWalk → Option (Nat × Copied AckWalk))
    (tree : Nat → Option (Nat × Value)) (total base size j : Nat) (x : Copied AckWalk)
    (follows : Follows total base child tree ackCopied) (here : base + j ≤ total) :
    ackLoopCopied child (2 * size) j x =
      (readMembers tree size j).map (fun (j, members) => (j, leavesCopied members.leaves x)) :=
  members_followed follows (fun size => ackLoopCopied child (2 * size)) (fun members => leavesCopied members.leaves) id
    (fun _ value => value) (fun _ _ => rfl) (fun _ _ _ => rfl) (fun x => Prod.ext rfl (List.append_nil x.2))
    (fun key value rest x => by
      simp only [Members.leaves, leaves_copied_append]
      rfl) size j x here

theorem ack_loop_items (child : Nat → Copied AckWalk → Option (Nat × Copied AckWalk))
    (tree : Nat → Option (Nat × Value)) (total base size j : Nat) (x : Copied AckWalk)
    (follows : Follows total base child tree ackCopied) (here : base + j ≤ total) :
    ackLoopCopied child size j x = (readItems tree size j).map (fun (j, items) => (j, leavesCopied items.leaves x)) :=
  items_followed follows (ackLoopCopied child) (fun items => leavesCopied items.leaves) id (fun _ _ => rfl)
    (fun _ _ _ => rfl) (fun x => Prod.ext rfl (List.append_nil x.2))
    (fun value rest x => by
      simp only [Items.leaves, leaves_copied_append]
      rfl) size j x here

section Read

variable (js : Bytes) (tokens : List JsmnTok)

theorem ack_handler_copied (fuel t count : Nat) (x : Copied AckWalk) (within : tokens.length ≤ t + count)
    (here : t ≤ tokens.length) (counted : 0 < count) :
    ackHandlerCopied js tokens fuel t count x =
      (readTree js tokens fuel t).map (fun (used, value) => (used, ackCopied value x)) := by
  induction fuel generalizing t count x with
  | zero => rfl
  | succ fuel ih =>
      simp only [ackHandlerCopied, readTree, Nat.pos_iff_ne_zero.mp counted, if_false]
      cases found : tokens[t]? with
      | none => rfl
      | some tok =>
          have inside : t < tokens.length := (List.getElem?_eq_some_iff.mp found).1
          have follows := tree_follows js tokens fuel (t + 1)
            (fun j x => ackHandlerCopied js tokens fuel (t + 1 + j) (count - j) x) ackCopied
            (fun j x here => ih (t + 1 + j) (count - j) x (by omega) here (by omega))
          cases type : tok.type with
          | primitive =>
              simp only [type]
              simp [ackCopied, leavesCopied, leavesCopies, leafCopied, Value.leaves]
          | string =>
              simp only [type]
              simp [ackCopied, leavesCopied, leavesCopies, leafCopied, Value.leaves]
          | object =>
              simp only [type]
              rw [ack_loop_members _ _ _ _ tok.size 0 _ follows inside]
              cases readMembers (fun j => readTree js tokens fuel (t + 1 + j)) tok.size 0 <;> rfl
          | array =>
              simp only [type]
              rw [ack_loop_items _ _ _ _ tok.size 0 _ follows inside]
              cases readItems (fun j => readTree js tokens fuel (t + 1 + j)) tok.size 0 <;> rfl

end Read

-- What the leaf that comes next is read as.
def ackStateRead (state : Nat) (body : Bytes) : Nat :=
  if state = 1 ∨ state = 2 then 0 else if body = ascii "context" then 1 else if body = ascii "http_code" then 2 else 0

-- The strings that are read as the context.
def contexts : Nat → List Leaf → List Bytes
  | _, [] => []
  | _, .primitive _ :: leaves => contexts 0 leaves
  | state, .string body :: leaves => (if state = 1 then [body] else []) ++ contexts (ackStateRead state body) leaves

theorem ack_string_state (body : Bytes) (w : AckWalk) : (ackString body w).state = ackStateRead w.state body := by
  unfold ackString ackStateRead
  by_cases one : w.state = 1
  · simp [one]
  · by_cases two : w.state = 2
    · simp [two]
    · simp only [one, two, if_false, or_self]
      repeat' split
      all_goals rfl

theorem leaves_copies_fit (leaves : List Leaf) (w : AckWalk) (short : ∀ leaf ∈ leaves, leaf.text.length < 1000) :
    AllFit (leavesCopies leaves w) ↔ ∀ context ∈ contexts w.state leaves, context.length < 65 := by
  induction leaves generalizing w with
  | nil => exact iff_of_true all_fit_nil (fun _ listed => nomatch listed)
  | cons leaf leaves ih =>
      have text := short leaf List.mem_cons_self
      have rest := ih (ackLeaf w leaf) (fun other listed => short other (List.mem_cons_of_mem _ listed))
      cases leaf with
      | primitive body =>
          rw [leavesCopies, all_fit_append, rest]
          have text : body.length < 1000 := text
          have fits : AllFit (leafCopies w (.primitive body)) := (all_fit_single 1000 body.length).mpr text
          exact and_iff_right fits
      | string body =>
          have state : (ackLeaf w (.string body)).state = ackStateRead w.state body := ack_string_state body w
          have fits : AllFit (leafCopies w (.string body)) ↔ (w.state = 1 → body.length < 65) := by
            have text : body.length < 1000 := text
            have whole : Copy.Fits ⟨1000, body.length⟩ := text
            rw [leafCopies, all_fit_cons, and_iff_right whole]
            by_cases one : w.state = 1
            · simp [one, all_fit_single]
            · simp [one, all_fit_nil]
          rw [leavesCopies, all_fit_append, rest, fits, state, contexts, List.forall_mem_append]
          by_cases one : w.state = 1
          · simp [one]
          · simp [one]

def httpAckCopies (payload : Bytes) (prior : Bytes × Int) (stray : List Copy) : List Copy :=
  let json := printed payload
  let parsed := jsmnParse json 100
  ⟨1000, json.length⟩ ::
    match ackHandlerCopied json parsed.tokens (parsed.tokens.length + 1) 0 parsed.tokens.length
        (⟨prior.1, prior.2, 0⟩, []) with
    | some (_, x) => x.2
    | none => stray

-- The same of a rejected text: its tokens are walked too.
def AckRoomy (json : Bytes) : Prop :=
  (jsmnParse json 100).tokens = [] ∨ ∃ value, readDocument json (jsmnParse json 100).tokens = some value ∧
    ∀ context ∈ contexts 0 value.leaves, context.length < 65

def ShortLeaves (n : Nat) (leaves : List Leaf) : Prop := ∀ leaf ∈ leaves, leaf.text.length < n

theorem short_leaves_inherited (n : Nat) : Inherited (fun value => ShortLeaves n value.leaves)
    (fun members => ShortLeaves n members.leaves) (fun items => ShortLeaves n items.leaves) where
  object _ short := short
  array _ short := short
  noMember _ listed := nomatch listed
  member _ _ _ key value rest := List.forall_mem_append.mpr ⟨key, List.forall_mem_append.mpr ⟨value, rest⟩⟩
  noItem _ listed := nomatch listed
  item _ _ value rest := List.forall_mem_append.mpr ⟨value, rest⟩

theorem token_text_length (js : Bytes) (tok : JsmnTok) : (tokenText js tok).length ≤ js.length := by
  simp only [tokenText, List.length_take, List.length_drop]
  omega

theorem document_leaves_short (json : Bytes) (tokens : List JsmnTok) (n fuel used : Nat) (value : Value)
    (short : json.length < n) (read : readTree json tokens fuel 0 = some (used, value)) : ShortLeaves n value.leaves := by
  refine read_tree_inherited (short_leaves_inherited n) json tokens (fun tok _ => ?_) fuel 0 used value read
  have text := Nat.lt_of_le_of_lt (token_text_length json tok) short
  exact ⟨fun _ => List.forall_mem_singleton.mpr text, fun _ => List.forall_mem_singleton.mpr text⟩

theorem http_ack_copies_fit (payload : Bytes) (prior : Bytes × Int) :
    (∀ stray, AllFit (httpAckCopies payload prior stray)) ↔ (printed payload).length < 1000 ∧ AckRoomy (printed payload) := by
  have first : ∀ copies, AllFit (⟨1000, (printed payload).length⟩ :: copies) ↔
      (printed payload).length < 1000 ∧ AllFit copies := fun copies => all_fit_cons _ copies
  simp only [httpAckCopies, first, forall_and, forall_const]
  refine and_congr_right (fun short => ?_)
  by_cases empty : (jsmnParse (printed payload) 100).tokens = []
  · refine iff_of_true (fun _ => ?_) (.inl empty)
    simp [empty, ackHandlerCopied, AllFit]
  have walk := ack_handler_copied (printed payload) (jsmnParse (printed payload) 100).tokens
    ((jsmnParse (printed payload) 100).tokens.length + 1) 0 (jsmnParse (printed payload) 100).tokens.length
    (⟨prior.1, prior.2, 0⟩, []) (by simp) (by simp) (List.length_pos_of_ne_nil empty)
  simp only [walk, AckRoomy, empty, false_or, readDocument]
  cases read : readTree (printed payload) (jsmnParse (printed payload) 100).tokens
      ((jsmnParse (printed payload) 100).tokens.length + 1) 0 with
  | none =>
      refine iff_of_false (fun fits => ?_) (by simp)
      exact absurd (fits [⟨0, 0⟩] ⟨0, 0⟩ List.mem_cons_self) (by decide)
  | some found =>
      have leaves := leaves_copies_fit found.2.leaves ⟨prior.1, prior.2, 0⟩
        (document_leaves_short (printed payload) _ 1000 _ found.1 found.2 short read)
      simp only [Option.map_some, ackCopied, leavesCopied, List.nil_append, leaves, Option.some.injEq, exists_eq_left',
        forall_const]

-- `overrun`, `outputs`, `globals` and `stray` come from memory the call has not written.
def handlerCopies (fp : Handler) (c : Client Handler) (md : MessageData) (overrun : Bytes) (outputs : Outputs)
    (globals : Bytes × Int) (stray : List Copy) : List Copy :=
  match fp with
  | .httpAck => httpAckCopies (messageBytes c overrun md.message) globals stray
  | .instruction _ => instructionCopies (topicBytes c md.topicName) (messageBytes c overrun md.message) outputs stray

def CopiesFit (fp : Handler) (c : Client Handler) (md : MessageData) : Prop :=
  ∀ overrun outputs globals stray, AllFit (handlerCopies fp c md overrun outputs globals stray)

def RoomFor (c : Client Handler) (md : MessageData) : Handler → Prop
  | .httpAck => (printed (payloadBytes c md.message)).length < 1000 ∧ AckRoomy (printed (payloadBytes c md.message))
  | .instruction _ => (printed (topicBytes c md.topicName)).length < 1024 ∧
      (printed (payloadBytes c md.message)).length < 2048 ∧ DocumentRoomy (printed (payloadBytes c md.message))

theorem message_bytes_counted {H : Type} (c : Client H) (overrun : Bytes) (message : MQTTMessage)
    (counted : 0 ≤ message.payloadlen) : messageBytes c overrun message = payloadBytes c message :=
  if_neg (Int.not_lt.mpr counted)

theorem uncounted_overruns (fp : Handler) (c : Client Handler) (md : MessageData) (uncounted : md.message.payloadlen < 0) :
    ¬ CopiesFit fp c md := by
  intro fits
  have long : (printed (List.replicate 2048 0x20)).length = 2048 := by
    have nulFree : (0 : UInt8) ∉ List.replicate 2048 (0x20 : UInt8) :=
      fun listed => absurd (List.eq_of_mem_replicate listed) (by decide)
    rw [printed_of_nul_free _ nulFree, List.length_replicate]
  have read : messageBytes c (List.replicate 2048 0x20) md.message = List.replicate 2048 0x20 := if_pos uncounted
  have all := fits (List.replicate 2048 0x20) ⟨[], [], [], []⟩ ([], 0) []
  cases fp with
  | httpAck =>
      simp only [handlerCopies, read, httpAckCopies, long] at all
      exact absurd (all _ List.mem_cons_self) (by decide)
  | instruction place =>
      simp only [handlerCopies, read, instructionCopies, long] at all
      exact absurd (all _ (List.mem_cons_of_mem _ List.mem_cons_self)) (by decide)

theorem copies_fit_iff (fp : Handler) (c : Client Handler) (md : MessageData) :
    CopiesFit fp c md ↔ 0 ≤ md.message.payloadlen ∧ RoomFor c md fp := by
  by_cases counted : 0 ≤ md.message.payloadlen
  · simp only [CopiesFit, handlerCopies, message_bytes_counted c _ _ counted, and_iff_right counted]
    cases fp with
    | httpAck =>
        have fits := http_ack_copies_fit (payloadBytes c md.message)
        exact ⟨fun all => (fits ([], 0)).mp (all [] ⟨[], [], [], []⟩ ([], 0)), fun room _ _ globals => (fits globals).mpr room⟩
    | instruction place =>
        have fits := instruction_copies_fit (topicBytes c md.topicName) (payloadBytes c md.message)
        exact ⟨fun all => (fits ⟨[], [], [], []⟩).mp (all [] ⟨[], [], [], []⟩ ([], 0)),
          fun room _ outputs _ => (fits outputs).mpr room⟩
  · exact iff_of_false (uncounted_overruns fp c md (Int.not_le.mp counted)) (fun room => counted room.1)

def longHash : Value := .object (.cons (.string (ascii "hash")) (.string (List.replicate 200 0x61)) .nil)

def longHashClient : Client Handler :=
  { mqttClient ⟨0, 0, fun _ => 0, 0, false, false, [], none, []⟩ 4096 with
    readbuf := fun i => (plainPublish [0x74] longHash.text).wire.getD i 0 }

def longHashMessage : MessageData :=
  let publish := mqttDeserializePublish longHashClient.readbuf ⟨0, 0, 0, 0, 0, 0⟩ ⟨0, 0⟩
  ⟨publish.topicName, publish.message⟩

theorem document_not_roomy (json : Bytes) (value : Value) (read : document json = some value) (full : ¬ Roomy value 0) :
    ¬ DocumentRoomy json := by
  rintro (rejected | empty | ⟨other, same, roomy⟩)
  · simp only [document, rejected, if_true] at read
    cases read
  · simp only [document, empty, readDocument] at read
    split at read <;> cases read
  · obtain rfl := Option.some.inj (read.symm.trans same)
    exact full roomy

-- {"hash":"aaa…"} with 200 bytes: buf holds 200 with the NUL, server_hash 65.
theorem long_hash_overruns : (plainPublish [0x74] longHash.text).wire.length ≤ 4096 ∧
    ¬ CopiesFit (.instruction 0) longHashClient longHashMessage := by
  refine ⟨by decide +kernel, ?_⟩
  have payload : payloadBytes longHashClient longHashMessage.message = longHash.text := by decide +kernel
  have whole : printed longHash.text = longHash.text := by decide +kernel
  have read := compact_document longHash (by decide +kernel) (by decide +kernel)
  have full : ¬ Roomy longHash 0 := fun roomy => absurd roomy.1.2.1.1 (by decide +kernel)
  rw [copies_fit_iff, RoomFor, payload, whole]
  rintro ⟨_, _, _, roomy⟩
  exact document_not_roomy longHash.text longHash read full roomy

end Aliot
