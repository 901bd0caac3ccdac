import Aliot.Subscriptions

set_option autoImplicit false

namespace Aliot

variable {H σ ε : Type}

-- MQTTSubscribe up to the end of its wait.
def subackAwaited (call : Call H σ ε) (topicFilter : Bytes) (qos : Nat) (s : Sys H σ ε) : Int × Sys H σ ε :=
  match sendCommand (fun buflen id => mqttSerializeSubscribe buflen id topicFilter qos) s with
  | (none, s) => (FAILURE, s)
  | (some checks, s) => waitfor call SUBACK checks FAILURE s

theorem subscribe_awaited (call : Call H σ ε) (topicFilter : Bytes) (qos : Nat) (messageHandler : H) (s : Sys H σ ε) :
    mqttSubscribe call topicFilter qos messageHandler s =
      if (subackAwaited call topicFilter qos s).1 = SUBACK then
        acceptSuback topicFilter messageHandler (subackAwaited call topicFilter qos s).2
      else (FAILURE, (subackAwaited call topicFilter qos s).2) := by
  have unanswered : ¬ FAILURE = SUBACK := by decide
  rcases sent : sendCommand (fun buflen id => mqttSerializeSubscribe buflen id topicFilter qos) s with ⟨_ | checks, t⟩
  · simp only [mqttSubscribe, subackAwaited, sent, if_neg unanswered]
  · simp only [mqttSubscribe, subackAwaited, sent]

-- A SUBACK for one filter, whole or cut off before its code.
def SubackBody (body : Bytes) : Prop :=
  body.length < 3 ∨ ∃ high low code, body = [high, low, code] ∧ (code = 0 ∨ code = 1 ∨ code = 2 ∨ code = 0x80)

def Granted (body : Bytes) : Prop := body[2]? = some 0 ∨ body[2]? = some 1 ∨ body[2]? = some 2

def HasFree (table : List (MessageHandler H)) : Prop :=
  ∃ entry ∈ table.take MAX_MESSAGE_HANDLERS, entry.topicFilter = none

def Installed (before after : List (MessageHandler H)) (topicFilter : Bytes) (messageHandler : H) : Prop :=
  ∃ i entry, i < MAX_MESSAGE_HANDLERS ∧ before[i]? = some entry ∧ entry.topicFilter = none ∧
    after = before.set i ⟨some topicFilter, some messageHandler⟩

-- What MQTTSubscribe reports about the table it found when the SUBACK arrived.
structure SubscribeTold (before after : List (MessageHandler H)) (body topicFilter : Bytes) (messageHandler : H)
    (rc : Int) : Prop where
  success : rc = 0 ↔ Granted body ∧ Installed before after topicFilter messageHandler
  refusal : ¬ (Granted body ∧ HasFree before) → rc ≠ 0 ∧ after = before

theorem installed_free (before after : List (MessageHandler H)) (topicFilter : Bytes) (messageHandler : H)
    (done : installHandler before topicFilter messageHandler = some after) :
    HasFree before ∧ Installed before after topicFilter messageHandler := by
  obtain ⟨i, found, rfl⟩ := Option.map_eq_some_iff.mp done
  obtain ⟨below, free, _⟩ := List.findIdx?_eq_some_iff_getElem.mp found
  have empty := Option.isNone_iff_eq_none.mp free
  refine ⟨⟨_, List.getElem_mem below, empty⟩, i, _, ?_, ?_, empty, rfl⟩
  · exact Nat.lt_of_lt_of_le below (List.length_take_le _ _)
  · rw [List.getElem_take]
    exact List.getElem?_eq_getElem _

theorem not_installed_not_free (before : List (MessageHandler H)) (topicFilter : Bytes) (messageHandler : H)
    (failed : installHandler before topicFilter messageHandler = none) : ¬ HasFree before := by
  have full := List.findIdx?_eq_none_iff.mp (Option.map_eq_none_iff.mp failed)
  rintro ⟨entry, listed, free⟩
  have used := full entry listed
  rw [free] at used
  cases used

theorem installed_has_free (before after : List (MessageHandler H)) (topicFilter : Bytes) (messageHandler : H)
    (installed : Installed before after topicFilter messageHandler) : HasFree before := by
  obtain ⟨i, entry, below, found, free, _⟩ := installed
  refine ⟨entry, List.mem_of_getElem? (i := i) ?_, free⟩
  rwa [List.getElem?_take_of_lt below]

theorem suback_parts (readbuf : Nat → UInt8) (body : Bytes) (holds : Holds readbuf (.other 0x90 body))
    (answer : SubackBody body) : headerType (readbuf 0) = SUBACK ∧ mqttPacketDecodeBuf readbuf 1 = (1, body.length) ∧
      Memory.load readbuf 2 body.length = body := by
  obtain ⟨header, length, loaded⟩ := holds_parts readbuf _ holds
  have short : body.length < 128 := by
    rcases answer with cut | ⟨high, low, code, rfl, _⟩
    · omega
    · exact (by decide : 3 < 128)
  have one : VarInt.encode body.length = [UInt8.ofNat body.length] := by
    rw [VarInt.encode_eq, if_neg (by omega), Nat.mod_eq_of_lt short]
  have decoded := decode_buf_encoded readbuf 1 _ (Nat.lt_trans short (by decide)) length
  simp only [Inbound.body, one] at decoded loaded
  exact ⟨header ▸ (by decide : headerType 0x90 = SUBACK), decoded, loaded⟩

-- A body that is cut off leaves the -1 that grantedQoS starts from; the length byte is returned as a success.
theorem suback_deserialized (readbuf : Nat → UInt8) (body : Bytes) (holds : Holds readbuf (.other 0x90 body))
    (answer : SubackBody body) :
    (mqttDeserializeSuback readbuf 0 (-1)).rc = 1 ∧
      (mqttDeserializeSuback readbuf 0 (-1)).grantedQoS = (body[2]?.map readChar).getD (-1) := by
  obtain ⟨type, decoded, loaded⟩ := suback_parts readbuf body holds answer
  rcases answer with cut | ⟨high, low, code, rfl, _⟩
  · have noCode : body[2]? = none := List.getElem?_eq_none (by omega)
    have noMore : body.length - 2 = 0 := by omega
    simp only [mqttDeserializeSuback, type, decoded, noCode, noMore]
    by_cases noId : body.length < 2
    · simp [noId]
    · simp [noId]
  · obtain ⟨_, loaded⟩ := load_cons readbuf _ _ _ loaded
    obtain ⟨_, loaded⟩ := load_cons readbuf _ _ _ loaded
    obtain ⟨last, _⟩ := load_cons readbuf _ _ _ loaded
    simp [mqttDeserializeSuback, type, decoded, last]

theorem read_char_zero (code : UInt8) : readChar code = 0 ↔ code = 0 := by
  have bound := code.toNat_lt
  rw [← UInt8.toNat_inj]
  simp only [readChar, UInt8.lt_iff_toNat_lt]
  split
  · exact Int.natCast_eq_zero
  · rename_i large
    simp only [UInt8.reduceToNat] at large ⊢
    omega

-- A refusal is not recognised: the table takes every subscription while an entry is free.
theorem accept_suback_told (topicFilter : Bytes) (messageHandler : H) (t : Sys H σ ε) (body : Bytes)
    (holds : Holds t.client.readbuf (.other 0x90 body)) (answer : SubackBody body) :
    SubscribeTold t.client.messageHandlers (acceptSuback topicFilter messageHandler t).2.client.messageHandlers body
        topicFilter messageHandler (acceptSuback topicFilter messageHandler t).1 ↔
      (HasFree t.client.messageHandlers → Granted body) ∧ (¬ HasFree t.client.messageHandlers → body[2]? ≠ some 0) := by
  obtain ⟨parsed, code⟩ := suback_deserialized t.client.readbuf body holds answer
  have accepted := suback_never_refused t.client.readbuf
  cases done : installHandler t.client.messageHandlers topicFilter messageHandler with
  | some table =>
      obtain ⟨free, installed⟩ := installed_free _ _ _ _ done
      have outcome : acceptSuback topicFilter messageHandler t = (0, t.withHandlers table) := by
        simp only [acceptSuback, if_pos accepted, done]
      rw [outcome]
      simp only [free, true_imp_iff, not_true_eq_false, false_imp_iff, and_true]
      refine ⟨fun told => (told.success.mp rfl).1, fun granted => ⟨iff_of_true rfl ⟨granted, installed⟩, ?_⟩⟩
      exact fun refused => absurd ⟨granted, free⟩ refused
  | none =>
      have full := not_installed_not_free _ _ _ done
      have outcome : acceptSuback topicFilter messageHandler t = ((body[2]?.map readChar).getD (-1), t) := by
        simp only [acceptSuback, done, parsed, if_true, code, ite_self]
      rw [outcome]
      simp only [full, false_imp_iff, not_false_eq_true, true_imp_iff, true_and]
      have zero : (body[2]?.map readChar).getD (-1) = 0 ↔ body[2]? = some 0 := by
        cases body[2]? with
        | none => simp
        | some code => simp [read_char_zero]
      refine ⟨fun told granted => (told.refusal (fun both => full both.2)).1 (zero.mpr granted), fun other => ⟨?_, fun _ => ?_⟩⟩
      · exact iff_of_false (fun same => other (zero.mp same)) (fun both => full (installed_has_free _ _ _ _ both.2))
      · exact ⟨fun same => other (zero.mp same), rfl⟩

theorem subscribe_told_iff (call : Call H σ ε) (topicFilter : Bytes) (qos : Nat) (messageHandler : H) (s : Sys H σ ε)
    (body : Bytes) (awaited : (subackAwaited call topicFilter qos s).1 = SUBACK)
    (holds : Holds (subackAwaited call topicFilter qos s).2.client.readbuf (.other 0x90 body)) (answer : SubackBody body) :
    SubscribeTold (subackAwaited call topicFilter qos s).2.client.messageHandlers
        (mqttSubscribe call topicFilter qos messageHandler s).2.client.messageHandlers body topicFilter messageHandler
        (mqttSubscribe call topicFilter qos messageHandler s).1 ↔
      (HasFree (subackAwaited call topicFilter qos s).2.client.messageHandlers → Granted body) ∧
        (¬ HasFree (subackAwaited call topicFilter qos s).2.client.messageHandlers → body[2]? ≠ some 0) := by
  rw [subscribe_awaited, if_pos awaited]
  exact accept_suback_told topicFilter messageHandler _ body holds answer

-- A connected client whose broker answers the first packet it reads.
def answeredSystem (answer : Inbound) : Sys Nat Unit Unit :=
  ⟨{ mqttClient zeroClient 4096 with isconnected := true }, ⟨[arrivalOf answer], [true], [1], []⟩, (), 0, []⟩

theorem granted_told : SubscribeTold (List.replicate MAX_MESSAGE_HANDLERS ⟨none, none⟩)
    (mqttSubscribe (fun _ _ s => s) [0x61] 1 7 (answeredSystem (.other 0x90 [0, 1, 1]))).2.client.messageHandlers [0, 1, 1]
    [0x61] 7 (mqttSubscribe (fun _ _ s => s) [0x61] 1 7 (answeredSystem (.other 0x90 [0, 1, 1]))).1 :=
  (subscribe_told_iff (fun _ _ s => s) [0x61] 1 7 (answeredSystem (.other 0x90 [0, 1, 1])) [0, 1, 1] (by decide +kernel)
    (by rw [Holds]; decide +kernel) (.inr ⟨0, 1, 1, rfl, by decide⟩)).mpr
    ⟨fun _ => .inr (.inl rfl), fun _ => by decide⟩

-- The refusal 0x80 is read as -128.
theorem refused_installed : (mqttSubscribe (fun _ _ s => s) [0x61] 1 7 (answeredSystem (.other 0x90 [0, 1, 0x80]))).1 = 0 ∧
    ¬ SubscribeTold (List.replicate MAX_MESSAGE_HANDLERS ⟨none, none⟩)
      (mqttSubscribe (fun _ _ s => s) [0x61] 1 7 (answeredSystem (.other 0x90 [0, 1, 0x80]))).2.client.messageHandlers
      [0, 1, 0x80] [0x61] 7 (mqttSubscribe (fun _ _ s => s) [0x61] 1 7 (answeredSystem (.other 0x90 [0, 1, 0x80]))).1 := by
  have success : (mqttSubscribe (fun _ _ s => s) [0x61] 1 7 (answeredSystem (.other 0x90 [0, 1, 0x80]))).1 = 0 := by
    decide +kernel
  refine ⟨success, fun told => ?_⟩
  have granted := (told.success.mp success).1
  exact absurd granted (by simp [Granted])

end Aliot
