import Aliot.JsonText
import Aliot.PacketRetry

set_option autoImplicit false

namespace Aliot

open Json (Value Members)

def isAlphanumeric (byte : UInt8) : Bool :=
  Json.isDigit byte || (0x41 ≤ byte && byte ≤ 0x5a) || (0x61 ≤ byte && byte ≤ 0x7a)

def hexDigit (n : Nat) : UInt8 := if n < 10 then UInt8.ofNat (0x30 + n) else UInt8.ofNat (0x61 + (n - 10))

-- get_hmac prints every byte of the digest with "%02lx".
def printDigest (digest : Bytes) : Bytes :=
  digest.flatMap (fun byte => [hexDigit (byte.toNat / 16), hexDigit (byte.toNat % 16)])

theorem alphanumeric_plain (byte : UInt8) (alphanumeric : isAlphanumeric byte = true) : Json.plainByte byte = true := by
  have table : ∀ n : Fin 256, isAlphanumeric (UInt8.ofNat n.val) = true → Json.plainByte (UInt8.ofNat n.val) = true := by
    decide +kernel
  simpa using table ⟨byte.toNat, byte.toNat_lt⟩ (by simpa using alphanumeric)

theorem hex_digit_alphanumeric (n : Nat) (small : n < 16) : isAlphanumeric (hexDigit n) = true := by
  have table : ∀ n : Fin 16, isAlphanumeric (hexDigit n.val) = true := by decide
  exact table ⟨n, small⟩

theorem alphanumeric_string_body (body : Bytes) (alphanumeric : ∀ byte ∈ body, isAlphanumeric byte = true) :
    Json.stringBody 0 body = true :=
  Json.plain_string_body body (List.all_eq_true.mpr (fun byte listed => alphanumeric_plain byte (alphanumeric byte listed)))

theorem print_digest_alphanumeric (digest : Bytes) : ∀ byte ∈ printDigest digest, isAlphanumeric byte = true := by
  intro byte listed
  obtain ⟨octet, _, digit⟩ := List.mem_flatMap.mp listed
  have bound := octet.toNat_lt
  rcases List.mem_cons.mp digit with rfl | rest
  · exact hex_digit_alphanumeric _ (by omega)
  · obtain rfl := List.mem_singleton.mp rest
    exact hex_digit_alphanumeric _ (by omega)

theorem print_digest_length (digest : Bytes) : (printDigest digest).length = 2 * digest.length := by
  induction digest with
  | nil => rfl
  | cons byte digest ih =>
      have pair : printDigest (byte :: digest) = [hexDigit (byte.toNat / 16), hexDigit (byte.toNat % 16)] ++ printDigest digest := rfl
      rw [pair, List.length_append, ih, List.length_cons, List.length_cons, List.length_cons, List.length_nil]
      omega

theorem print_digest_nul_free (digest : Bytes) : (0 : UInt8) ∉ printDigest digest := by
  intro zero
  cases print_digest_alphanumeric digest 0 zero

def signedObject (g : Gateway) (members : Members) (packet : Bytes) : Value :=
  .object (members.append (envelope g packet))

def Deletes (added : Members) (text rest : Bytes) : Prop :=
  ∃ front, text = front ++ added.listed ++ [Json.closeBrace] ∧ rest = front ++ [Json.closeBrace]

def Document (value : Value) (text : Bytes) : Prop :=
  ∃ space spelled, text = space ++ spelled ∧ Json.Blank space ∧ value.Spells spelled

-- The text for an object, the way back to the caller's text, and well-formedness with a hash as get_hmac prints it.
structure SigningLaw (g : Gateway) (members : Members) (packet text : Bytes) : Prop where
  object : Document (signedObject g members packet) text
  deleted : Deletes (envelope g packet) text packet
  valid : (∃ digest, g.getHmac g.secretKey packet = printDigest digest) → (signedObject g members packet).wellFormed = true

theorem envelope_valid_iff (g : Gateway) (packet digest : Bytes) (hash : g.getHmac g.secretKey packet = printDigest digest) :
    (envelope g packet).wellFormed = true ↔ Json.stringBody 0 g.accessKey = true := by
  have names : Json.stringBody 0 (ascii "hash") = true ∧ Json.stringBody 0 (ascii "access_key") = true ∧
      Json.stringBody 0 (ascii "aliot_protocol_version") = true ∧ Json.primitiveText (ascii "2") = true := by decide +kernel
  have hashBody := alphanumeric_string_body (printDigest digest) (print_digest_alphanumeric digest)
  simp only [envelope, Members.wellFormed, Value.wellFormed, Value.isKey, names, hash, hashBody, Bool.and_true, Bool.true_and]

theorem signing_law (g : Gateway) (members : Members) (packet : Bytes) (document : Document (.object members) packet)
    (valid : (Value.object members).wellFormed = true) (some : members.isNil = false)
    (alphanumeric : ∀ byte ∈ g.accessKey, isAlphanumeric byte = true) :
    ∃ text, Publishes g packet text ∧ SigningLaw g members packet text := by
  obtain ⟨space, spelled, text, blank, inner, rfl, empty | lists⟩ := document
  · rw [empty.1] at some
    cases some
  have front : packet.dropLast = space ++ Json.openBrace :: inner := by
    rw [text, List.dropLast_append_of_ne_nil (List.cons_ne_nil _ _), drop_brace]
  refine ⟨signedJson g packet, signed_json_published g packet, ?_, ?_, ?_⟩
  · refine ⟨space, Json.openBrace :: (inner ++ added g packet ++ [Json.closeBrace]), ?_, blank, inner ++ added g packet, rfl, ?_⟩
    · rw [signed_json_text, front]
      simp only [List.append_assoc, List.cons_append]
    · exact .inr (Json.lists_append members _ (Json.comma :: inner) _ lists (envelope_lists g packet))
  · refine ⟨space ++ Json.openBrace :: inner, ?_, ?_⟩
    · rw [signed_json_text, front, added_listed]
    · rw [text]
      simp only [List.append_assoc, List.cons_append]
  · rintro ⟨digest, hash⟩
    have extra := (envelope_valid_iff g packet digest hash).mpr (alphanumeric_string_body g.accessKey alphanumeric)
    have own : members.wellFormed = true := valid
    simp only [signedObject, Value.wellFormed, Json.well_formed_append, own, extra, Bool.and_self]

def digestGateway : Gateway := { eventGateway with getHmac := fun _ _ => printDigest [0x5f, 0x70] }

theorem event_signed : ∃ text, Publishes digestGateway eventJson text ∧ SigningLaw digestGateway eventObject eventJson text :=
  signing_law digestGateway eventObject eventJson ⟨[], eventJson, rfl, Json.blank_nil, event_json_object⟩ (by decide +kernel) rfl
    (by decide +kernel)

end Aliot
