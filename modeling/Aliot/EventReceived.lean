import Mathlib.Tactic.SplitIfs
import Aliot.GetHmac
import Aliot.PublishedBytes

set_option autoImplicit false

namespace Aliot

-- The gateway with the code that it calls; what LZFcompress_data finds on the stack may differ from text to text.
structure Linked (g : Gateway) (scratch : Bytes → Nat → LzfScratch) : Prop where
  hmac : ∃ stack, g.getHmac = get_hmac stack
  compresses : ∀ data : CString, CompressesWith g (scratch data.bytes) data

def lzfTopic (g : Gateway) : Bytes := ascii "Altizon/Datonis/lzf/" ++ g.clientId ++ ascii "/event"

-- What a subscriber reads out of a payload, by its topic.
def received (g : Gateway) (topic payload : Bytes) : Option Bytes :=
  if topic = lzfTopic g then openText payload else some payload

section Event

variable (g : Gateway) (scratch : Bytes → Nat → LzfScratch) (packet : Bytes)

theorem signed_nul_free (linked : Linked g scratch) (plain : (0 : UInt8) ∉ packet) (key : (0 : UInt8) ∉ g.accessKey) :
    (0 : UInt8) ∉ signedJson g packet := by
  obtain ⟨stack, hmac⟩ := linked.hmac
  have hash : (0 : UInt8) ∉ g.getHmac g.secretKey packet := by
    rw [hmac]
    exact print_digest_nul_free _
  have front : (0 : UInt8) ∉ packet.dropLast := fun zero => plain (List.dropLast_subset packet zero)
  have texts : (0 : UInt8) ∉ ascii ",\"hash\":\"" ∧ (0 : UInt8) ∉ ascii "\",\"access_key\":\"" ∧
      (0 : UInt8) ∉ ascii "\",\"aliot_protocol_version\":2" ∧ (0 : UInt8) ∉ [Json.closeBrace] := by decide
  rw [signed_json_text, added]
  simp only [List.mem_append, not_or]
  exact ⟨⟨front, ⟨⟨⟨texts.1, hash⟩, texts.2.1⟩, key⟩, texts.2.2.1⟩, texts.2.2.2⟩

-- The caller's text, its last byte replaced by the added members and a brace.
def signedWith (g : Gateway) (packet hash : Bytes) : Bytes :=
  packet.dropLast ++ ascii ",\"hash\":\"" ++ hash ++ ascii "\",\"access_key\":\"" ++ g.accessKey ++
    ascii "\",\"aliot_protocol_version\":2\x7d"

theorem linked_signs (linked : Linked g scratch) (key : g.secretKey.length < 2 ^ 31) (small : packet.length < 2 ^ 32) :
    signedJson g packet = signedWith g packet (printDigest (Hmac.hmac Fips180.sha256 64 g.secretKey packet)) := by
  obtain ⟨stack, hmac⟩ := linked.hmac
  have last : ascii "\",\"aliot_protocol_version\":2\x7d" = ascii "\",\"aliot_protocol_version\":2" ++ [Json.closeBrace] := by
    decide
  rw [signed_json_text, added, hmac, get_hmac_whole stack g.secretKey packet key small, signedWith, last]
  simp only [List.append_assoc]

-- Plain or compressed, the payload is opened to the text.
theorem payload_received (topic : Bytes) (text : CString) (flag : Int) (other : topic ≠ lzfTopic g) :
    received g (sentTopic g topic text.bytes flag) (duePayload (scratch text.bytes) text flag) = some text.bytes := by
  by_cases packed : flag = 1 ∧ text.strlen > 1024
  · have flagged : flag = 1 ∧ text.bytes.length > 1024 := packed
    rw [sentTopic, duePayload, if_pos flagged, if_pos packed, received, lzfTopic, if_pos rfl]
    exact framed_opens (scratch text.bytes) text
  · have unflagged : ¬ (flag = 1 ∧ text.bytes.length > 1024) := packed
    rw [sentTopic, duePayload, if_neg unflagged, if_neg packed, received, if_neg other]

theorem due_payload_covers (text : CString) (flag : Int) :
    text.strlen ≤ 3000 * (duePayload (scratch text.bytes) text flag).length := by
  rw [duePayload]
  split
  · exact framed_covers (lzfCompressCall (scratch text.bytes)) text
  · unfold CString.strlen
    omega

theorem event_received (linked : Linked g scratch) (call : Call Handler Host Note) (qos : Nat) (topic : Bytes) (flag : Int)
    (s : GatewaySys) (text : CString) (signed : text.bytes = signedJson g packet) (qosBound : qos ≤ 2)
    (connected : s.client.isconnected = true) (buffer : s.client.bufSize = CLIENT_WRITEBUF)
    (fits : Fitting g (scratch text.bytes) qos topic text flag) (returns : ¬ (flag = 1 ∧ text.strlen = BLOCKSIZE))
    (key : g.secretKey.length < 2 ^ 31) (other : topic ≠ lzfTopic g) :
    ∃ mqtt checks t sentTo payload,
      encodeAndSendData g call qos topic packet flag s =
        some (awaitVerdict g call packet s.log.length (publishSent call qos checks (sendPacket 0 mqtt t))) ∧
      DecodesTo mqtt ((g.stack s.log.length).retained % 2) qos sentTo payload (ownId s) ∧
      received g sentTo payload =
        some (signedWith g packet (printDigest (Hmac.hmac Fips180.sha256 64 g.secretKey packet))) := by
  obtain ⟨mqtt, checks, t, _, returned, decodes⟩ := send_data_handed g (scratch text.bytes) call qos topic text flag s qosBound
    connected buffer (linked.compresses text) fits returns
  have small : packet.length < 2 ^ 32 := by
    have longer := signed_json_longer g packet
    have covers := due_payload_covers scratch text flag
    have room := Nat.lt_of_lt_of_le (packet_len_longer _) fits
    rw [← signed] at longer
    unfold CString.strlen at covers
    unfold CLIENT_WRITEBUF at room
    omega
  have opened := payload_received g scratch topic text flag other
  rw [signed] at opened returned
  refine ⟨mqtt, checks, t, _, _, ?_, decodes, ?_⟩
  · rw [signed_json_published g packet call qos topic flag s, returned, Option.map_some]
  · rw [signed, opened, linked_signs g scratch packet linked key small]

theorem linked_length (linked : Linked g scratch) : (signedJson g packet).length = packet.length - 1 + g.accessKey.length + 118 := by
  obtain ⟨stack, hmac⟩ := linked.hmac
  have hash : (g.getHmac g.secretKey packet).length = 64 := by
    rw [hmac, get_hmac, print_digest_length]
    rfl
  have texts : (ascii ",\"hash\":\"").length = 9 ∧ (ascii "\",\"access_key\":\"").length = 16 ∧
      (ascii "\",\"aliot_protocol_version\":2").length = 28 := by decide
  rw [signed_json_text, added]
  simp only [List.length_append, List.length_dropLast, hash, texts, List.length_cons, List.length_nil]
  omega

end Event

def linkedGateway : Gateway := { eventGateway with getHmac := get_hmac strayHmac }

theorem gateway_linked : Linked linkedGateway fun _ => freshScratch where
  hmac := ⟨strayHmac, rfl⟩
  compresses := fun _ => ⟨fun _ => 0, fun _ => 0, fun _ => 0, rfl⟩

def longJson : Bytes := ascii "\x7b\"data\":\"" ++ List.replicate 1200 97 ++ ascii "\"\x7d"

theorem long_json_plain : longJson.length = 1211 ∧ (0 : UInt8) ∉ longJson := by
  have parts : (ascii "\x7b\"data\":\"").length = 9 ∧ (ascii "\"\x7d").length = 2 := by decide
  have texts : (0 : UInt8) ∉ ascii "\x7b\"data\":\"" ∧ (0 : UInt8) ∉ ascii "\"\x7d" := by decide
  constructor
  · simp only [longJson, List.length_append, List.length_replicate, parts]
  · simp only [longJson, List.mem_append, List.mem_replicate, not_or, texts, not_false_eq_true, and_true, true_and]
    decide

-- Compressed, the text takes a packet on the lzf topic.
theorem long_event_received : ∃ mqtt checks t sentTo payload,
    encodeAndSendData linkedGateway (gatewayCall linkedGateway 0) 1 (ascii "event") longJson 1 (eventSystem [] []) =
      some (awaitVerdict linkedGateway (gatewayCall linkedGateway 0) longJson 0
        (publishSent (gatewayCall linkedGateway 0) 1 checks (sendPacket 0 mqtt t))) ∧
    DecodesTo mqtt 0 1 sentTo payload (ownId (eventSystem [] [])) ∧
    received linkedGateway sentTo payload =
      some (signedWith linkedGateway longJson (printDigest (Hmac.hmac Fips180.sha256 64 linkedGateway.secretKey longJson))) := by
  obtain ⟨size, plain⟩ := long_json_plain
  have nulFree := signed_nul_free linkedGateway (fun _ => freshScratch) longJson gateway_linked plain (by decide)
  have access : linkedGateway.accessKey.length = 6 := by decide
  have length : (signedJson linkedGateway longJson).length = 1334 := by
    rw [linked_length linkedGateway (fun _ => freshScratch) longJson gateway_linked, size, access]
  have packed := frames_of_length (lzfCompressCall freshScratch) lzfDecompress (lzf_call_contract freshScratch)
    ⟨signedJson linkedGateway longJson, nulFree⟩
  have strlen : (⟨signedJson linkedGateway longJson, nulFree⟩ : CString).strlen = 1334 := length
  rw [strlen] at packed
  have fits : Fitting linkedGateway freshScratch 1 (ascii "event") ⟨signedJson linkedGateway longJson, nulFree⟩ 1 := by
    have topic : (ascii "Altizon/Datonis/lzf/" ++ linkedGateway.clientId ++ ascii "/event").length = 27 := by decide
    have flagged : (1 : Int) = 1 ∧ (signedJson linkedGateway longJson).length > 1024 := ⟨rfl, by rw [length]; decide⟩
    have due : (1 : Int) = 1 ∧ (⟨signedJson linkedGateway longJson, nulFree⟩ : CString).strlen > 1024 := flagged
    rw [Fitting, sentTopic, duePayload, if_pos flagged, if_pos due, topic, framed]
    generalize (lzfFormat.encodeAll (framesOf (lzfCompressCall freshScratch)
      ⟨signedJson linkedGateway longJson, nulFree⟩)).length = n at packed
    simp only [mqttPacketLen, CLIENT_WRITEBUF]
    split_ifs <;> omega
  exact event_received linkedGateway (fun _ => freshScratch) longJson gateway_linked (gatewayCall linkedGateway 0) 1
    (ascii "event") 1 (eventSystem [] []) ⟨signedJson linkedGateway longJson, nulFree⟩ rfl (by decide) rfl rfl fits
    (fun stuck => absurd (strlen.symm.trans stuck.2) (by decide)) (by decide) (by decide)

end Aliot
