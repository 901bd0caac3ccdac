import Aliot.ReadBounds

set_option autoImplicit false

namespace Aliot

-- A packet of the broker: header byte, minimal remaining length of at most four bytes, body.
structure Packet (readbufSize : Nat) where
  header : UInt8
  body : Bytes
  short : body.length < 128 ^ 4
  fits : 1 + (VarInt.encode body.length).length + body.length ≤ readbufSize

def Packet.wire {readbufSize : Nat} (packet : Packet readbufSize) : Bytes :=
  packet.header :: (VarInt.encode packet.body.length ++ packet.body)

def wires {readbufSize : Nat} (packets : List (Packet readbufSize)) : Bytes := packets.flatMap Packet.wire

def readPackets : Nat → (Nat → UInt8) → Net → List PacketRead
  | 0, _, _ => []
  | calls + 1, readbuf, net =>
      let read := readPacket readbuf net
      read :: readPackets calls read.readbuf read.net

def Shows {readbufSize : Nat} (read : PacketRead) (packet : Packet readbufSize) : Prop :=
  read.rc = headerType packet.header ∧ Memory.load read.readbuf 0 packet.wire.length = packet.wire

def succeeded (reads : List PacketRead) : List PacketRead := reads.filter (fun read => decide (read.rc ≠ FAILURE))

def FramingKept {readbufSize : Nat} (packets : List (Packet readbufSize)) (reads : List PacketRead) : Prop :=
  ∃ kept, List.Sublist kept packets ∧ List.Forall₂ Shows (succeeded reads) kept

-- No timeout inside a packet: nothing is read, or the length field ends and all of the body arrives.
def Uncut (net : Net) : Prop :=
  (mqttread net 1).bytes = [] ∨ (VarInt.Ended (fieldOf net).1 ∧ (bodyOf net).bytes.length = lengthOf net)

def UncutRun : Nat → (Nat → UInt8) → Net → Prop
  | 0, _, _ => True
  | calls + 1, readbuf, net =>
      Uncut net ∧ UncutRun calls (readPacket readbuf net).readbuf (readPacket readbuf net).net

theorem length_field_splits (left : Nat) (net : Net) :
    net.stream = (lengthField left net).1 ++ (lengthField left net).2.stream := by
  induction left generalizing net with
  | zero => rfl
  | succ left ih =>
      have split := read_splits net 1
      have bound := read_bytes_le net 1
      cases arrived : (mqttread net 1).bytes with
      | nil => simpa only [lengthField, arrived] using split
      | cons byte rest =>
          rw [arrived] at split bound
          have one : rest = [] := List.length_eq_zero_iff.mp (by simpa using bound)
          subst one
          by_cases more : VarInt.continues byte = true
          · simp only [lengthField, arrived, if_pos more, List.cons_append, ← ih]
            exact split
          · simp only [lengthField, arrived, if_neg more]
            exact split

theorem silent_keeps_stream (net : Net) (silent : (mqttread net 1).bytes = []) :
    (mqttread net 1).net.stream = net.stream := by
  have split := read_splits net 1
  rw [silent, List.nil_append] at split
  exact split.symm

theorem header_type_ne_failure (byte : UInt8) : (headerType byte : Int) ≠ FAILURE := by
  unfold FAILURE
  omega

-- An uncut call that gets a header byte takes exactly the first packet.
theorem uncut_fields {readbufSize : Nat} (packet : Packet readbufSize) (rest : Bytes) (net : Net)
    (stream : net.stream = packet.wire ++ rest) (byte : UInt8) (started : (mqttread net 1).bytes = [byte])
    (ended : VarInt.Ended (fieldOf net).1) (complete : (bodyOf net).bytes.length = lengthOf net) :
    byte = packet.header ∧ lengthOf net = packet.body.length ∧ (bodyOf net).bytes = packet.body ∧
      (bodyOf net).net.stream = rest ∧ (packet.body = [] → (fieldOf net).2.stream = rest) := by
  have header := read_splits net 1
  rw [started, stream, Packet.wire, List.cons_append, List.singleton_append, List.cons.injEq] at header
  obtain ⟨same, behind⟩ := header
  have field := length_field_splits MAX_NO_OF_REMAINING_LENGTH_BYTES (mqttread net 1).net
  rw [← behind, List.append_assoc] at field
  obtain ⟨digits, bodyBehind⟩ := VarInt.ended_unique _ _ _ _ (VarInt.encode_ended packet.body.length) ended field
  have length : lengthOf net = packet.body.length := by
    rw [lengthOf, ← digits, VarInt.value_encode]
  have body := read_splits (fieldOf net).2 (lengthOf net)
  change _ = (bodyOf net).bytes ++ (bodyOf net).net.stream at body
  rw [show (fieldOf net).2.stream = packet.body ++ rest from bodyBehind.symm] at body
  obtain ⟨bytes, tail⟩ := List.append_inj body (by rw [complete, length])
  refine ⟨same.symm, length, bytes.symm, tail.symm, ?_⟩
  intro empty
  rw [show (fieldOf net).2.stream = packet.body ++ rest from bodyBehind.symm, empty, List.nil_append]

theorem load_stores (readbuf : Nat → UInt8) (byte : UInt8) (encoded body : Bytes) :
    Memory.load (applyStores readbuf [(0, [byte]), (1, encoded), (1 + encoded.length, body)]) 0
      (byte :: (encoded ++ body)).length = byte :: (encoded ++ body) := by
  have one : applyStores readbuf [(0, [byte]), (1, encoded), (1 + encoded.length, body)] =
      Memory.store readbuf 0 (byte :: (encoded ++ body)) := by
    simp only [applyStores, List.foldl_cons, List.foldl_nil, Memory.store, Memory.store_append, Nat.zero_add]
  rw [one, Memory.load_store]

-- However the length came in, readbuf holds its minimal encoding.
theorem read_packet_stored {readbufSize : Nat} (packet : Packet readbufSize) (rest : Bytes) (readbuf : Nat → UInt8) (net : Net)
    (started : (mqttread net 1).bytes = [packet.header]) (length : lengthOf net = packet.body.length)
    (bytes : (bodyOf net).bytes = packet.body) (tail : (bodyOf net).net.stream = rest)
    (bodyless : packet.body = [] → (fieldOf net).2.stream = rest) :
    Shows (readPacket readbuf net) packet ∧ (readPacket readbuf net).net.stream = rest := by
  have complete : (bodyOf net).bytes.length = lengthOf net := by rw [bytes, length]
  have shown := load_stores readbuf packet.header (VarInt.encode packet.body.length) packet.body
  by_cases more : 0 < lengthOf net
  · rw [read_packet_with_body readbuf net packet.header started more, if_pos complete]
    refine ⟨⟨rfl, ?_⟩, tail⟩
    simpa only [allStores, frontStores, frontLength, length, bytes, Packet.wire, List.cons_append, List.nil_append] using shown
  · have empty : lengthOf net = 0 := by omega
    have none : packet.body = [] := List.length_eq_zero_iff.mp (by omega)
    rw [read_packet_empty_body readbuf net packet.header started empty]
    refine ⟨⟨rfl, ?_⟩, bodyless none⟩
    simpa only [frontStores, length, none, Packet.wire, applyStores, List.foldl_cons, List.foldl_nil, Memory.store,
      List.append_nil] using shown

theorem read_packet_whole {readbufSize : Nat} (packet : Packet readbufSize) (rest : Bytes) (readbuf : Nat → UInt8)
    (net : Net) (stream : net.stream = packet.wire ++ rest) (byte : UInt8) (started : (mqttread net 1).bytes = [byte])
    (ended : VarInt.Ended (fieldOf net).1) (complete : (bodyOf net).bytes.length = lengthOf net) :
    Shows (readPacket readbuf net) packet ∧ (readPacket readbuf net).net.stream = rest := by
  obtain ⟨rfl, length, bytes, tail, bodyless⟩ := uncut_fields packet rest net stream byte started ended complete
  exact read_packet_stored packet rest readbuf net started length bytes tail bodyless

theorem read_packet_failed_kept (readbuf : Nat → UInt8) (net : Net) (silent : (mqttread net 1).bytes = []) :
    (readPacket readbuf net).rc = FAILURE ∧ (readPacket readbuf net).net.stream = net.stream := by
  rw [read_packet_silent readbuf net silent]
  exact ⟨rfl, silent_keeps_stream net silent⟩

theorem uncut_run_prefix {readbufSize : Nat} (calls : Nat) (packets : List (Packet readbufSize)) (readbuf : Nat → UInt8)
    (net : Net) (stream : net.stream = wires packets) (uncut : UncutRun calls readbuf net) :
    ∃ kept, kept <+: packets ∧ List.Forall₂ Shows (succeeded (readPackets calls readbuf net)) kept := by
  induction calls generalizing packets readbuf net with
  | zero => exact ⟨[], List.nil_prefix, List.Forall₂.nil⟩
  | succ calls ih =>
      obtain ⟨here, later⟩ := uncut
      rcases header_cases net with silent | ⟨byte, started⟩
      · obtain ⟨failed, kept⟩ := read_packet_failed_kept readbuf net silent
        have skip : succeeded (readPackets (calls + 1) readbuf net) =
            succeeded (readPackets calls (readPacket readbuf net).readbuf (readPacket readbuf net).net) := by
          simp only [readPackets, succeeded, List.filter_cons, failed, ne_eq, not_true, decide_false, Bool.false_eq_true,
            if_false]
        rw [skip]
        exact ih packets _ _ (kept.trans stream) later
      · rcases here with silent | ⟨ended, complete⟩
        · rw [started] at silent
          cases silent
        · cases packets with
          | nil =>
              have split := read_splits net 1
              rw [stream, started] at split
              simp [wires] at split
          | cons packet packets =>
              have whole : net.stream = packet.wire ++ wires packets := by
                simpa only [wires, List.flatMap_cons] using stream
              obtain ⟨shows, tail⟩ := read_packet_whole packet (wires packets) readbuf net whole byte started ended complete
              obtain ⟨kept, pfx, matched⟩ := ih packets _ _ tail later
              have keep : succeeded (readPackets (calls + 1) readbuf net) = readPacket readbuf net ::
                  succeeded (readPackets calls (readPacket readbuf net).readbuf (readPacket readbuf net).net) := by
                have rc : (readPacket readbuf net).rc ≠ FAILURE := shows.1 ▸ header_type_ne_failure packet.header
                simp only [readPackets, succeeded, List.filter_cons, rc, ne_eq, not_false_eq_true, decide_true, if_true]
              rw [keep]
              exact ⟨packet :: kept, (List.prefix_cons_inj packet).mpr pfx, List.Forall₂.cons shows matched⟩

-- Timeouts between packets are harmless: the packets come out one by one.
theorem read_packets_keep_framing {readbufSize : Nat} (packets : List (Packet readbufSize)) (timings : List Timing)
    (calls : Nat) (readbuf : Nat → UInt8) (uncut : UncutRun calls readbuf ⟨wires packets, timings⟩) :
    FramingKept packets (readPackets calls readbuf ⟨wires packets, timings⟩) := by
  obtain ⟨kept, pfx, matched⟩ := uncut_run_prefix calls packets readbuf ⟨wires packets, timings⟩ rfl uncut
  exact ⟨kept, pfx.sublist, matched⟩

def publishA : Packet 4096 where
  header := 0x30
  body := [0, 1, 97, 98]
  short := by decide
  fits := by decide

theorem two_packets_framed :
    FramingKept [publishA, publishA] (readPackets 3 (fun _ => 0) ⟨wires [publishA, publishA], [.cut 0 false]⟩) := by
  refine read_packets_keep_framing [publishA, publishA] [.cut 0 false] 3 (fun _ => 0) ⟨?_, ?_, ?_, trivial⟩
  · exact Or.inl rfl
  · exact Or.inr ⟨rfl, rfl⟩
  · exact Or.inr ⟨rfl, rfl⟩

-- A timeout behind the header byte: the call returns PUBLISH with no body at all.
theorem read_packets_lose_framing : ¬ ∀ (readbufSize : Nat) (packets : List (Packet readbufSize))
    (timings : List Timing) (calls : Nat) (readbuf : Nat → UInt8),
    FramingKept packets (readPackets calls readbuf ⟨wires packets, timings⟩) := by
  intro always
  obtain ⟨kept, sub, matched⟩ := always 4096 [publishA] [.full, .cut 0 false] 1 (fun _ => 0)
  have one : succeeded (readPackets 1 (fun _ => 0) ⟨wires [publishA], [.full, .cut 0 false]⟩) =
      [readPacket (fun _ => 0) ⟨wires [publishA], [.full, .cut 0 false]⟩] := rfl
  rw [one] at matched
  cases matched with
  | cons shows none =>
      cases none
      have same := List.mem_singleton.mp (sub.subset (List.mem_singleton.mpr rfl))
      subst same
      exact absurd shows.2 (by decide)

end Aliot
