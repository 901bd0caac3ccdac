import Aliot.MqttCommands

set_option autoImplicit false

namespace Aliot

-- The bytes from curdata up to enddata are these.
structure Remaining (buf : Nat → UInt8) (enddata curdata : Nat) (bytes : Bytes) : Prop where
  loaded : Memory.load buf curdata bytes.length = bytes
  ends : curdata + bytes.length = enddata

def contents (buf : Nat → UInt8) (mqttstring : MQTTLenString) : Bytes := Memory.load buf mqttstring.data mqttstring.len

-- A topic filter, which a subscription follows with the QoS it asks for.
abbrev FilterRequest := Bytes × Option Int

def writeRequest (request : FilterRequest) : Bytes :=
  writeMQTTString request.1 ++ (request.2.map (fun requestedQoS => [UInt8.ofInt requestedQoS])).getD []

def requestLength (request : FilterRequest) : Nat := 2 + request.1.length + request.2.isSome.toNat

-- MQTTSerialize_subscribe and MQTTSerialize_unsubscribe with any number of topic filters.
def serializeFilters (buflen packettype dup : Nat) (packetid : UInt16) (requests : List FilterRequest) : Int × Bytes :=
  let rem_len := requests.foldl (fun len request => len + requestLength request) 2
  if mqttPacketLen rem_len > buflen then (MQTTPACKET_BUFFER_TOO_SHORT, [])
  else
    let bytes := headerByte packettype dup 1 0 :: (mqttPacketEncode rem_len ++ (writeInt packetid.toNat ++
      requests.flatMap writeRequest))
    (bytes.length, bytes)

def mqttSerializeSubscribeFilters (buflen dup : Nat) (packetid : UInt16) (requests : List (Bytes × Int)) : Int × Bytes :=
  serializeFilters buflen SUBSCRIBE dup packetid (requests.map (fun request => (request.1, some request.2)))

def mqttSerializeUnsubscribeFilters (buflen dup : Nat) (packetid : UInt16) (topicFilters : List Bytes) : Int × Bytes :=
  serializeFilters buflen UNSUBSCRIBE dup packetid (topicFilters.map (fun topicFilter => (topicFilter, none)))

-- The loop of MQTTDeserialize_subscribe and MQTTDeserialize_unsubscribe, which never looks at maxcount: the first *count
-- entries of the caller's arrays.
def filterLoop (buf : Nat → UInt8) (asks : Bool) (enddata : Nat) :
    Nat → Nat → List (MQTTLenString × Option Int) → Bool × List (MQTTLenString × Option Int)
  | 0, _, filters => (true, filters)
  | left + 1, curdata, filters =>
      if curdata < enddata then
        let (read, topicFilter, curdata) := readMQTTLenString buf ⟨0, 0⟩ curdata enddata
        if !read then (false, filters)
        else if asks then
          if curdata ≥ enddata then (false, filters)
          else filterLoop buf asks enddata left (curdata + 1) (filters ++ [(topicFilter, some (readChar (buf curdata)))])
        else filterLoop buf asks enddata left curdata (filters ++ [(topicFilter, none)])
      else (true, filters)

structure FiltersRead where
  rc : Int
  dup : Nat
  packetid : UInt16
  filters : List (MQTTLenString × Option Int)

-- Where a filter is cut short rc is still the number of length bytes.
def deserializeFilters (packettype : Nat) (asks : Bool) (failure : Int) (buf : Nat → UInt8) (caller : FiltersRead) :
    FiltersRead :=
  if headerType (buf 0) ≠ packettype then { caller with rc := failure }
  else
    let (rc, mylen) := mqttPacketDecodeBuf buf 1
    let curdata := 1 + rc
    let enddata := curdata + mylen
    let (complete, filters) := filterLoop buf asks enddata mylen (curdata + 2) []
    ⟨if complete then 1 else rc, headerDup (buf 0), UInt16.ofNat (readInt buf curdata), filters⟩

def mqttDeserializeSubscribe (buf : Nat → UInt8) (caller : FiltersRead) : FiltersRead :=
  deserializeFilters SUBSCRIBE true (-1) buf caller

def mqttDeserializeUnsubscribe (buf : Nat → UInt8) (caller : FiltersRead) : FiltersRead :=
  deserializeFilters UNSUBSCRIBE false 0 buf caller

-- A request that its bytes give back: the length in two bytes, the QoS in a signed char where the packet has one.
structure Requestable (asks : Bool) (request : FilterRequest) : Prop where
  short : request.1.length < 65536
  asked : request.2.isSome = asks
  signed : ∀ requestedQoS ∈ request.2, -128 ≤ requestedQoS ∧ requestedQoS < 128

def requestsRead (buf : Nat → UInt8) (filters : List (MQTTLenString × Option Int)) : List FilterRequest :=
  filters.map (fun filter => (contents buf filter.1, filter.2))

theorem write_string_length (mqttstring : Bytes) : (writeMQTTString mqttstring).length = 2 + mqttstring.length := by
  simp only [writeMQTTString, writeInt, List.length_append, List.length_cons, List.length_nil]

theorem read_char_written (value : Int) (low : -128 ≤ value) (high : value < 128) : readChar (UInt8.ofInt value) = value := by
  have bits : (UInt8.ofInt value).toNat = (value % 256).toNat := by
    rw [UInt8.ofInt, UInt8.toNat_ofNat']
    omega
  simp only [readChar, UInt8.lt_iff_toNat_lt, bits]
  split
  · rename_i small
    change (value % 256).toNat < 128 at small
    omega
  · rename_i large
    change ¬ (value % 256).toNat < 128 at large
    omega

theorem read_char_signed (byte : UInt8) : -128 ≤ readChar byte ∧ readChar byte < 128 := by
  have bound := byte.toNat_lt
  unfold readChar
  split
  · rename_i small
    change byte.toNat < 128 at small
    omega
  · rename_i large
    change ¬ byte.toNat < 128 at large
    omega

theorem written_char_read (byte : UInt8) : UInt8.ofInt (readChar byte) = byte := by
  have bound := byte.toNat_lt
  apply UInt8.toNat_inj.mp
  rw [UInt8.ofInt, UInt8.toNat_ofNat']
  unfold readChar
  split <;> omega

theorem remaining_split (buf : Nat → UInt8) (enddata curdata : Nat) (front back : Bytes)
    (remaining : Remaining buf enddata curdata (front ++ back)) :
    Memory.load buf curdata front.length = front ∧ Remaining buf enddata (curdata + front.length) back := by
  obtain ⟨first, second⟩ := load_split buf curdata front back remaining.loaded
  have ends := remaining.ends
  rw [List.length_append] at ends
  exact ⟨first, second, by omega⟩

-- Reading a string that was written comes to its bytes and to what follows it.
theorem read_written_string (buf : Nat → UInt8) (mqttstring : MQTTLenString) (enddata curdata : Nat) (written rest : Bytes)
    (short : written.length < 65536) (remaining : Remaining buf enddata curdata (writeMQTTString written ++ rest)) :
    readMQTTLenString buf mqttstring curdata enddata =
        (true, ⟨written.length, curdata + 2⟩, curdata + (2 + written.length)) ∧
      contents buf ⟨written.length, curdata + 2⟩ = written ∧
      Remaining buf enddata (curdata + (2 + written.length)) rest := by
  obtain ⟨string, behind⟩ := remaining_split buf enddata curdata _ rest remaining
  obtain ⟨size, bytes⟩ := load_split buf curdata _ _ string
  rw [write_string_length] at behind
  have ends := behind.ends
  rw [read_string_loaded buf mqttstring curdata enddata written.length (read_int_loaded buf curdata _ short size) (by omega),
    Nat.add_assoc]
  exact ⟨rfl, bytes, behind⟩

theorem write_request_length (request : FilterRequest) : (writeRequest request).length = requestLength request := by
  obtain ⟨topicFilter, requestedQoS⟩ := request
  cases requestedQoS <;> simp [writeRequest, writeMQTTString, writeInt, requestLength] <;> omega

theorem filters_length (requests : List FilterRequest) (start : Nat) :
    requests.foldl (fun len request => len + requestLength request) start =
      start + (requests.flatMap writeRequest).length := by
  induction requests generalizing start with
  | nil => rfl
  | cons request requests ih =>
      rw [List.foldl_cons, ih, List.flatMap_cons, List.length_append, write_request_length]
      omega

-- One round of the loop at a request that was written.
theorem filter_round (buf : Nat → UInt8) (asks : Bool) (enddata left curdata : Nat)
    (filters : List (MQTTLenString × Option Int)) (request : FilterRequest) (rest : Bytes)
    (requestable : Requestable asks request) (remaining : Remaining buf enddata curdata (writeRequest request ++ rest)) :
    ∃ filter, filterLoop buf asks enddata (left + 1) curdata filters =
        filterLoop buf asks enddata left (curdata + requestLength request) (filters ++ [filter]) ∧
      (contents buf filter.1, filter.2) = request ∧ Remaining buf enddata (curdata + requestLength request) rest := by
  obtain ⟨topicFilter, requestedQoS⟩ := request
  have ends := remaining.ends
  have length := write_request_length (topicFilter, requestedQoS)
  rw [List.length_append, length] at ends
  have unread : curdata < enddata := by
    simp only [requestLength] at ends
    omega
  have behind := (remaining_split buf enddata curdata _ rest remaining).2
  rw [length] at behind
  rw [writeRequest, List.append_assoc] at remaining
  obtain ⟨read, text, tail⟩ := read_written_string buf ⟨0, 0⟩ enddata curdata topicFilter _ requestable.short remaining
  cases requestedQoS with
  | none =>
      have plain : asks = false := requestable.asked.symm
      subst plain
      refine ⟨(⟨topicFilter.length, curdata + 2⟩, none), ?_, by rw [text], behind⟩
      simp [filterLoop, unread, read, requestLength]
  | some requestedQoS =>
      have asking : asks = true := requestable.asked.symm
      subst asking
      obtain ⟨low, high⟩ := requestable.signed requestedQoS rfl
      have code := (load_cons buf _ _ _ tail.loaded).1
      have room : curdata + (2 + topicFilter.length) < enddata := by
        simp only [requestLength, Option.isSome_some, Bool.toNat_true] at ends
        omega
      refine ⟨(⟨topicFilter.length, curdata + 2⟩, some requestedQoS), ?_, by rw [text], behind⟩
      simp only [filterLoop, if_pos unread, read, Bool.not_true, Bool.false_eq_true, if_false, if_true,
        if_neg (Nat.not_le_of_lt room), code, read_char_written requestedQoS low high]
      rfl

theorem filters_written (buf : Nat → UInt8) (asks : Bool) (enddata left curdata : Nat)
    (filters : List (MQTTLenString × Option Int)) (requests : List FilterRequest)
    (requestable : ∀ request ∈ requests, Requestable asks request)
    (remaining : Remaining buf enddata curdata (requests.flatMap writeRequest))
    (fuel : (requests.flatMap writeRequest).length ≤ left) :
    ∃ read, filterLoop buf asks enddata left curdata filters = (true, filters ++ read) ∧ requestsRead buf read = requests := by
  induction requests generalizing left curdata filters with
  | nil =>
      have ended : ¬ curdata < enddata := by
        have ends := remaining.ends
        simp only [List.flatMap_nil, List.length_nil] at ends
        omega
      refine ⟨[], ?_, rfl⟩
      cases left <;> simp [filterLoop, ended]
  | cons request requests ih =>
      rw [List.flatMap_cons] at remaining fuel
      rw [List.length_append, write_request_length] at fuel
      obtain ⟨left, rfl⟩ := Nat.exists_eq_succ_of_ne_zero (n := left) (by simp only [requestLength] at fuel; omega)
      obtain ⟨filter, round, same, behind⟩ := filter_round buf asks enddata left curdata filters request _
        (requestable request List.mem_cons_self) remaining
      obtain ⟨read, others, sames⟩ := ih left (curdata + requestLength request) (filters ++ [filter])
        (fun other member => requestable other (List.mem_cons_of_mem _ member)) behind
        (by simp only [requestLength] at fuel; omega)
      refine ⟨filter :: read, by rw [round, others, List.append_assoc]; rfl, ?_⟩
      rw [requestsRead, List.map_cons, same]
      exact congrArg (request :: ·) sames

theorem written_int_read (buf : Nat → UInt8) (ptr : Nat) : Memory.load buf ptr 2 = writeInt (readInt buf ptr) := by
  have high := (buf ptr).toNat_lt
  have low := (buf (ptr + 1)).toNat_lt
  simp only [Memory.load, writeInt, readInt, List.cons.injEq, and_true, ← UInt8.toNat_inj, UInt8.toNat_ofNat']
  omega

-- A string that is read was written there.
theorem read_string_written (buf : Nat → UInt8) (mqttstring topicFilter : MQTTLenString) (enddata curdata next : Nat)
    (read : readMQTTLenString buf mqttstring curdata enddata = (true, topicFilter, next)) :
    (contents buf topicFilter).length < 65536 ∧ next = curdata + (2 + (contents buf topicFilter).length) ∧ next ≤ enddata ∧
      Memory.load buf curdata (2 + (contents buf topicFilter).length) = writeMQTTString (contents buf topicFilter) := by
  simp only [readMQTTLenString] at read
  split at read
  · split at read
    · rename_i fits
      simp only [Prod.mk.injEq, true_and] at read
      obtain ⟨rfl, rfl⟩ := read
      have high := (buf curdata).toNat_lt
      have low := (buf (curdata + 1)).toNat_lt
      have size : (contents buf ⟨readInt buf curdata, curdata + 2⟩).length = readInt buf curdata := Memory.load_length _ _ _
      rw [size]
      refine ⟨by simp only [readInt]; omega, by omega, fits, ?_⟩
      rw [Memory.load_append, written_int_read, writeMQTTString, size]
      rfl
    · simp at read
  · simp at read

theorem remaining_joined (buf : Nat → UInt8) (enddata curdata : Nat) (front back : Bytes)
    (loaded : Memory.load buf curdata front.length = front)
    (behind : Remaining buf enddata (curdata + front.length) back) : Remaining buf enddata curdata (front ++ back) := by
  have ends := behind.ends
  refine ⟨?_, by rw [List.length_append]; omega⟩
  rw [List.length_append, Memory.load_append, loaded, behind.loaded]

theorem no_requests (buf : Nat → UInt8) (asks : Bool) (enddata : Nat) : ∃ requests : List FilterRequest,
    (∀ request ∈ requests, Requestable asks request) ∧ Remaining buf enddata enddata (requests.flatMap writeRequest) :=
  ⟨[], fun _ member => absurd member List.not_mem_nil, rfl, rfl⟩

theorem filters_complete (buf : Nat → UInt8) (asks : Bool) (enddata left curdata : Nat)
    (filters : List (MQTTLenString × Option Int)) (within : curdata ≤ enddata) (fuel : enddata - curdata ≤ left)
    (complete : (filterLoop buf asks enddata left curdata filters).1 = true) :
    ∃ requests : List FilterRequest, (∀ request ∈ requests, Requestable asks request) ∧
      Remaining buf enddata curdata (requests.flatMap writeRequest) := by
  induction left generalizing curdata filters with
  | zero =>
      obtain rfl : curdata = enddata := by omega
      exact no_requests buf asks curdata
  | succ left ih =>
      by_cases unread : curdata < enddata
      swap
      · obtain rfl : curdata = enddata := by omega
        exact no_requests buf asks curdata
      rw [filterLoop, if_pos unread] at complete
      rcases result : readMQTTLenString buf ⟨0, 0⟩ curdata enddata with ⟨read, topicFilter, next⟩
      simp only [result] at complete
      cases read with
      | false => simp at complete
      | true =>
          obtain ⟨short, moved, inside, text⟩ := read_string_written buf _ topicFilter enddata curdata next result
          cases asks with
          | false =>
              obtain ⟨requests, requestable, behind⟩ := ih next _ inside (by omega) (by simpa using complete)
              have length := write_request_length (contents buf topicFilter, none)
              have bytes : writeRequest (contents buf topicFilter, none) = writeMQTTString (contents buf topicFilter) := by
                simp [writeRequest]
              refine ⟨(contents buf topicFilter, none) :: requests, ?_, ?_⟩
              · rw [List.forall_mem_cons]
                exact ⟨⟨short, rfl, fun _ code => by cases code⟩, requestable⟩
              · rw [List.flatMap_cons]
                refine remaining_joined buf enddata curdata _ _ ?_ ?_
                · rw [length, bytes]
                  exact text
                · rw [length, requestLength, Option.isSome_none, Bool.toNat_false, Nat.add_zero, ← moved]
                  exact behind
          | true =>
              simp only [Bool.not_true, Bool.false_eq_true, if_false, if_true] at complete
              split at complete
              · simp at complete
              rename_i room
              obtain ⟨requests, requestable, behind⟩ := ih (next + 1) _ (by omega) (by omega) complete
              have length := write_request_length (contents buf topicFilter, some (readChar (buf next)))
              have bytes : writeRequest (contents buf topicFilter, some (readChar (buf next))) =
                  writeMQTTString (contents buf topicFilter) ++ [buf next] := by
                simp [writeRequest, written_char_read]
              refine ⟨(contents buf topicFilter, some (readChar (buf next))) :: requests, ?_, ?_⟩
              · rw [List.forall_mem_cons]
                refine ⟨⟨short, rfl, fun code same => ?_⟩, requestable⟩
                obtain rfl := Option.some.inj same
                exact read_char_signed (buf next)
              · rw [List.flatMap_cons]
                refine remaining_joined buf enddata curdata _ _ ?_ ?_
                · rw [length, bytes, requestLength, Option.isSome_some, Bool.toNat_true, Memory.load_append, text, ← moved]
                  rfl
                · rw [length, requestLength, Option.isSome_some, Bool.toNat_true, ← Nat.add_assoc, ← moved]
                  exact behind

-- The length of the packet takes one byte, or the packet ends with its id or before, or whole filters fill it up.
def FiltersTaken (asks : Bool) (buf : Nat → UInt8) : Prop :=
  (mqttPacketDecodeBuf buf 1).1 = 1 ∨ (mqttPacketDecodeBuf buf 1).2 < 2 ∨
    ∃ requests : List FilterRequest, (∀ request ∈ requests, Requestable asks request) ∧
      Remaining buf (1 + (mqttPacketDecodeBuf buf 1).1 + (mqttPacketDecodeBuf buf 1).2)
        (1 + (mqttPacketDecodeBuf buf 1).1 + 2) (requests.flatMap writeRequest)

theorem deserialize_filters_iff (packettype : Nat) (asks : Bool) (failure : Int) (buf : Nat → UInt8) (caller : FiltersRead)
    (failed : failure ≠ 1) : (deserializeFilters packettype asks failure buf caller).rc = 1 ↔
      headerType (buf 0) = packettype ∧ FiltersTaken asks buf := by
  unfold deserializeFilters FiltersTaken
  by_cases type : headerType (buf 0) = packettype
  swap
  · rw [if_pos type]
    exact ⟨fun accepted => absurd accepted failed, fun accepted => absurd accepted.1 type⟩
  rw [if_neg (not_not.mpr type)]
  rcases mqttPacketDecodeBuf buf 1 with ⟨rc, mylen⟩
  simp only [type, true_and]
  constructor
  · intro accepted
    split at accepted
    · rename_i complete
      by_cases short : mylen < 2
      · exact .inr (.inl short)
      · exact .inr (.inr (filters_complete buf asks _ mylen _ [] (by omega) (by omega) complete))
    · exact .inl (Int.ofNat_inj.mp accepted)
  · rintro (one | short | ⟨requests, requestable, remaining⟩)
    · split
      · rfl
      · exact congrArg Int.ofNat one
    · have ended : ¬ 1 + rc + 2 < 1 + rc + mylen := by omega
      rw [if_pos]
      cases mylen <;> simp [filterLoop, ended]
    · obtain ⟨read, loop, _⟩ := filters_written buf asks _ mylen _ [] requests requestable remaining
        (by have ends := remaining.ends; omega)
      rw [loop]
      rfl

-- A packet whose filters do not fit in it is a success too as long as its length takes one byte.
theorem filters_accepted_iff (buf : Nat → UInt8) (caller : FiltersRead) :
    ((mqttDeserializeSubscribe buf caller).rc = 1 ↔ headerType (buf 0) = SUBSCRIBE ∧ FiltersTaken true buf) ∧
      ((mqttDeserializeUnsubscribe buf caller).rc = 1 ↔ headerType (buf 0) = UNSUBSCRIBE ∧ FiltersTaken false buf) :=
  ⟨deserialize_filters_iff SUBSCRIBE true (-1) buf caller (by decide),
    deserialize_filters_iff UNSUBSCRIBE false 0 buf caller (by decide)⟩

-- What the client writes of its filters and QoS the server reads, any number of them.
theorem filters_round_trip (packettype buflen dup : Nat) (asks : Bool) (failure : Int) (packetid : UInt16)
    (requests : List FilterRequest) (buf : Nat → UInt8) (caller : FiltersRead) (nibble : packettype < 16) (bit : dup < 2)
    (requestable : ∀ request ∈ requests, Requestable asks request)
    (small : 2 + (requests.flatMap writeRequest).length < 128 ^ 4)
    (made : 0 < (serializeFilters buflen packettype dup packetid requests).1)
    (loaded : Memory.load buf 0 (serializeFilters buflen packettype dup packetid requests).2.length =
      (serializeFilters buflen packettype dup packetid requests).2) :
    (deserializeFilters packettype asks failure buf caller).rc = 1 ∧
      (deserializeFilters packettype asks failure buf caller).dup = dup ∧
      (deserializeFilters packettype asks failure buf caller).packetid = packetid ∧
      requestsRead buf (deserializeFilters packettype asks failure buf caller).filters = requests := by
  have total := filters_length requests 2
  simp only [serializeFilters, total] at made loaded
  generalize rem_len : 2 + (requests.flatMap writeRequest).length = n at made loaded small
  by_cases room : mqttPacketLen n > buflen
  · simp [if_pos room, MQTTPACKET_BUFFER_TOO_SHORT] at made
  simp only [if_neg room, mqtt_packet_encode_refines] at loaded
  obtain ⟨first, rest⟩ := load_cons buf 0 _ _ loaded
  obtain ⟨length, body⟩ := load_split buf (0 + 1) _ _ rest
  obtain ⟨id, filters⟩ := load_split buf _ _ _ body
  obtain ⟨type, dupEq, _, _⟩ := header_byte_fields packettype dup 1 0 nibble bit (by decide) (by decide)
  have decoded : mqttPacketDecodeBuf buf 1 = ((VarInt.encode n).length, n) := decode_buf_encoded buf 1 n small length
  have idRead : readInt buf (1 + (VarInt.encode n).length) = packetid.toNat := read_int_loaded buf _ _ packetid.toNat_lt id
  have remaining : Remaining buf (1 + (VarInt.encode n).length + n) (1 + (VarInt.encode n).length + 2)
      (requests.flatMap writeRequest) := ⟨filters, by omega⟩
  obtain ⟨read, loop, same⟩ := filters_written buf asks _ n _ [] requests requestable remaining (by omega)
  simp only [deserializeFilters, first, type, dupEq, decoded, loop, idRead, ne_eq, not_true, if_false, if_true,
    List.nil_append, UInt16.ofNat_toNat]
  exact ⟨trivial, trivial, trivial, same⟩

def twoFilters : List FilterRequest := [([0x61, 0x2f, 0x23], some 1), ([], some 2)]

def twoFiltersPacket : Nat → UInt8 := fun i => (serializeFilters 100 SUBSCRIBE 0 7 twoFilters).2.getD i 0

theorem two_filters_requestable : ∀ request ∈ twoFilters, Requestable true request := by
  intro request member
  simp only [twoFilters, List.mem_cons, List.not_mem_nil, or_false] at member
  rcases member with rfl | rfl <;> exact ⟨by decide, rfl, by simp⟩

theorem two_filters_read :
    (mqttDeserializeSubscribe twoFiltersPacket ⟨0, 0, 0, []⟩).rc = 1 ∧
      (mqttDeserializeSubscribe twoFiltersPacket ⟨0, 0, 0, []⟩).dup = 0 ∧
      (mqttDeserializeSubscribe twoFiltersPacket ⟨0, 0, 0, []⟩).packetid = 7 ∧
      requestsRead twoFiltersPacket (mqttDeserializeSubscribe twoFiltersPacket ⟨0, 0, 0, []⟩).filters = twoFilters :=
  filters_round_trip SUBSCRIBE 100 0 true (-1) 7 twoFilters twoFiltersPacket ⟨0, 0, 0, []⟩ (by decide) (by decide)
    two_filters_requestable (by decide) (by decide) (by decide)

theorem subscribe_alone (buflen : Nat) (packetid : UInt16) (topicFilter : Bytes) (requestedQoS : Nat) :
    mqttSerializeSubscribe buflen packetid topicFilter requestedQoS =
      mqttSerializeSubscribeFilters buflen 0 packetid [(topicFilter, (requestedQoS : Int))] := by
  have code : UInt8.ofInt (requestedQoS : Int) = UInt8.ofNat requestedQoS := by
    apply UInt8.toNat_inj.mp
    rw [UInt8.ofInt, UInt8.toNat_ofNat', UInt8.toNat_ofNat']
    omega
  simp [mqttSerializeSubscribe, serializeFilter, mqttSerializeSubscribeFilters, serializeFilters, requestLength,
    writeRequest, code, List.append_assoc]

theorem unsubscribe_alone (buflen : Nat) (packetid : UInt16) (topicFilter : Bytes) :
    mqttSerializeUnsubscribe buflen packetid topicFilter =
      mqttSerializeUnsubscribeFilters buflen 0 packetid [topicFilter] := by
  simp [mqttSerializeUnsubscribe, serializeFilter, mqttSerializeUnsubscribeFilters, serializeFilters, requestLength,
    writeRequest, List.append_assoc]

-- The room asked for leaves out the header and the length.
def mqttSerializeSuback (buflen : Nat) (packetid : UInt16) (grantedQoSs : List Int) : Int × Bytes :=
  if buflen < 2 + grantedQoSs.length then (MQTTPACKET_BUFFER_TOO_SHORT, [])
  else
    let bytes := headerByte SUBACK 0 0 0 :: (mqttPacketEncode (2 + grantedQoSs.length) ++ (writeInt packetid.toNat ++
      grantedQoSs.map UInt8.ofInt))
    (bytes.length, bytes)

-- The first *count entries of the caller's array come with the result.
def grantedLoop (buf : Nat → UInt8) (maxcount : Nat) : Nat → Nat → List Int → Int × List Int
  | 0, _, grantedQoSs => (1, grantedQoSs)
  | left + 1, curdata, grantedQoSs =>
      if grantedQoSs.length > maxcount then (-1, grantedQoSs)
      else grantedLoop buf maxcount left (curdata + 1) (grantedQoSs ++ [readChar (buf curdata)])

structure SubackCodes where
  rc : Int
  packetid : UInt16
  grantedQoSs : List Int

-- MQTTDeserialize_suback with any maxcount.
def mqttDeserializeSubackCodes (maxcount : Nat) (buf : Nat → UInt8) (caller : SubackCodes) : SubackCodes :=
  if headerType (buf 0) ≠ SUBACK then { caller with rc := 0 }
  else
    let (rc, mylen) := mqttPacketDecodeBuf buf 1
    if mylen < 2 then { caller with rc := rc }
    else
      let (rc, grantedQoSs) := grantedLoop buf maxcount (mylen - 2) (1 + rc + 2) []
      ⟨rc, UInt16.ofNat (readInt buf (1 + (mqttPacketDecodeBuf buf 1).1)), grantedQoSs⟩

theorem suback_alone (buf : Nat → UInt8) (packetid : UInt16) (grantedQoS : Int) :
    mqttDeserializeSuback buf packetid grantedQoS =
      ⟨(mqttDeserializeSubackCodes 1 buf ⟨0, packetid, []⟩).rc, (mqttDeserializeSubackCodes 1 buf ⟨0, packetid, []⟩).packetid,
        (mqttDeserializeSubackCodes 1 buf ⟨0, packetid, []⟩).grantedQoSs.headD grantedQoS⟩ := by
  unfold mqttDeserializeSuback mqttDeserializeSubackCodes
  by_cases type : headerType (buf 0) ≠ SUBACK
  · rw [if_pos type, if_pos type]
    rfl
  rw [if_neg type, if_neg type]
  rcases mqttPacketDecodeBuf buf 1 with ⟨rc, mylen⟩
  simp only
  by_cases short : mylen < 2
  · rw [if_pos short, if_pos short]
    rfl
  rw [if_neg short, if_neg short]
  match left : mylen - 2 with
  | 0 => simp [grantedLoop]
  | 1 => simp [grantedLoop]
  | 2 => simp [grantedLoop]
  | more + 3 => simp [grantedLoop]

theorem granted_loop_codes (buf : Nat → UInt8) (maxcount curdata : Nat) (codes : List UInt8) (grantedQoSs : List Int)
    (loaded : Memory.load buf curdata codes.length = codes) (within : grantedQoSs.length ≤ maxcount + 1) :
    grantedLoop buf maxcount codes.length curdata grantedQoSs =
      (if grantedQoSs.length + codes.length ≤ maxcount + 1 then 1 else -1,
        grantedQoSs ++ (codes.take (maxcount + 1 - grantedQoSs.length)).map readChar) := by
  induction codes generalizing curdata grantedQoSs with
  | nil => simp [grantedLoop, within]
  | cons code codes ih =>
      obtain ⟨first, rest⟩ := load_cons buf curdata code codes loaded
      rw [List.length_cons, grantedLoop]
      by_cases full : grantedQoSs.length > maxcount
      · have none : maxcount + 1 - grantedQoSs.length = 0 := by omega
        rw [if_pos full, if_neg (by omega), none]
        simp
      · have some : maxcount + 1 - grantedQoSs.length = maxcount + 1 - (grantedQoSs.length + 1) + 1 := by omega
        rw [if_neg full, ih (curdata + 1) _ rest (by simp; omega), some, first]
        simp [Nat.add_assoc, Nat.add_comm 1]

theorem codes_read_back (codes : List Int) :
    codes.map (readChar ∘ UInt8.ofInt) = codes ↔ ∀ code ∈ codes, -128 ≤ code ∧ code < 128 := by
  induction codes with
  | nil => simp
  | cons code codes ih =>
      rw [List.map_cons, List.cons.injEq, ih, List.forall_mem_cons, Function.comp_apply]
      refine and_congr_left fun _ => ⟨fun same => ?_, fun range => read_char_written code range.1 range.2⟩
      rw [← same]
      exact read_char_signed (UInt8.ofInt code)

-- One code more than the caller has room for is stored and a success; a code outside the signed char reads differently.
theorem suback_round_trip_iff (buflen maxcount : Nat) (packetid : UInt16) (grantedQoSs : List Int) (buf : Nat → UInt8)
    (caller : SubackCodes) (small : 2 + grantedQoSs.length < 128 ^ 4)
    (made : 0 < (mqttSerializeSuback buflen packetid grantedQoSs).1)
    (loaded : Memory.load buf 0 (mqttSerializeSuback buflen packetid grantedQoSs).2.length =
      (mqttSerializeSuback buflen packetid grantedQoSs).2) :
    (mqttDeserializeSubackCodes maxcount buf caller).packetid = packetid ∧
      (mqttDeserializeSubackCodes maxcount buf caller).grantedQoSs.length = min grantedQoSs.length (maxcount + 1) ∧
      ((mqttDeserializeSubackCodes maxcount buf caller).rc = 1 ∧
          (mqttDeserializeSubackCodes maxcount buf caller).grantedQoSs = grantedQoSs ↔
        grantedQoSs.length ≤ maxcount + 1 ∧ ∀ grantedQoS ∈ grantedQoSs, -128 ≤ grantedQoS ∧ grantedQoS < 128) := by
  by_cases short : buflen < 2 + grantedQoSs.length
  · simp [mqttSerializeSuback, if_pos short, MQTTPACKET_BUFFER_TOO_SHORT] at made
  simp only [mqttSerializeSuback, if_neg short, mqtt_packet_encode_refines] at loaded
  obtain ⟨first, rest⟩ := load_cons buf 0 _ _ loaded
  obtain ⟨length, body⟩ := load_split buf (0 + 1) _ _ rest
  obtain ⟨id, codes⟩ := load_split buf _ _ _ body
  have type := (header_byte_fields SUBACK 0 0 0 (by decide) (by decide) (by decide) (by decide)).1
  have decoded := decode_buf_encoded buf 1 (2 + grantedQoSs.length) small length
  have idRead : readInt buf (1 + (VarInt.encode (2 + grantedQoSs.length)).length) = packetid.toNat :=
    read_int_loaded buf _ _ packetid.toNat_lt id
  have loop : grantedLoop buf maxcount grantedQoSs.length (1 + (VarInt.encode (2 + grantedQoSs.length)).length + 2) [] =
      (if grantedQoSs.length ≤ maxcount + 1 then 1 else -1,
        (grantedQoSs.take (maxcount + 1)).map (readChar ∘ UInt8.ofInt)) := by
    have run := granted_loop_codes buf maxcount _ _ [] codes (Nat.zero_le _)
    simpa [writeInt, ← List.map_take] using run
  have large : ¬ 2 + grantedQoSs.length < 2 := by omega
  simp only [mqttDeserializeSubackCodes, first, type, decoded, idRead, ne_eq, not_true, if_false, if_neg large,
    Nat.add_sub_cancel_left, UInt16.ofNat_toNat, loop, true_and]
  refine ⟨by simp [Nat.min_comm], ?_⟩
  by_cases room : grantedQoSs.length ≤ maxcount + 1
  · rw [if_pos room, List.take_of_length_le room, codes_read_back]
    simp [room]
  · simp [room]

-- The 0x80 of a refused subscription comes back as a negative number.
theorem refused_code_read_back :
    (mqttDeserializeSubackCodes 2 (fun i => (mqttSerializeSuback 9 7 [1, 128]).2.getD i 0) ⟨0, 0, []⟩).packetid = 7 ∧
      (mqttDeserializeSubackCodes 2 (fun i => (mqttSerializeSuback 9 7 [1, 128]).2.getD i 0) ⟨0, 0, []⟩).grantedQoSs.length =
        min [1, 128].length 3 ∧
      ((mqttDeserializeSubackCodes 2 (fun i => (mqttSerializeSuback 9 7 [1, 128]).2.getD i 0) ⟨0, 0, []⟩).rc = 1 ∧
          (mqttDeserializeSubackCodes 2 (fun i => (mqttSerializeSuback 9 7 [1, 128]).2.getD i 0) ⟨0, 0, []⟩).grantedQoSs =
            [1, 128] ↔
        [1, 128].length ≤ 3 ∧ ∀ grantedQoS ∈ [1, 128], -128 ≤ grantedQoS ∧ grantedQoS < 128) :=
  suback_round_trip_iff 9 2 7 [1, 128] (fun i => (mqttSerializeSuback 9 7 [1, 128]).2.getD i 0) ⟨0, 0, []⟩ (by decide)
    (by decide) (by decide)

end Aliot
