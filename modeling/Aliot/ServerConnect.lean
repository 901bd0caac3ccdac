import Aliot.ServerPackets

set_option autoImplicit false

namespace Aliot

-- What a server reads from a CONNECT: the strings are places in its buffer.
structure WillRead where
  topicName : MQTTLenString
  message : MQTTLenString
  retained : Nat
  qos : Nat

structure ConnectRead where
  clientID : MQTTLenString
  keepAliveInterval : UInt16
  cleansession : Nat
  willFlag : Nat
  will : WillRead
  username : MQTTLenString
  password : MQTTLenString

-- memcmp over the shorter of the name and the constant.
def nameMatches (buf : Nat → UInt8) (protocol : MQTTLenString) (name : Bytes) : Bool :=
  Memory.load buf protocol.data (min name.length protocol.len) == name.take (min name.length protocol.len)

def mqttPacketCheckVersion (buf : Nat → UInt8) (protocol : MQTTLenString) (version : Int) : Bool :=
  if version = 3 && nameMatches buf protocol (ascii "MQIsdp") then true
  else version = 4 && nameMatches buf protocol (ascii "MQTT")

-- The bit-fields of MQTTConnectFlags.
def flagCleansession (all : UInt8) : Nat := all.toNat / 2 % 2
def flagWill (all : UInt8) : Nat := all.toNat / 4 % 2
def flagWillQoS (all : UInt8) : Nat := all.toNat / 8 % 4
def flagWillRetain (all : UInt8) : Nat := all.toNat / 32 % 2
def flagPassword (all : UInt8) : Nat := all.toNat / 64 % 2
def flagUsername (all : UInt8) : Nat := all.toNat / 128 % 2

-- The will of MQTTDeserialize_connect, where the packet has one.
def readWill (buf : Nat → UInt8) (flags : UInt8) (enddata : Nat) (data : ConnectRead) (curdata : Nat) :
    Bool × ConnectRead × Nat :=
  let data := { data with willFlag := flagWill flags }
  if flagWill flags ≠ 0 then
    let will := { data.will with qos := flagWillQoS flags, retained := flagWillRetain flags }
    let (read, topicName, curdata) := readMQTTLenString buf will.topicName curdata enddata
    let will := { will with topicName := topicName }
    if !read then (false, { data with will := will }, curdata)
    else
      let (read, message, curdata) := readMQTTLenString buf will.message curdata enddata
      (read, { data with will := { will with message := message } }, curdata)
  else (true, data, curdata)

-- The user name and password, and the result.
def readCredentials (buf : Nat → UInt8) (flags : UInt8) (enddata : Nat) (data : ConnectRead) (curdata : Nat) :
    Int × ConnectRead :=
  if flagUsername flags ≠ 0 then
    if enddata - curdata < 3 then (0, data)
    else
      let (read, username, curdata) := readMQTTLenString buf data.username curdata enddata
      let data := { data with username := username }
      if !read then (0, data)
      else if flagPassword flags ≠ 0 then
        if enddata - curdata < 3 then (0, data)
        else
          let (read, password, _) := readMQTTLenString buf data.password curdata enddata
          let data := { data with password := password }
          if !read then (0, data) else (1, data)
      else (1, data)
  else if flagPassword flags ≠ 0 then (0, data)
  else (1, data)

def mqttDeserializeConnect (data : ConnectRead) (buf : Nat → UInt8) (len : Nat) : Int × ConnectRead :=
  if headerType (buf 0) ≠ CONNECT then (0, data)
  else
    let curdata := 1 + (mqttPacketDecodeBuf buf 1).1
    let (read, protocol, curdata) := readMQTTLenString buf ⟨0, 0⟩ curdata len
    if !read then (0, data)
    else
      let version := readChar (buf curdata)
      let curdata := curdata + 1
      if !mqttPacketCheckVersion buf protocol version then (0, data)
      else
        let flags := buf curdata
        let data := { data with
          cleansession := flagCleansession flags, keepAliveInterval := UInt16.ofNat (readInt buf (curdata + 1)) }
        let (read, clientID, curdata) := readMQTTLenString buf data.clientID (curdata + 3) len
        let data := { data with clientID := clientID }
        if !read then (0, data)
        else
          let (read, data, curdata) := readWill buf flags len data curdata
          if !read then (0, data) else readCredentials buf flags len data curdata

-- The password comes with a user name, and the last credential is not empty.
def Credentialed : Option Bytes → Option Bytes → Prop
  | none, password => password = none
  | some username, none => username ≠ []
  | some _, some password => password ≠ []

structure ShortStrings (options : MQTTPacketConnectData) : Prop where
  clientID : options.clientID.length < 65536
  topicName : options.will.topicName.length < 65536
  message : options.will.message.length < 65536
  username : ∀ username ∈ options.username, username.length < 65536
  password : ∀ password ∈ options.password, password.length < 65536

-- The options as the client gave them, as far as the packet has room for them.
structure Conveyed (buf : Nat → UInt8) (options : MQTTPacketConnectData) (data : ConnectRead) : Prop where
  clientID : contents buf data.clientID = options.clientID
  keepAliveInterval : data.keepAliveInterval = options.keepAliveInterval
  cleansession : data.cleansession = options.cleansession % 2
  willFlag : data.willFlag = if options.willFlag ≠ 0 then 1 else 0
  will : options.willFlag ≠ 0 → contents buf data.will.topicName = options.will.topicName ∧
    contents buf data.will.message = options.will.message ∧ data.will.qos = options.will.qos % 4 ∧
    data.will.retained = options.will.retained % 2
  username : ∀ username ∈ options.username, contents buf data.username = username
  password : ∀ password ∈ options.password, contents buf data.password = password

theorem connect_flags_read (options : MQTTPacketConnectData) :
    flagCleansession (connectFlags options) = options.cleansession % 2 ∧
      flagWill (connectFlags options) = (if options.willFlag ≠ 0 then 1 else 0) ∧
      (options.willFlag ≠ 0 → flagWillQoS (connectFlags options) = options.will.qos % 4 ∧
        flagWillRetain (connectFlags options) = options.will.retained % 2) ∧
      flagPassword (connectFlags options) = options.password.isSome.toNat ∧
      flagUsername (connectFlags options) = options.username.isSome.toNat := by
  have password := Bool.toNat_lt options.password.isSome
  have username := Bool.toNat_lt options.username.isSome
  simp only [flagCleansession, flagWill, flagWillQoS, flagWillRetain, flagPassword, flagUsername, connectFlags,
    UInt8.toNat_ofNat']
  by_cases will : options.willFlag = 0
  · simp only [will, ne_eq, not_true, if_false, false_implies, true_and]
    refine ⟨?_, ?_, ?_, ?_⟩ <;> omega
  · simp only [will, ne_eq, not_false_eq_true, if_true, true_implies]
    refine ⟨?_, ?_, ⟨?_, ?_⟩, ?_, ?_⟩ <;> omega

theorem credentials_read (buf : Nat → UInt8) (flags : UInt8) (enddata curdata : Nat) (data : ConnectRead)
    (username password : Option Bytes) (usernameBit : flagUsername flags = username.isSome.toNat)
    (passwordBit : flagPassword flags = password.isSome.toNat) (shortName : ∀ name ∈ username, name.length < 65536)
    (shortWord : ∀ word ∈ password, word.length < 65536)
    (remaining : Remaining buf enddata curdata (optionalString username ++ optionalString password)) :
    ((readCredentials buf flags enddata data curdata).1 = 1 ↔ Credentialed username password) ∧
      ((readCredentials buf flags enddata data curdata).1 = 1 → ∃ name word,
        (readCredentials buf flags enddata data curdata).2 = { data with username := name, password := word } ∧
          (∀ given ∈ username, contents buf name = given) ∧ ∀ given ∈ password, contents buf word = given) := by
  have ends := remaining.ends
  cases username with
  | none =>
      cases password with
      | none =>
          simp only [readCredentials, usernameBit, passwordBit, Credentialed]
          exact ⟨by simp, fun _ => ⟨data.username, data.password, by simp⟩⟩
      | some password => simp [readCredentials, usernameBit, passwordBit, Credentialed]
  | some username =>
      simp only [optionalString, Option.map_some, Option.getD_some] at remaining ends
      obtain ⟨read, name, behind⟩ := read_written_string buf data.username enddata curdata username _
        (shortName username rfl) remaining
      cases password with
      | none =>
          simp only [Option.map_none, Option.getD_none, List.append_nil, write_string_length] at ends
          by_cases empty : username = []
          · have few : enddata - curdata < 3 := by
              rw [empty, List.length_nil] at ends
              omega
            simp [readCredentials, usernameBit, few, Credentialed, empty]
          · have enough : ¬ enddata - curdata < 3 := by
              have positive := List.length_pos_iff.mpr empty
              omega
            simp only [readCredentials, usernameBit, passwordBit, if_neg enough, read, Credentialed]
            exact ⟨by simp [empty], fun _ => ⟨⟨username.length, curdata + 2⟩, data.password, by simp [name]⟩⟩
      | some password =>
          have wordEnds := behind.ends
          simp only [Option.map_some, Option.getD_some, List.length_append, write_string_length] at ends wordEnds
          have enough : ¬ enddata - curdata < 3 := by omega
          by_cases empty : password = []
          · have few : enddata - (curdata + (2 + username.length)) < 3 := by
              rw [empty, List.length_nil] at wordEnds
              omega
            simp [readCredentials, usernameBit, passwordBit, enough, read, few, Credentialed, empty]
          · have more : ¬ enddata - (curdata + (2 + username.length)) < 3 := by
              have positive := List.length_pos_iff.mpr empty
              omega
            simp only [Option.map_some, Option.getD_some] at behind
            rw [← List.append_nil (writeMQTTString password)] at behind
            obtain ⟨readWord, word, _⟩ := read_written_string buf data.password enddata _ password _ (shortWord password rfl)
              behind
            simp only [readCredentials, usernameBit, passwordBit, if_neg enough, read, if_neg more, readWord, Credentialed]
            exact ⟨by simp [empty], fun _ => ⟨⟨username.length, curdata + 2⟩,
              ⟨password.length, curdata + (2 + username.length) + 2⟩, by simp [name, word]⟩⟩

def willBytes (options : MQTTPacketConnectData) : Bytes :=
  if options.willFlag ≠ 0 then writeMQTTString options.will.topicName ++ writeMQTTString options.will.message else []

theorem will_read (buf : Nat → UInt8) (enddata curdata : Nat) (data : ConnectRead) (options : MQTTPacketConnectData)
    (rest : Bytes) (short : ShortStrings options) (remaining : Remaining buf enddata curdata (willBytes options ++ rest)) :
    ∃ will next, readWill buf (connectFlags options) enddata data curdata =
        (true, { data with willFlag := if options.willFlag ≠ 0 then 1 else 0, will := will }, next) ∧
      Remaining buf enddata next rest ∧
      (options.willFlag ≠ 0 → contents buf will.topicName = options.will.topicName ∧
        contents buf will.message = options.will.message ∧ will.qos = options.will.qos % 4 ∧
        will.retained = options.will.retained % 2) := by
  obtain ⟨_, flag, bits, _, _⟩ := connect_flags_read options
  by_cases absent : options.willFlag = 0
  · simp only [willBytes, absent, ne_eq, not_true, if_false, List.nil_append] at remaining flag
    exact ⟨data.will, curdata, by simp [readWill, flag, absent], remaining, fun present => absurd absent present⟩
  · simp only [willBytes, ne_eq, absent, not_false_eq_true, if_true, List.append_assoc] at remaining flag
    obtain ⟨qos, retained⟩ := bits absent
    obtain ⟨readTopic, topicName, behind⟩ := read_written_string buf data.will.topicName enddata curdata _ _
      short.topicName remaining
    obtain ⟨readMessage, message, tail⟩ := read_written_string buf data.will.message enddata _ _ _ short.message behind
    refine ⟨⟨⟨options.will.topicName.length, curdata + 2⟩,
      ⟨options.will.message.length, curdata + (2 + options.will.topicName.length) + 2⟩, options.will.retained % 2,
      options.will.qos % 4⟩, _, ?_, tail, fun _ => ⟨topicName, message, rfl, rfl⟩⟩
    simp [readWill, flag, qos, retained, readTopic, readMessage, absent]

def protocolBytes (options : MQTTPacketConnectData) : Bytes :=
  if options.mqttVersion = 4 then writeMQTTString (ascii "MQTT") ++ [4] else writeMQTTString (ascii "MQIsdp") ++ [3]

theorem name_matches_contents (buf : Nat → UInt8) (protocol : MQTTLenString) (name : Bytes)
    (read : contents buf protocol = name) : nameMatches buf protocol name = true := by
  have length : protocol.len = name.length := by
    rw [← read]
    exact (Memory.load_length _ _ _).symm
  rw [nameMatches, length, Nat.min_self, List.take_length, beq_iff_eq, ← length]
  exact read

theorem protocol_read (buf : Nat → UInt8) (enddata curdata : Nat) (options : MQTTPacketConnectData) (rest : Bytes)
    (remaining : Remaining buf enddata curdata (protocolBytes options ++ rest)) :
    ∃ protocol next, readMQTTLenString buf ⟨0, 0⟩ curdata enddata = (true, protocol, next) ∧
      mqttPacketCheckVersion buf protocol (readChar (buf next)) = true ∧ Remaining buf enddata (next + 1) rest := by
  by_cases four : options.mqttVersion = 4
  · rw [protocolBytes, if_pos four, List.append_assoc] at remaining
    obtain ⟨read, name, behind⟩ := read_written_string buf ⟨0, 0⟩ enddata curdata _ _ (by decide) remaining
    obtain ⟨version, tail⟩ := remaining_split buf enddata _ [4] rest behind
    have matches4 := name_matches_contents buf _ _ name
    refine ⟨_, _, read, ?_, tail⟩
    rw [(load_cons buf _ 4 [] version).1, mqttPacketCheckVersion, matches4]
    rfl
  · rw [protocolBytes, if_neg four, List.append_assoc] at remaining
    obtain ⟨read, name, behind⟩ := read_written_string buf ⟨0, 0⟩ enddata curdata _ _ (by decide) remaining
    obtain ⟨version, tail⟩ := remaining_split buf enddata _ [3] rest behind
    have matches3 := name_matches_contents buf _ _ name
    refine ⟨_, _, read, ?_, tail⟩
    rw [(load_cons buf _ 3 [] version).1, mqttPacketCheckVersion, matches3]
    rfl

theorem connect_length_small (options : MQTTPacketConnectData) (short : ShortStrings options) :
    mqttSerializeConnectLength options < 128 ^ 4 := by
  have clientID := short.clientID
  have topicName := short.topicName
  have message := short.message
  have fixed : (if options.mqttVersion = 3 then 12 else if options.mqttVersion = 4 then 10 else 0) ≤ 12 := by
    split <;> try split
    all_goals omega
  have will : (if options.willFlag ≠ 0 then
      options.will.topicName.length + 2 + (options.will.message.length + 2) else 0) ≤ 131074 := by
    split <;> omega
  have username : options.username.elim 0 (fun username => username.length + 2) ≤ 65537 := by
    cases given : options.username with
    | none => simp
    | some username =>
        have bound := short.username username given
        simp only [Option.elim_some]
        omega
  have password : options.password.elim 0 (fun password => password.length + 2) ≤ 65537 := by
    cases given : options.password with
    | none => simp
    | some password =>
        have bound := short.password password given
        simp only [Option.elim_some]
        omega
  simp only [mqttSerializeConnectLength]
  omega

def connectBody (options : MQTTPacketConnectData) : Bytes :=
  protocolBytes options ++ ([connectFlags options] ++ (writeInt options.keepAliveInterval.toNat ++
    (writeMQTTString options.clientID ++ (willBytes options ++
      (optionalString options.username ++ optionalString options.password)))))

theorem optional_string_length (mqttstring : Option Bytes) :
    (optionalString mqttstring).length = mqttstring.elim 0 (fun string => string.length + 2) := by
  cases mqttstring with
  | none => rfl
  | some string => simp only [optionalString, Option.map_some, Option.getD_some, write_string_length, Option.elim_some,
      Nat.add_comm]

theorem protocol_length (options : MQTTPacketConnectData) (versioned : options.mqttVersion = 3 ∨ options.mqttVersion = 4) :
    (protocolBytes options).length + 3 =
      if options.mqttVersion = 3 then 12 else if options.mqttVersion = 4 then 10 else 0 := by
  rcases versioned with three | four
  · rw [protocolBytes, three]
    rfl
  · rw [protocolBytes, four]
    rfl

theorem will_length (options : MQTTPacketConnectData) : (willBytes options).length =
    if options.willFlag ≠ 0 then options.will.topicName.length + 2 + (options.will.message.length + 2) else 0 := by
  unfold willBytes
  split
  · rw [List.length_append, write_string_length, write_string_length]
    omega
  · rfl

-- With another version the length leaves out the protocol's name and what follows it up to the client's.
theorem connect_body_length (options : MQTTPacketConnectData)
    (versioned : options.mqttVersion = 3 ∨ options.mqttVersion = 4) :
    (connectBody options).length = mqttSerializeConnectLength options := by
  have interval : (writeInt options.keepAliveInterval.toNat).length = 2 := rfl
  simp only [connectBody, mqttSerializeConnectLength, List.length_append, List.length_cons, List.length_nil,
    write_string_length, optional_string_length, will_length, interval, ← protocol_length options versioned]
  omega

theorem connect_bytes (buflen : Nat) (options : MQTTPacketConnectData) (made : 0 < (mqttSerializeConnect buflen options).1) :
    (mqttSerializeConnect buflen options).2 =
      [headerByte CONNECT 0 0 0] ++ (VarInt.encode (mqttSerializeConnectLength options) ++ connectBody options) := by
  simp only [mqttSerializeConnect] at made ⊢
  by_cases room : mqttPacketLen (mqttSerializeConnectLength options) > buflen
  · simp [if_pos room, MQTTPACKET_BUFFER_TOO_SHORT] at made
  · rw [if_neg room, mqtt_packet_encode_refines]
    simp only [connectBody, protocolBytes, willBytes, List.append_assoc, List.cons_append, List.nil_append]

-- The parts of a CONNECT in the order they are read; the credentials decide.
theorem connect_body_read (buf : Nat → UInt8) (enddata : Nat) (options : MQTTPacketConnectData) (data : ConnectRead)
    (short : ShortStrings options) (type : headerType (buf 0) = CONNECT)
    (remaining : Remaining buf enddata (1 + (mqttPacketDecodeBuf buf 1).1) (connectBody options)) :
    ((mqttDeserializeConnect data buf enddata).1 = 1 ↔ Credentialed options.username options.password) ∧
      ((mqttDeserializeConnect data buf enddata).1 = 1 → Conveyed buf options (mqttDeserializeConnect data buf enddata).2) := by
  obtain ⟨cleansession, flag, _, passwordBit, usernameBit⟩ := connect_flags_read options
  obtain ⟨protocol, next, readName, checked, flagged⟩ := protocol_read buf enddata _ options _ remaining
  obtain ⟨flags, timed⟩ := remaining_split buf enddata _ _ _ flagged
  obtain ⟨interval, identified⟩ := remaining_split buf enddata _ _ _ timed
  have flagsRead := (load_cons buf _ _ _ flags).1
  have intervalRead : readInt buf (next + 1 + 1) = options.keepAliveInterval.toNat :=
    read_int_loaded buf _ _ options.keepAliveInterval.toNat_lt interval
  obtain ⟨readClient, clientID, willed⟩ := read_written_string buf data.clientID enddata (next + 1 + 3) _ _ short.clientID
    identified
  obtain ⟨will, afterWill, readWilled, credentials, conveyedWill⟩ := will_read buf enddata _
    { data with
      cleansession := options.cleansession % 2, keepAliveInterval := options.keepAliveInterval,
      clientID := ⟨options.clientID.length, next + 1 + 3 + 2⟩ } options _ short willed
  have decided := fun read => credentials_read buf (connectFlags options) enddata afterWill read options.username
    options.password usernameBit passwordBit short.username short.password credentials
  simp only [mqttDeserializeConnect, type, readName, checked, flagsRead, intervalRead, readClient, cleansession,
    UInt16.ofNat_toNat, readWilled, ne_eq, not_true, if_false, Bool.not_true, Bool.false_eq_true]
  refine ⟨(decided _).1, fun taken => ?_⟩
  obtain ⟨name, word, result, username, password⟩ := (decided _).2 taken
  rw [result]
  exact ⟨clientID, rfl, rfl, rfl, conveyedWill, username, password⟩

-- A server takes the CONNECT for its credentials alone, and then it has the client's options.
theorem connect_accepted_iff (buflen : Nat) (options : MQTTPacketConnectData) (buf : Nat → UInt8) (data : ConnectRead)
    (short : ShortStrings options) (made : 0 < (mqttSerializeConnect buflen options).1)
    (loaded : Memory.load buf 0 (mqttSerializeConnect buflen options).2.length = (mqttSerializeConnect buflen options).2) :
    ((mqttDeserializeConnect data buf (mqttSerializeConnect buflen options).2.length).1 = 1 ↔
        Credentialed options.username options.password) ∧
      ((mqttDeserializeConnect data buf (mqttSerializeConnect buflen options).2.length).1 = 1 →
        Conveyed buf options (mqttDeserializeConnect data buf (mqttSerializeConnect buflen options).2.length).2) := by
  have bytes := connect_bytes buflen options made
  generalize (mqttSerializeConnect buflen options).2 = packet at bytes loaded ⊢
  have whole : Remaining buf packet.length 0 packet := ⟨loaded, Nat.zero_add _⟩
  generalize packet.length = len at whole ⊢
  rw [bytes] at whole
  obtain ⟨header, sized⟩ := remaining_split buf len 0 _ _ whole
  obtain ⟨field, body⟩ := remaining_split buf len _ _ _ sized
  have type := (header_byte_fields CONNECT 0 0 0 (by decide) (by decide) (by decide) (by decide)).1
  rw [← (load_cons buf 0 _ _ header).1] at type
  have decoded : mqttPacketDecodeBuf buf 1 = ((VarInt.encode (mqttSerializeConnectLength options)).length,
      mqttSerializeConnectLength options) := decode_buf_encoded buf 1 _ (connect_length_small options short) field
  refine connect_body_read buf len options data short type ?_
  rw [decoded]
  exact body

def lastWillOptions : MQTTPacketConnectData :=
  { connectDataInitializer with
    clientID := ascii "thing", willFlag := 1, will := ⟨ascii "gone", [], 1, 1⟩
    username := some [], password := some (ascii "key") }

def lastWillBuffer : Nat → UInt8 := fun i => (mqttSerializeConnect 100 lastWillOptions).2.getD i 0

def unread : ConnectRead := ⟨⟨0, 0⟩, 0, 0, 0, ⟨⟨0, 0⟩, ⟨0, 0⟩, 0, 0⟩, ⟨0, 0⟩, ⟨0, 0⟩⟩

theorem last_will_short : ShortStrings lastWillOptions where
  clientID := by decide
  topicName := by decide
  message := by decide
  username := by simp [lastWillOptions]
  password := by simp [lastWillOptions, ascii]

theorem last_will_accepted :
    ((mqttDeserializeConnect unread lastWillBuffer (mqttSerializeConnect 100 lastWillOptions).2.length).1 = 1 ↔
        Credentialed (some []) (some (ascii "key"))) ∧
      ((mqttDeserializeConnect unread lastWillBuffer (mqttSerializeConnect 100 lastWillOptions).2.length).1 = 1 →
        Conveyed lastWillBuffer lastWillOptions
          (mqttDeserializeConnect unread lastWillBuffer (mqttSerializeConnect 100 lastWillOptions).2.length).2) :=
  connect_accepted_iff 100 lastWillOptions lastWillBuffer unread last_will_short (by decide) (by decide)

end Aliot
