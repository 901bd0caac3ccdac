import Aliot.ClientRun

set_option autoImplicit false

namespace Aliot

variable {H σ ε : Type}

def deliveredIn (cycle : Nat) (id : UInt16) : Event ε → Bool
  | .delivered n message => n = cycle ∧ message.qos = QOS2 ∧ message.id = id
  | _ => false

-- Open from the delivery of the message until the PUBCOMP that completes its PUBREL has been sent.
def exchangeOpen : List (Event ε) → UInt16 → Bool
  | [], _ => false
  | .delivered _ message :: older, id => if message.qos = QOS2 ∧ message.id = id then true else exchangeOpen older id
  | .sent _ packet ok :: older, id => if packet = ackBytes PUBCOMP 0 id ∧ ok then false else exchangeOpen older id
  | .received _ _ :: older, id => exchangeOpen older id
  | .note _ :: older, id => exchangeOpen older id

-- Handed to deliverMessage by this call of cycle or earlier in the same exchange.
def handed (older : List (Event ε)) (cycle : Nat) (id : UInt16) : Bool :=
  older.any (deliveredIn cycle id) || exchangeOpen older id

def Acknowledged (log : List (Event ε)) : Prop :=
  ∀ newer older cycle id ok, log = newer ++ .sent cycle (ackBytes PUBREC 0 id) ok :: older →
    handed older cycle id = true

-- A QoS 2 PUBLISH found neither its id nor a free entry in the table.
def overflowed : Event ε → Bool
  | .received id table => isQoS2msgidFree table id && !table.contains 0
  | _ => false

def NoOverflow (log : List (Event ε)) : Prop := ∀ event ∈ log, overflowed event = false

instance (log : List (Event ε)) : Decidable (NoOverflow log) :=
  inferInstanceAs (Decidable (∀ event ∈ log, overflowed event = false))

-- readPacket failed, or it left a well-formed packet in readbuf.
def Whole (arrival : Arrival) : Prop :=
  arrival.rc = FAILURE ∨ ∃ packet : Inbound, packet.WellFormed ∧ arrival.rc = headerType packet.header ∧
    Holds arrival.readbuf packet

-- The ids in the table; 0 marks a free entry.
def heldIds (table : List UInt16) : List UInt16 := table.filter (fun id => id != 0)

-- The table holds each id once, and just those whose exchange is open.
def Matched (table : List UInt16) (log : List (Event ε)) : Prop :=
  (heldIds table).Nodup ∧ ∀ id, id ≠ 0 → (id ∈ heldIds table ↔ exchangeOpen log id = true)

-- A QoS 2 message is delivered only while its exchange is closed, also by a cycle inside a handler.
def Sound : List (Event ε) → Prop
  | [] => True
  | .received _ table :: older => Matched table older ∧ Sound older
  | .delivered _ message :: older => (message.qos = QOS2 → exchangeOpen older message.id = false) ∧ Sound older
  | .sent _ _ _ :: older => Sound older
  | .note _ :: older => Sound older

structure QosInvariant (s : Sys H σ ε) : Prop where
  whole : ∀ arrival ∈ s.world.arrivals, Whole arrival
  distinct : (heldIds s.client.incomingQos2Messages).Nodup
  tracked : ∀ id, id ≠ 0 → (id ∈ heldIds s.client.incomingQos2Messages ↔ exchangeOpen s.log id = true)
  acknowledged : NoOverflow s.log → Acknowledged s.log
  sound : Sound s.log

-- An event that opens and closes no exchange and acknowledges no message.
def Silent : Event ε → Prop
  | .received _ _ => False
  | .delivered _ message => message.qos ≠ QOS2
  | .sent _ packet ok =>
      (∀ id, packet ≠ ackBytes PUBREC 0 id) ∧ (ok = true → ∀ id, packet ≠ ackBytes PUBCOMP 0 id)
  | .note _ => True

theorem acknowledged_cons (event : Event ε) (older : List (Event ε)) : Acknowledged (event :: older) ↔
    Acknowledged older ∧ ∀ cycle id ok, event = .sent cycle (ackBytes PUBREC 0 id) ok → handed older cycle id = true := by
  constructor
  · intro all
    refine ⟨fun newer rest cycle id ok split => all (event :: newer) rest cycle id ok (by rw [split]; rfl), ?_⟩
    intro cycle id ok same
    exact all [] older cycle id ok (by rw [same]; rfl)
  · rintro ⟨before, latest⟩ newer rest cycle id ok split
    cases newer with
    | nil =>
        obtain ⟨rfl, rfl⟩ := List.cons.inj split
        exact latest cycle id ok rfl
    | cons _ newer => exact before newer rest cycle id ok (List.cons.inj split).2

theorem no_overflow_older (newer older : List (Event ε)) (room : NoOverflow (newer ++ older)) : NoOverflow older :=
  fun event seen => room event (List.mem_append_right newer seen)

theorem exchange_open_silent (event : Event ε) (older : List (Event ε)) (id : UInt16) (silent : Silent event) :
    exchangeOpen (event :: older) id = exchangeOpen older id := by
  cases event with
  | received _ _ => exact silent.elim
  | delivered _ message => exact if_neg (fun same => silent same.1)
  | sent _ packet ok => exact if_neg (fun same => silent.2 same.2 id same.1)
  | note _ => rfl

theorem QosInvariant.record (s : Sys H σ ε) (event : Event ε) (inv : QosInvariant s)
    (unchanged : ∀ id, exchangeOpen (event :: s.log) id = exchangeOpen s.log id)
    (answered : NoOverflow s.log → ∀ n id ok, event = .sent n (ackBytes PUBREC 0 id) ok → handed s.log n id = true)
    (sound : Sound (event :: s.log)) : QosInvariant (s.record event) where
  whole := inv.whole
  distinct := inv.distinct
  tracked id nonzero := (inv.tracked id nonzero).trans (by rw [Sys.record, unchanged id])
  acknowledged room := by
    have before := no_overflow_older [event] s.log room
    exact (acknowledged_cons event s.log).mpr ⟨inv.acknowledged before, answered before⟩
  sound := sound

def QosKept (s t : Sys H σ ε) : Prop := QosInvariant s → QosInvariant t ∧ s.log <:+ t.log

theorem qos_kept_trans (s t u : Sys H σ ε) (first : QosKept s t) (second : QosKept t u) : QosKept s u := by
  intro inv
  obtain ⟨between, grown⟩ := first inv
  obtain ⟨after, more⟩ := second between
  exact ⟨after, grown.trans more⟩

theorem qos_kept_idle (s t : Sys H σ ε) (idle : Idle s t) : QosKept s t := by
  intro inv
  refine ⟨⟨fun arrival coming => inv.whole arrival (idle.arrivals.subset coming), ?_, ?_, ?_, ?_⟩, ?_⟩
  · exact idle.table ▸ inv.distinct
  · exact idle.table ▸ idle.log ▸ inv.tracked
  · exact idle.log ▸ inv.acknowledged
  · exact idle.log ▸ inv.sound
  · exact idle.log ▸ List.suffix_refl _

theorem sound_silent (event : Event ε) (older : List (Event ε)) (silent : Silent event) (sound : Sound older) :
    Sound (event :: older) := by
  cases event with
  | received _ _ => exact silent.elim
  | delivered _ message => exact ⟨fun exactlyOnce => absurd exactlyOnce silent, sound⟩
  | sent _ _ _ => exact sound
  | note _ => exact sound

theorem qos_kept_record (s : Sys H σ ε) (event : Event ε) (silent : Silent event) : QosKept s (s.record event) := by
  intro inv
  refine ⟨inv.record s event (fun id => exchange_open_silent event s.log id silent) ?_
    (sound_silent event s.log silent inv.sound), List.suffix_cons _ _⟩
  rintro _ n id ok rfl
  exact absurd rfl (silent.1 id)

theorem invariant_received (s : Sys H σ ε) (id : UInt16) (inv : QosInvariant s) :
    QosInvariant (s.record (.received id s.client.incomingQos2Messages)) := by
  refine inv.record s _ (fun _ => rfl) ?_ ⟨⟨inv.distinct, inv.tracked⟩, inv.sound⟩
  intro _ n other ok different
  cases different

theorem ack_bytes_apart (type other : Nat) (id otherId : UInt16) (nibble : type < 16) (otherNibble : other < 16)
    (apart : type ≠ other) : ackBytes type 0 id ≠ ackBytes other 0 otherId := by
  intro same
  have types := ack_bytes_type type id nibble
  rw [same, ack_bytes_type other otherId otherNibble] at types
  exact apart (Option.some.inj types).symm

theorem type_silent (n type : Nat) (packet : Bytes) (ok : Bool) (first : packet.head?.map headerType = some type)
    (other : type ≠ PUBREC ∧ type ≠ PUBCOMP) : Silent (.sent n packet ok : Event ε) := by
  constructor
  · rintro id rfl
    exact other.1 (Option.some.inj (first.symm.trans (ack_bytes_type PUBREC id (by decide))))
  · rintro _ id rfl
    exact other.2 (Option.some.inj (first.symm.trans (ack_bytes_type PUBCOMP id (by decide))))

theorem finish_cycle_kept (n type : Nat) (s : Sys H σ ε) : QosKept s (finishCycle n type s).2 :=
  keepalive_carried QosKept qos_kept_idle qos_kept_trans n
    (fun packet ok t made => qos_kept_record t _ (type_silent n PINGREQ packet ok made (by decide))) s

theorem replace_perm (l : List UInt16) (a b : UInt16) (present : a ∈ l) : (l.replace a b).Perm (b :: l.erase a) := by
  induction l with
  | nil => cases present
  | cons x xs ih =>
      by_cases here : x = a
      · subst here
        simp
      · have later := ih (by simpa [Ne.symm here] using present)
        have apart : ¬ (x == a) = true := by simpa using here
        have turned : ¬ (a == x) = true := by simpa using Ne.symm here
        simp only [List.replace_cons, List.erase_cons, apart, turned, if_false, Bool.false_eq_true]
        exact (later.cons x).trans (List.Perm.swap b x _)

theorem mem_held_ids (table : List UInt16) (id : UInt16) : id ∈ heldIds table ↔ id ∈ table ∧ id ≠ 0 := by
  simp [heldIds]

theorem held_ids_used (table used : List UInt16) (id : UInt16) (nonzero : id ≠ 0)
    (taken : useQoS2msgid table id = some used) : (heldIds used).Perm (id :: heldIds table) := by
  by_cases room : table.contains 0 = true
  · rw [useQoS2msgid, if_pos room] at taken
    obtain rfl := Option.some.inj taken
    have perm := (replace_perm table 0 id (List.contains_iff_mem.mp room)).filter (fun x => x != 0)
    rw [List.filter_cons_of_pos (by simpa using nonzero), ← List.erase_filter,
      List.erase_of_not_mem (by simp)] at perm
    exact perm
  · rw [useQoS2msgid, if_neg room] at taken
    cases taken

theorem held_ids_freed (table : List UInt16) (id : UInt16) :
    (heldIds (freeQoS2msgid table id)).Perm ((heldIds table).erase id) := by
  by_cases present : id ∈ table
  · have perm := (replace_perm table id 0 present).filter (fun x => x != 0)
    rwa [List.filter_cons_of_neg (by simp), ← List.erase_filter] at perm
  · rw [freeQoS2msgid, List.replace_of_not_mem present,
      List.erase_of_not_mem (fun held => present ((mem_held_ids table id).mp held).1)]

theorem invariant_delivered (s : Sys H σ ε) (n : Nat) (message : MQTTMessage) (used : List UInt16)
    (inv : QosInvariant s) (exactlyOnce : message.qos = QOS2) (nonzero : message.id ≠ 0)
    (absent : message.id ∉ s.client.incomingQos2Messages)
    (taken : useQoS2msgid s.client.incomingQos2Messages message.id = some used) :
    QosInvariant ((s.withTable used).record (.delivered n message)) where
  whole := inv.whole
  distinct := by
    refine (held_ids_used _ used message.id nonzero taken).nodup_iff.mpr (List.nodup_cons.mpr ⟨?_, inv.distinct⟩)
    exact fun held => absent ((mem_held_ids _ _).mp held).1
  tracked id other := by
    refine (held_ids_used _ used message.id nonzero taken).mem_iff.trans (List.mem_cons.trans ?_)
    simp only [Sys.record, Sys.withTable, exchangeOpen, exactlyOnce, true_and]
    by_cases same : message.id = id
    · simp [same]
    · rw [if_neg same, inv.tracked id other]
      simp [Ne.symm same]
  acknowledged room := by
    refine (acknowledged_cons _ s.log).mpr ⟨inv.acknowledged (no_overflow_older [_] s.log room), ?_⟩
    intro cycle id ok different
    cases different
  sound := by
    refine ⟨fun _ => Bool.eq_false_iff.mpr (fun opened => absent ?_), inv.sound⟩
    exact ((mem_held_ids _ _).mp ((inv.tracked _ nonzero).mpr opened)).1

theorem invariant_completed (s : Sys H σ ε) (n : Nat) (id : UInt16) (inv : QosInvariant s) :
    QosInvariant ((s.record (.sent n (ackBytes PUBCOMP 0 id) true)).withTable
      (freeQoS2msgid s.client.incomingQos2Messages id)) where
  whole := inv.whole
  distinct := (held_ids_freed _ id).nodup_iff.mpr (inv.distinct.erase id)
  tracked other nonzero := by
    refine (held_ids_freed _ id).mem_iff.trans (inv.distinct.mem_erase_iff.trans ?_)
    simp only [Sys.record, Sys.withTable, exchangeOpen, and_true]
    by_cases same : other = id
    · simp [same]
    · rw [if_neg (fun bytes => same (ack_bytes_id PUBCOMP id other bytes).symm), inv.tracked other nonzero]
      simp [same]
  acknowledged room := by
    refine (acknowledged_cons _ s.log).mpr ⟨inv.acknowledged (no_overflow_older [_] s.log room), ?_⟩
    intro cycle other ok same
    injection same with _ bytes _
    exact absurd bytes (ack_bytes_apart PUBCOMP PUBREC id other (by decide) (by decide) (by decide))
  sound := inv.sound

theorem handed_delivered (log : List (Event ε)) (n : Nat) (message : MQTTMessage) (exactlyOnce : message.qos = QOS2)
    (seen : .delivered n message ∈ log) : handed log n message.id = true := by
  refine Bool.or_eq_true_iff.mpr (.inl (List.any_eq_true.mpr ⟨_, seen, ?_⟩))
  simp [deliveredIn, exactlyOnce]

theorem accept_publish_kept (call : Call H σ ε) (calls : ∀ fp md t, QosKept t (call fp md t)) (n : Nat)
    (md : MessageData) (s : Sys H σ ε) (nonzero : md.message.qos = QOS2 → md.message.id ≠ 0) (inv : QosInvariant s) :
    (QosInvariant (acceptPublish call n md s) ∧ s.log <:+ (acceptPublish call n md s).log) ∧
      (md.message.qos = QOS2 → NoOverflow (acceptPublish call n md s).log →
        handed (acceptPublish call n md s).log n md.message.id = true) := by
  have delivered := deliver_message_carried QosKept (fun t => qos_kept_idle t t (idle_refl t)) qos_kept_trans call calls n md
  by_cases exactlyOnce : md.message.qos = QOS2
  swap
  · have kept := qos_kept_trans _ _ _ (qos_kept_record s (.delivered n md.message) exactlyOnce) (delivered s)
    simp only [acceptPublish, ne_eq, exactlyOnce, not_false_eq_true, if_true]
    exact ⟨kept inv, fun two => two.elim⟩
  have two := nonzero exactlyOnce
  have received : QosInvariant (s.record (.received md.message.id s.client.incomingQos2Messages)) ∧
      s.log <:+ (s.record (.received md.message.id s.client.incomingQos2Messages)).log :=
    ⟨invariant_received s md.message.id inv, List.suffix_cons _ _⟩
  simp only [acceptPublish, exactlyOnce, ne_eq, not_true_eq_false, if_false]
  by_cases held : md.message.id ∈ s.client.incomingQos2Messages
  · have busy : isQoS2msgidFree s.client.incomingQos2Messages md.message.id = false := by simp [isQoS2msgidFree, held]
    simp only [busy, Bool.false_eq_true, if_false]
    refine ⟨received, fun _ _ => Bool.or_eq_true_iff.mpr (.inr ?_)⟩
    exact (inv.tracked _ two).mp ((mem_held_ids _ _).mpr ⟨held, two⟩)
  have free : isQoS2msgidFree s.client.incomingQos2Messages md.message.id = true := by simp [isQoS2msgidFree, held]
  simp only [free, if_true]
  cases taken : useQoS2msgid s.client.incomingQos2Messages md.message.id with
  | some used =>
      have opened := invariant_delivered _ n md.message used received.1 exactlyOnce two held taken
      obtain ⟨after, grown⟩ := delivered _ opened
      refine ⟨⟨after, received.2.trans ((List.suffix_cons _ _).trans grown)⟩, fun _ _ => ?_⟩
      exact handed_delivered _ n md.message exactlyOnce (grown.subset List.mem_cons_self)
  | none =>
      refine ⟨received, fun _ room => ?_⟩
      have full : ¬ (0 : UInt16) ∈ s.client.incomingQos2Messages := by
        intro zero
        simp [useQoS2msgid, zero] at taken
      exact absurd (room _ List.mem_cons_self) (by simp [overflowed, free, full])

theorem pubrec_kept (n bufSize : Nat) (id : UInt16) (s : Sys H σ ε)
    (answered : NoOverflow s.log → handed s.log n id = true) :
    QosKept s (sendReply n (mqttSerializeAck bufSize PUBREC 0 id) s).2 := by
  rcases send_reply_sends n bufSize PUBREC id s with failed | ⟨t, ok, quiet, sent⟩
  · rw [failed]
    exact qos_kept_idle s s (idle_refl s)
  · rw [sent]
    intro inv
    obtain ⟨same, grown⟩ := qos_kept_idle s t quiet inv
    refine ⟨same.record t _ ?_ ?_ same.sound, grown.trans (List.suffix_cons _ _)⟩
    · intro other
      exact if_neg (fun bytes => ack_bytes_apart PUBREC PUBCOMP id other (by decide) (by decide) (by decide) bytes.1)
    · intro room m other outcome event
      injection event with cycles bytes _
      rw [← ack_bytes_id PUBREC id other bytes, ← cycles, quiet.log]
      exact answered (quiet.log ▸ room)

theorem reply_silent_kept (n bufSize type : Nat) (id : UInt16) (s : Sys H σ ε) (nibble : type < 16)
    (other : type ≠ PUBREC ∧ type ≠ PUBCOMP) : QosKept s (sendReply n (mqttSerializeAck bufSize type 0 id) s).2 := by
  rcases send_reply_sends n bufSize type id s with failed | ⟨t, ok, quiet, sent⟩
  · rw [failed]
    exact qos_kept_idle s s (idle_refl s)
  · rw [sent]
    exact qos_kept_trans _ _ _ (qos_kept_idle s t quiet)
      (qos_kept_record t _ (type_silent n type _ ok (ack_bytes_type type id nibble) other))

theorem reply_publish_kept (n : Nat) (msg : MQTTMessage) (s : Sys H σ ε)
    (answered : msg.qos = QOS2 → NoOverflow s.log → handed s.log n msg.id = true) :
    QosKept s (replyPublish n msg s).2 := by
  have finished : ∀ outcome : Int × Sys H σ ε, QosKept s outcome.2 →
      QosKept s (if outcome.1 = FAILURE then (FAILURE, outcome.2) else finishCycle n PUBLISH outcome.2).2 := by
    intro outcome kept
    split
    · exact kept
    · exact qos_kept_trans _ _ _ kept (finish_cycle_kept n PUBLISH outcome.2)
  simp only [replyPublish]
  by_cases most : msg.qos = QOS0
  · simpa only [if_pos most] using finish_cycle_kept n PUBLISH s
  simp only [if_neg most]
  apply finished
  by_cases least : msg.qos = QOS1
  · simpa only [if_pos least] using reply_silent_kept n _ PUBACK msg.id s (by decide) (by decide)
  by_cases exactlyOnce : msg.qos = QOS2
  · simpa only [if_neg least, if_pos exactlyOnce] using pubrec_kept n _ msg.id s (answered exactlyOnce)
  · simpa only [if_neg least, if_neg exactlyOnce, sendReply, Int.le_refl, if_true] using qos_kept_idle s s (idle_refl s)

theorem pubrec_answered_kept (n : Nat) (arrival : Arrival) (s : Sys H σ ε) :
    QosKept s (cycleAck n PUBREC arrival s).2 := by
  simp only [cycleAck, if_true]
  generalize mqttDeserializeAck s.client.readbuf arrival.packetid = ack
  by_cases malformed : ack.rc ≠ 1
  · simpa only [if_pos malformed] using qos_kept_idle s s (idle_refl s)
  have replied := reply_silent_kept n s.client.bufSize PUBREL ack.packetid s (by decide) (by decide)
  simp only [if_neg malformed]
  generalize sendReply n (mqttSerializeAck s.client.bufSize PUBREL 0 ack.packetid) s = outcome at replied ⊢
  by_cases failed : outcome.1 ≠ SUCCESS
  · simpa only [if_pos failed] using replied
  · rw [if_neg failed, if_neg (by decide)]
    exact qos_kept_trans _ _ _ replied (finish_cycle_kept n PUBREC outcome.2)

theorem pubrel_kept (n : Nat) (arrival : Arrival) (s : Sys H σ ε) : QosKept s (cycleAck n PUBREL arrival s).2 := by
  have released : ¬ PUBREL = PUBREC := by decide
  simp only [cycleAck, if_neg released]
  generalize mqttDeserializeAck s.client.readbuf arrival.packetid = ack
  by_cases malformed : ack.rc ≠ 1
  · simpa only [if_pos malformed] using qos_kept_idle s s (idle_refl s)
  simp only [if_neg malformed]
  rcases send_reply_sends n s.client.bufSize PUBCOMP ack.packetid s with failed | ⟨t, ok, quiet, sent⟩
  · rw [failed]
    exact qos_kept_idle s s (idle_refl s)
  rw [sent]
  have before := qos_kept_idle s t quiet
  cases ok with
  | false =>
      refine qos_kept_trans _ _ _ before (qos_kept_record t _ ⟨fun id => ?_, fun sent => Bool.noConfusion sent⟩)
      exact ack_bytes_apart PUBCOMP PUBREC ack.packetid id (by decide) (by decide) (by decide)
  | true =>
      simp only [if_true, ne_eq, not_true_eq_false, if_false]
      refine qos_kept_trans _ _ _ (qos_kept_trans _ _ _ before ?_) (finish_cycle_kept n PUBREL _)
      exact fun inv => ⟨invariant_completed t n ack.packetid inv, List.suffix_cons _ _⟩

theorem packet_type_header (header : UInt8) : packetType (headerType header) = headerType header := by
  have bound := header.toNat_lt
  have small : headerType header < 65536 := by
    simp only [headerType, Nat.shiftRight_eq_div_pow]
    omega
  simp only [packetType]
  omega

theorem whole_publish (arrival : Arrival) (message : MQTTMessage) (topicName : MQTTLenString) (whole : Whole arrival)
    (type : packetType arrival.rc = PUBLISH) :
    (mqttDeserializePublish arrival.readbuf message topicName).message.qos = QOS2 →
      (mqttDeserializePublish arrival.readbuf message topicName).message.id ≠ 0 := by
  rcases whole with failed | ⟨packet, valid, rc, holds⟩
  · rw [failed] at type
    exact absurd type (by decide)
  have header : headerType packet.header = PUBLISH := by rw [← type, rc, packet_type_header]
  cases packet with
  | publish dup retain qos topic id payload =>
      rw [publish_deserialized arrival.readbuf dup retain qos topic id payload message topicName holds valid]
      intro exactlyOnce
      have positive : qos > 0 := by
        have two : qos = 2 := exactlyOnce
        omega
      simpa only [if_pos positive] using valid.2.2.2 positive
  | ack type flags id =>
      obtain ⟨_, known, nibble, _⟩ := valid
      have byte : (UInt8.ofNat (type * 16 + flags)).toNat >>> 4 = type := by
        rw [UInt8.toNat_ofNat', Nat.shiftRight_eq_div_pow]
        rcases known with rfl | rfl | rfl | rfl <;> simp only [PUBACK, PUBREC, PUBREL, PUBCOMP] <;> omega
      rw [Inbound.header, headerType, byte] at header
      rcases known with rfl | rfl | rfl | rfl <;> cases header
  | other first body => exact absurd header valid.2.1

theorem cycle_publish_kept (call : Call H σ ε) (calls : ∀ fp md t, QosKept t (call fp md t)) (n : Nat)
    (arrival : Arrival) (s : Sys H σ ε) (whole : Whole arrival) (type : packetType arrival.rc = PUBLISH)
    (readbuf : s.client.readbuf = arrival.readbuf) : QosKept s (cyclePublish call n arrival s).2 := by
  have nonzero := whole_publish arrival arrival.message arrival.topicName whole type
  simp only [cyclePublish, readbuf]
  generalize mqttDeserializePublish arrival.readbuf arrival.message arrival.topicName = publish at nonzero ⊢
  by_cases malformed : publish.rc ≠ 1
  · simpa only [if_pos malformed] using qos_kept_idle s s (idle_refl s)
  intro inv
  obtain ⟨⟨accepted, grown⟩, answered⟩ :=
    accept_publish_kept call calls n ⟨publish.topicName, publish.message⟩ s nonzero inv
  obtain ⟨after, more⟩ := reply_publish_kept n publish.message _ answered accepted
  simp only [if_neg malformed]
  exact ⟨after, grown.trans more⟩

theorem qos_kept_carried : Carried (QosKept : Sys H σ ε → Sys H σ ε → Prop) where
  idle := qos_kept_idle
  trans := qos_kept_trans
  sent n packet ok s type := by
    apply qos_kept_record
    rcases type with ⟨publish, _⟩ | ping
    · exact type_silent n PUBLISH packet ok publish (by decide)
    · exact type_silent n PINGREQ packet ok ping (by decide)
  stepped call s calls := by
    intro inv
    rcases cycle_branches call s with ⟨t, n, type, quiet, done⟩ | ⟨t, n, arrival, quiet, coming, readbuf, branch⟩
    · rw [done]
      exact qos_kept_trans _ _ _ (qos_kept_idle s t quiet) (finish_cycle_kept n type t) inv
    · refine qos_kept_trans _ _ _ (qos_kept_idle s t quiet) ?_ inv
      rcases branch with ⟨type, done⟩ | ⟨type, done⟩
      · exact done ▸ cycle_publish_kept call calls n arrival t (inv.whole arrival coming) type readbuf
      · rw [done]
        rcases type with release | answer
        · exact release ▸ pubrel_kept n arrival t
        · exact answer ▸ pubrec_answered_kept n arrival t

theorem fresh_invariant (s : Sys H σ ε) (started : s.log = [])
    (fresh : s.client.incomingQos2Messages = List.replicate MAX_INCOMING_QOS2_MESSAGES 0)
    (whole : ∀ arrival ∈ s.world.arrivals, Whole arrival) : QosInvariant s where
  whole := whole
  distinct := by
    rw [fresh]
    decide
  tracked id _ := by
    rw [fresh, started]
    exact iff_of_false (by simp [heldIds, MAX_INCOMING_QOS2_MESSAGES]) (by simp [exchangeOpen])
  acknowledged _ := by
    rw [started]
    intro newer older n id ok split
    simp at split
  sound := by
    rw [started]
    trivial

theorem pubrec_acknowledges_delivery (depth : Nat) (commands : List Command) (s : Sys H (List (List Command)) ε)
    (started : s.log = []) (fresh : s.client.incomingQos2Messages = List.replicate MAX_INCOMING_QOS2_MESSAGES 0)
    (whole : ∀ arrival ∈ s.world.arrivals, Whole arrival)
    (room : NoOverflow (runCommands (scriptedCall depth) commands s).log) :
    Acknowledged (runCommands (scriptedCall depth) commands s).log := by
  have calls := scripted_call_carried (H := H) (ε := ε) QosKept qos_kept_carried
    (fun s inv => ⟨⟨inv.whole, inv.distinct, inv.tracked, inv.acknowledged, inv.sound⟩, List.suffix_refl s.log⟩) depth
  have kept := run_commands_carried QosKept qos_kept_carried (scriptedCall depth) calls commands s
  exact (kept (fresh_invariant s started fresh whole)).1.acknowledged room

def arrivalOf (packet : Inbound) : Arrival :=
  ⟨headerType packet.header, fun i => packet.wire.getD i 0, ⟨0, 0, 0, 0, 0, 0⟩, ⟨0, 0⟩, 0⟩

theorem arrival_of_whole (packet : Inbound) (valid : packet.WellFormed) : Whole (arrivalOf packet) :=
  .inr ⟨packet, valid, rfl, Memory.load_listed 0 [] packet.wire⟩

def staticClient : Client Unit := ⟨0, 0, fun _ => 0, 0, false, false, [], none, []⟩

def exactlyOncePublish (id : UInt16) : Inbound := .publish false false 2 [0x74] id [0x70]

def exactlyOnceWorld (ids : List UInt16) : World :=
  ⟨ids.map (fun id => arrivalOf (exactlyOncePublish id)), List.replicate 100 true, [], []⟩

def exactlyOnceSystem (ids : List UInt16) : Sys Unit (List (List Command)) Unit :=
  ⟨mqttClient staticClient 4096, exactlyOnceWorld ids, [], 0, []⟩

def idsUpTo (n : Nat) : List UInt16 := (List.range n).map (fun i => UInt16.ofNat (i + 1))

theorem exactly_once_whole (n : Nat) (bound : n < 65535) :
    ∀ arrival ∈ (exactlyOnceSystem (idsUpTo n)).world.arrivals, Whole arrival := by
  intro arrival coming
  obtain ⟨id, listed, rfl⟩ := List.mem_map.mp coming
  obtain ⟨i, below, rfl⟩ := List.mem_map.mp listed
  refine arrival_of_whole _ ⟨by simp [exactlyOncePublish, Inbound.body, writeInt], by decide, by decide, fun _ zero => ?_⟩
  have number := congrArg UInt16.toNat zero
  rw [UInt16.toNat_ofNat'] at number
  have small := List.mem_range.mp below
  simp only [UInt16.toNat_zero] at number
  omega

theorem twenty_exchanges_acknowledged :
    Acknowledged (runCommands (scriptedCall 0) (List.replicate 20 .cycle) (exactlyOnceSystem (idsUpTo 20))).log ∧
      (runCommands (scriptedCall 0) (List.replicate 20 .cycle) (exactlyOnceSystem (idsUpTo 20))).log.head? =
        some (.sent 20 (ackBytes PUBREC 0 20) true) :=
  ⟨pubrec_acknowledges_delivery 0 (List.replicate 20 .cycle) (exactlyOnceSystem (idsUpTo 20)) rfl rfl
    (exactly_once_whole 20 (by decide)) (by decide +kernel), by decide +kernel⟩

-- Of 21 exchanges opened at once the last is acknowledged and never delivered.
theorem pubrec_without_delivery :
    (∀ arrival ∈ (exactlyOnceSystem (idsUpTo 21)).world.arrivals, Whole arrival) ∧
      ¬ Acknowledged (runCommands (scriptedCall 0) (List.replicate 21 .cycle) (exactlyOnceSystem (idsUpTo 21))).log := by
  refine ⟨exactly_once_whole 21 (by decide), fun acknowledged => ?_⟩
  have last : handed (runCommands (scriptedCall 0) (List.replicate 21 .cycle)
      (exactlyOnceSystem (idsUpTo 21))).log.tail 21 21 = true := by
    refine acknowledged [] _ 21 21 true ?_
    decide +kernel
  exact absurd last (by decide +kernel)

end Aliot
