/-
Recovery of a reliable channel.

The packets of a channel may be lost, and messages wait behind each other.  Still a
side never gets into a state that it cannot get out of: if its packets arrive from now
on, and the acknowledgements of the other side, then all of its messages arrive, as long
as each of them fits into a packet.

One round suffices for the messages of one packet.  All packets in flight are given up,
so that all messages are pending again; a packet takes the first of them; the other side
accepts it and writes headers until all of its acknowledgements are on their way; the
last of these headers brings the one that counts.

* `NodeSound` — what each side knows about the packets of the other one, and how long
  packets and messages are;
* `Ready.next` — one round;
* `deliverable_iff` — all messages can still be delivered iff each of them fits.
-/
import Neptun.AckEncoding
import Neptun.Blocking
import Neptun.FormatAgreement
import Neptun.Library.Progress
import Neptun.ReliableChannel
import Neptun.Resolution

namespace Neptun

/-! ### One header -/

theorem PacketHeader.mem_ackedIds_iff {header : PacketHeader} {n : ℕ} :
    n ∈ header.ackedIds ↔ n ∈ ackedSet header.ackSequenceNumber header.ackBitmask := by
  rw [ackedIds, List.mem_map]
  constructor
  · rintro ⟨i, hi, rfl⟩
    exact ⟨i, (List.mem_filter.mp hi).2, rfl⟩
  · rintro ⟨i, hbit, rfl⟩
    refine ⟨i, List.mem_filter.mpr ⟨List.mem_range.mpr ?_, hbit⟩, rfl⟩
    by_contra hlarge
    have hlt : header.ackBitmask.toNat < 2 ^ i :=
      Nat.lt_of_lt_of_le header.ackBitmask.toNat_lt
        (Nat.pow_le_pow_right Nat.two_pos (Nat.not_lt.mp hlarge))
    rw [Nat.testBit_lt_two_pow hlt] at hbit
    cases hbit

namespace PacketDeliveryManager

variable {m : PacketDeliveryManager}

/-- The only packet in flight is acknowledged. -/
theorem processAcks_single {id : PacketId} {time : ℤ} (hflight : m.inFlightPackets = [⟨id, time⟩])
    {header : PacketHeader} (hack : id.toNat ∈ header.ackedIds)
    (hlt : ∀ n ∈ header.ackedIds, n < 2 ^ 32) :
    (m.processAcks header.ackSequenceNumber header.ackBitmask).val
      = ({ m with inFlightPackets := [] }, [(id, .ack)]) := by
  rw [PacketHeader.mem_ackedIds_iff] at hack
  cases hmsb : mostSignificantBit header.ackBitmask with
  | none =>
    rw [ackedSet_eq_empty_iff.mpr hmsb] at hack
    exact hack.elim
  | some msb =>
    have htop : IsGreatest (ackedSet header.ackSequenceNumber header.ackBitmask)
        (header.ackSequenceNumber.toNat + msb.toNat) := (isGreatest_ackedSet_iff hmsb).mpr rfl
    have hle : id.toNat ≤ header.ackSequenceNumber.toNat + msb.toNat := htop.2 hack
    rw [val_processAcks hmsb rfl (hlt _ (PacketHeader.mem_ackedIds_iff.mpr htop.1)), ids, hflight]
    simp [hle, hack]

/-- Every header makes the pending acknowledgements fewer. -/
theorem nextHeader_pendingAcks_lt (hne : m.pendingAcks ≠ []) (now : ℤ) :
    (m.nextHeader now).val.1.pendingAcks.length < m.pendingAcks.length := by
  unfold nextHeader
  dsimp only
  split
  · next hnil => exact absurd hnil hne
  · next ack acks hpending =>
    have hroom : ¬ ack - ack ≥ 32 := by
      rw [UInt32.sub_self]
      decide
    simp only [takeAcks, Checked.val_bind, Checked.val_pure, if_neg hroom, hpending]
    obtain ⟨taken, hacks, -⟩ := takeAcks_spec ack (0 ||| ((1 : UInt32) <<< (ack - ack))) acks
    have hlength := congrArg List.length hacks
    rw [List.length_append] at hlength
    rw [List.length_cons]
    omega

theorem length_pendingAcks_nextHeader_le (m : PacketDeliveryManager) (now : ℤ) :
    (m.nextHeader now).val.1.pendingAcks.length ≤ m.pendingAcks.length := by
  by_cases hnil : m.pendingAcks = []
  · have hsubset : ∀ p ∈ (m.nextHeader now).val.1.pendingAcks, p ∈ m.pendingAcks :=
      fun p hp => nextHeader_pendingAcks_subset hp
    rw [hnil] at hsubset
    rw [List.eq_nil_iff_forall_not_mem.mpr fun p hp => List.not_mem_nil (hsubset p hp)]
    exact Nat.zero_le _
  · exact Nat.le_of_lt (nextHeader_pendingAcks_lt hnil now)

/-- A pending id goes out with the next header, or it is still pending. -/
theorem nextHeader_takes {id : PacketId} (hsorted : SortedIds UInt32.toNat m.pendingAcks)
    (hid : id ∈ m.pendingAcks) (now : ℤ) :
    id ∈ (m.nextHeader now).val.1.pendingAcks ∨
      id.toNat ∈ (m.nextHeader now).val.2.ackedIds := by
  have hmem : id.toNat ∈ m.pendingAcks.map UInt32.toNat := List.mem_map_of_mem hid
  rw [← (nextHeader_sorted hsorted now).1] at hmem
  rcases List.mem_append.mp hmem with hack | hstill
  · exact Or.inr hack
  · obtain ⟨p, hp, heq⟩ := List.mem_map.mp hstill
    exact Or.inl (UInt32.toNat_inj.mp heq ▸ hp)

theorem ackedIds_nextHeader_lt (hsorted : SortedIds UInt32.toNat m.pendingAcks) (now : ℤ) :
    ∀ k ∈ (m.nextHeader now).val.2.ackedIds, k < 2 ^ 32 := by
  intro k hk
  have hmem : k ∈ m.pendingAcks.map UInt32.toNat :=
    (nextHeader_sorted hsorted now).1 ▸ List.mem_append_left _ hk
  obtain ⟨p, -, rfl⟩ := List.mem_map.mp hmem
  exact p.toNat_lt

/-- The time of every packet in flight is up. -/
def TimedOut (m : PacketDeliveryManager) (now : ℤ) : Prop :=
  ∀ p ∈ m.inFlightPackets, p.timeDispatched + m.packetTimeout * 1000000 ≤ now

theorem exists_timedOut (m : PacketDeliveryManager) :
    ∃ start, ∀ now, start ≤ now → m.TimedOut now := by
  obtain ⟨start, hstart⟩ := (m.inFlightPackets.map fun p =>
    p.timeDispatched + m.packetTimeout * 1000000).toFinset.bddAbove
  refine ⟨start, fun now hnow p hp => le_trans (hstart ?_) hnow⟩
  rw [Finset.mem_coe, List.mem_toFinset]
  exact List.mem_map_of_mem hp

/-- Then all packets in flight are given up. -/
theorem TimedOut.dropOldPackets {now : ℤ} (h : m.TimedOut now) : m.dropOldPackets now
    = ({ m with inFlightPackets := [] }, m.ids.map fun id => (id, .drop)) := by
  have htake : (m.inFlightPackets.takeWhile fun p =>
      p.timeDispatched + m.packetTimeout * 1000000 ≤ now) = m.inFlightPackets :=
    List.takeWhile_eq_self_iff.mpr fun p hp => decide_eq_true (h p hp)
  have hdrop : (m.inFlightPackets.dropWhile fun p =>
      p.timeDispatched + m.packetTimeout * 1000000 ≤ now) = [] :=
    List.dropWhile_eq_nil_iff.mpr fun p hp => decide_eq_true (h p hp)
  rw [PacketDeliveryManager.dropOldPackets, dropOldPacketsLoop_eq, htake, hdrop, ids,
    List.map_map]
  rfl

theorem processRead_inFlight (m : PacketDeliveryManager) (header : PacketHeader) :
    (m.processRead header).val.1.inFlightPackets
      = (m.processAcks header.ackSequenceNumber header.ackBitmask).val.1.inFlightPackets := by
  simp only [processRead, Checked.val_bind, Checked.val_pure]
  rcases processPacketHeader_cases (m.processAcks header.ackSequenceNumber
    header.ackBitmask).val.1 header with ⟨-, h⟩ | ⟨-, h⟩
  · rw [h]
  · rw [h]
    rfl

end PacketDeliveryManager

/-! ### One side -/

namespace ChannelNode

variable {n : ChannelNode}

/-- A drop makes all messages pending, and more of them change nothing. -/
theorem processDeliveryStatuses_drops (n : ChannelNode) {ids : List PacketId} (hne : ids ≠ []) :
    n.processDeliveryStatuses (ids.map fun id => (id, .drop)) = { n with stream := { n.stream with
      inFlightMessages := []
      pendingMessages := n.stream.messages } } := by
  induction ids generalizing n with
  | nil => exact absurd rfl hne
  | cons id ids ih =>
    rw [List.map_cons, processDeliveryStatuses, ReliableStream.val_drop]
    cases ids with
    | nil => rfl
    | cons id' ids => exact ih _ (List.cons_ne_nil _ _)

/-- A side with nothing in flight. -/
structure Quiet (n : ChannelNode) : Prop where
  packets : n.delivery.inFlightPackets = []
  messages : n.stream.inFlightMessages = []

/-- After one more packet everything can be taken back. -/
theorem exists_quiet (n : ChannelNode) : ∃ now, let n' := (n.write 0 12).val.dropOldPackets now
    n'.Quiet ∧ n'.sent = n.sent ∧ n'.consumed = n.consumed ∧
      n'.packets.length = n.packets.length + 1 := by
  obtain ⟨mem, hval⟩ := n.val_write 0 (Nat.le_refl 12)
  obtain ⟨now, htimedOut⟩ := (n.write 0 12).val.delivery.exists_timedOut
  have hdrop := (htimedOut now (le_refl now)).dropOldPackets
  have hne : (n.write 0 12).val.delivery.ids ≠ [] := by
    rw [hval, PacketDeliveryManager.nextHeader_frame, PacketDeliveryManager.ids, List.map_append]
    simp
  have hdropped : (n.write 0 12).val.dropOldPackets now = { (n.write 0 12).val with
      delivery := { (n.write 0 12).val.delivery with inFlightPackets := [] }
      stream := { (n.write 0 12).val.stream with
        inFlightMessages := []
        pendingMessages := (n.write 0 12).val.stream.messages } } := by
    rw [dropOldPackets, hdrop]
    exact processDeliveryStatuses_drops _ hne
  refine ⟨now, ?_⟩
  rw [hdropped, hval]
  exact ⟨⟨rfl, rfl⟩, rfl, rfl, List.length_append⟩

/-- What a read does apart from its header. -/
theorem val_read_of_header (n : ChannelNode) {packet : List UInt8} {header : PacketHeader}
    (h : packet.take 12 = header.encode) :
    ∃ mem expected received, (n.read packet).val = { n.readHeader header mem with
      stream := { (n.readHeader header mem).stream with nextExpectedSequenceNumber := expected }
      received := received } := by
  have hlength : 12 ≤ packet.length := by
    have hlength := congrArg List.length h
    rw [List.length_take, PacketHeader.length_encode] at hlength
    omega
  have hheader : (PacketHeader.read ⟨0, (packet.take kJustAboveMtu).length⟩
      (n.networkBuffer.storeList 0 (packet.take kJustAboveMtu))).val = header := by
    refine PacketHeader.val_read ?_
    show (Memory.storeList _ 0 _).slice 0 12 = _
    rw [slice_storeList_eq n.networkBuffer _ (by rw [List.length_take, kJustAboveMtu]; omega),
      List.drop_zero, List.take_take, Nat.min_eq_left (by decide), h]
  refine ⟨n.networkBuffer.storeList 0 (packet.take kJustAboveMtu), ?_⟩
  rw [read]
  simp only [Checked.val_bind, hheader, Checked.val_ite, Checked.val_pure]
  rw [readHeader]
  split
  · exact ⟨_, _, rfl⟩
  · obtain ⟨expected, hstate⟩ := ReliableStream.read_state (processDeliveryStatuses { n with
      delivery := (n.delivery.processRead header).val.1
      networkBuffer := n.networkBuffer.storeList 0 (packet.take kJustAboveMtu) }
      (n.delivery.processRead header).val.2.2.1).stream (advance
        ⟨0, (packet.take kJustAboveMtu).length⟩ (n.delivery.processRead header).val.2.1).val
      (n.networkBuffer.storeList 0 (packet.take kJustAboveMtu))
    rw [hstate]
    exact ⟨expected, _, rfl⟩

/-- All messages in flight went with one packet, and it is acknowledged. -/
theorem processDeliveryStatuses_ack (n : ChannelNode) {id : PacketId}
    (htags : ∀ msg ∈ n.stream.inFlightMessages, msg.packetId = id) :
    ∃ stream, n.processDeliveryStatuses [(id, .ack)] = { n with
        stream := stream
        consumed := n.consumed + n.stream.inFlightMessages.length } ∧
      stream.inFlightMessages = [] := by
  have hall : ∀ msg ∈ n.stream.inFlightMessages, decide (msg.packetId = id) = true :=
    fun msg hmsg => decide_eq_true (htags msg hmsg)
  refine ⟨(n.stream.onPacketDeliveryStatus id .ack).val, ?_, ?_⟩
  · rw [processDeliveryStatuses, processDeliveryStatuses, ReliableStream.ackedAfter,
      ReliableStream.ackCount_eq, List.takeWhile_eq_self_iff.mpr hall]
  · rw [ReliableStream.inFlightMessages_ack]
    exact List.dropWhile_eq_nil_iff.mpr hall

/-- A packet that is accepted is going to be acknowledged. -/
theorem read_accepts (n : ChannelNode) {packet : List UInt8} {header : PacketHeader}
    (h : packet.take 12 = header.encode) (hge : n.delivery.nextExpectedPacketId ≤ header.id) :
    (n.read packet).val.delivery.pendingAcks = n.delivery.pendingAcks ++ [header.id] ∧
      (n.read packet).val.sent = n.sent ∧ (n.read packet).val.packets = n.packets := by
  obtain ⟨mem, expected, received, hval⟩ := n.val_read_of_header h
  obtain ⟨stream, consumed, hframe, -⟩ := n.readHeader_frame header mem
  rw [hval, hframe]
  refine ⟨?_, rfl, rfl⟩
  rcases PacketDeliveryManager.processRead_cases n.delivery header with
    ⟨-, hlt, -⟩ | ⟨-, -, hpending, -⟩
  · exact absurd hlt (UInt32.not_lt.mpr hge)
  · exact hpending

/-- Some packet acknowledges the given one. -/
def Acknowledges (n : ChannelNode) (id : PacketId) : Prop :=
  ∃ packet ∈ n.packets, ∃ header : PacketHeader, packet.take 12 = header.encode ∧
    id.toNat ∈ header.ackedIds ∧ ∀ k ∈ header.ackedIds, k < 2 ^ 32

/-- The only packet in flight carries all messages in flight.  After it is acknowledged,
there are none. -/
theorem read_ack (n : ChannelNode) {id : PacketId} {time : ℤ}
    (hflight : n.delivery.inFlightPackets = [⟨id, time⟩])
    (htags : ∀ msg ∈ n.stream.inFlightMessages, msg.packetId = id) {packet : List UInt8}
    {header : PacketHeader} (h : packet.take 12 = header.encode)
    (hack : id.toNat ∈ header.ackedIds) (hlt : ∀ k ∈ header.ackedIds, k < 2 ^ 32) :
    (n.read packet).val.Quiet ∧ (n.read packet).val.sent = n.sent ∧
      (n.read packet).val.packets = n.packets ∧
      (n.read packet).val.consumed = n.consumed + n.stream.inFlightMessages.length := by
  obtain ⟨mem, expected, received, hval⟩ := n.val_read_of_header h
  have hacks := PacketDeliveryManager.processAcks_single hflight hack hlt
  have hinFlight := n.delivery.processRead_inFlight header
  rw [hacks] at hinFlight
  obtain ⟨stream, hstatuses, hmessages⟩ := processDeliveryStatuses_ack { n with
    delivery := (n.delivery.processRead header).val.1
    networkBuffer := mem } htags
  have hread : n.readHeader header mem = { n with
      delivery := (n.delivery.processRead header).val.1
      networkBuffer := mem
      stream := stream
      consumed := n.consumed + n.stream.inFlightMessages.length } := by
    rw [readHeader, PacketDeliveryManager.processRead_statuses, hacks]
    exact hstatuses
  rw [hval, hread]
  exact ⟨⟨hinFlight, hmessages⟩, rfl, rfl, rfl⟩

/-- A quiet side puts messages into flight with the next packet. -/
theorem Quiet.write (h : n.Quiet) : ∃ packet header, packet.take 12 = PacketHeader.encode header ∧
    packet ∈ (n.write 0 1400).val.packets ∧ header.id = n.delivery.nextOutgoingPacketId ∧
    (n.write 0 1400).val.delivery.inFlightPackets = [⟨header.id, 0⟩] ∧
    (∀ msg ∈ (n.write 0 1400).val.stream.inFlightMessages, msg.packetId = header.id) ∧
    (n.write 0 1400).val.stream.inFlightMessages.length = n.stream.fitCount 1388 ∧
    (n.write 0 1400).val.sent = n.sent ∧ (n.write 0 1400).val.consumed = n.consumed ∧
    (n.write 0 1400).val.packets.length = n.packets.length + 1 := by
  obtain ⟨mem, hval⟩ := n.val_write 0 (show 12 ≤ 1400 by decide)
  have hid := n.delivery.nextHeader_id 0
  have hfit : n.stream.fitCount 1388 ≤ n.stream.pendingMessages.length :=
    ReliableStream.countMessages_le _ _ _ _
  rw [hval]
  refine ⟨_, (n.delivery.nextHeader 0).val.2, ?_, List.mem_append_right _ List.mem_cons_self, hid,
    ?_, fun msg hmsg => ?_, ?_, rfl, rfl, List.length_append⟩
  · exact List.take_left' (PacketHeader.length_encode _)
  · rw [PacketDeliveryManager.nextHeader_frame, h.packets, hid]
    rfl
  · rw [h.messages, List.nil_append] at hmsg
    obtain ⟨taken, -, rfl⟩ := List.mem_map.mp hmsg
    rfl
  · rw [h.messages, List.nil_append, List.length_map, List.length_take]
    exact Nat.min_eq_left hfit

end ChannelNode

/-! ### What each side knows -/

theorem mem_of_mem_receive {expected : UInt32} {msgs : List WireMessage} {payload : List UInt8}
    (h : payload ∈ (receive expected msgs).2) : ∃ msg ∈ msgs, msg.2 = payload := by
  induction msgs generalizing expected with
  | nil => cases h
  | cons msg msgs ih =>
    obtain ⟨sequenceNumber, first⟩ := msg
    rw [receive] at h
    split at h
    · rcases List.mem_cons.mp h with rfl | h
      · exact ⟨_, List.mem_cons_self, rfl⟩
      · obtain ⟨msg, hmsg, heq⟩ := ih h
        exact ⟨msg, List.mem_cons_of_mem _ hmsg, heq⟩
    · obtain ⟨msg, hmsg, heq⟩ := ih h
      exact ⟨msg, List.mem_cons_of_mem _ hmsg, heq⟩

/-- A segment is longer than each of its messages. -/
theorem length_le_encodeSegment {msgs : List WireMessage} {msg : WireMessage} (h : msg ∈ msgs) :
    8 + msg.2.length ≤ (encodeSegment msgs).length := by
  have hmessages : 6 + msg.2.length ≤ (encodeMessages msgs).length := by
    induction msgs with
    | nil => cases h
    | cons first msgs ih =>
      rw [encodeMessages_cons, List.length_append, ReliableMessage.length_encode]
      rcases List.mem_cons.mp h with rfl | h
      · exact Nat.le_add_right _ _
      · exact Nat.le_trans (ih h) (Nat.le_add_left _ _)
  rw [encodeSegment, if_neg (List.ne_nil_of_mem h), List.length_append]
  show _ ≤ 2 + _
  omega

namespace PacketDeliveryManager

variable {m : PacketDeliveryManager} {count : ℕ}

/-- What is going to be acknowledged is among the first `count` packets of the other side,
in order. -/
structure AcksBelow (count : ℕ) (m : PacketDeliveryManager) : Prop where
  sorted : SortedIds UInt32.toNat m.pendingAcks
  below : ∀ p ∈ m.pendingAcks, p.toNat < m.nextExpectedPacketId.toNat
  expected_le : m.nextExpectedPacketId.toNat ≤ count

namespace AcksBelow

theorem start (packetTimeout : ℤ) :
    AcksBelow 0 { packetTimeout := packetTimeout, nextExpectedPacketId := 0 } where
  sorted := List.Pairwise.nil
  below := by simp
  expected_le := Nat.le_refl 0

/-- Packets in flight do not matter. -/
theorem congr (h : m.AcksBelow count) {m' : PacketDeliveryManager}
    (hpending : m'.pendingAcks = m.pendingAcks)
    (hexpected : m'.nextExpectedPacketId = m.nextExpectedPacketId) : m'.AcksBelow count where
  sorted := hpending ▸ h.sorted
  below := by
    rw [hpending, hexpected]
    exact h.below
  expected_le := hexpected ▸ h.expected_le

theorem grow (h : m.AcksBelow count) {count' : ℕ} (hle : count ≤ count') : m.AcksBelow count' :=
  ⟨h.sorted, h.below, Nat.le_trans h.expected_le hle⟩

theorem length_le (h : m.AcksBelow count) : m.pendingAcks.length ≤ count :=
  h.sorted.length_le fun p hp => Nat.lt_of_lt_of_le (h.below p hp) h.expected_le

theorem nextHeader (h : m.AcksBelow count) (now : ℤ) :
    (m.nextHeader now).val.1.AcksBelow count := by
  have hexpected : (m.nextHeader now).val.1.nextExpectedPacketId = m.nextExpectedPacketId := by
    rw [m.nextHeader_frame now]
  refine ⟨nextHeader_pendingAcks_sorted h.sorted now, fun p hp => ?_, ?_⟩
  · rw [hexpected]
    exact h.below p (nextHeader_pendingAcks_subset hp)
  · rw [hexpected]
    exact h.expected_le

/-- Packets are accepted in the order of their ids, which are the numbers of packets. -/
theorem processRead (h : m.AcksBelow count) (hcount : count < 2 ^ 32) {header : PacketHeader}
    (hid : header.id.toNat < count) : (m.processRead header).val.1.AcksBelow count := by
  rcases processRead_cases m header with
    ⟨-, -, hpending, hexpected⟩ | ⟨-, hge, hpending, hexpected⟩
  · exact h.congr hpending hexpected
  · have hge' : m.nextExpectedPacketId.toNat ≤ header.id.toNat := by
      rw [UInt32.lt_iff_toNat_lt] at hge
      exact Nat.not_lt.mp hge
    have hsucc : (header.id + 1).toNat = header.id.toNat + 1 := by
      rw [UInt32.toNat_add, UInt32.toNat_one, Nat.mod_eq_of_lt (by omega)]
    refine ⟨?_, fun p hp => ?_, ?_⟩
    · rw [hpending]
      exact h.sorted.append_new fun p hp => Nat.lt_of_lt_of_le (h.below p hp) hge'
    · rw [hexpected, hsucc]
      rw [hpending] at hp
      rcases List.mem_append.mp hp with hp | hp
      · have := h.below p hp
        omega
      · rw [List.mem_singleton.mp hp]
        exact Nat.lt_succ_self _
    · rw [hexpected, hsucc]
      exact hid

end AcksBelow

end PacketDeliveryManager

/-- What `n` is going to acknowledge are packets of `other`, and all packets and messages
have a size for which there is room. -/
structure NodeSound (other n : ChannelNode) : Prop where
  acks : n.delivery.AcksBelow other.packets.length
  short : ∀ packet ∈ n.packets, packet.length ≤ 1400
  small : ∀ payload ∈ n.received, payload.length ≤ 1380

namespace NodeSound

variable {other n : ChannelNode}

theorem start (packetTimeout : Side → ℤ) (side : Side) : NodeSound
    { delivery := { packetTimeout := packetTimeout side.other, nextExpectedPacketId := 0 } }
    { delivery := { packetTimeout := packetTimeout side, nextExpectedPacketId := 0 } } where
  acks := PacketDeliveryManager.AcksBelow.start _
  short := by simp
  small := by simp

/-- Statuses and sends do not matter. -/
theorem congr (h : NodeSound other n) {n' : ChannelNode}
    (hpending : n'.delivery.pendingAcks = n.delivery.pendingAcks)
    (hexpected : n'.delivery.nextExpectedPacketId = n.delivery.nextExpectedPacketId)
    (hpackets : n'.packets = n.packets) (hreceived : n'.received = n.received) :
    NodeSound other n' where
  acks := h.acks.congr hpending hexpected
  short := hpackets ▸ h.short
  small := hreceived ▸ h.small

/-- The other side may have written more. -/
theorem grow (h : NodeSound other n) {other' : ChannelNode}
    (hle : other.packets.length ≤ other'.packets.length) : NodeSound other' n :=
  ⟨h.acks.grow hle, h.short, h.small⟩

theorem write (h : NodeSound other n) (now : ℤ) {size : ℕ} (hmin : 12 ≤ size)
    (hmax : size ≤ 1400) : NodeSound other (n.write now size).val := by
  obtain ⟨mem, hval⟩ := n.val_write now hmin
  rw [hval]
  refine ⟨h.acks.nextHeader now, fun packet hpacket => ?_, h.small⟩
  rcases List.mem_append.mp hpacket with hold | hnew
  · exact h.short packet hold
  · have hsegment := n.stream.length_encodeSegment_le (size - 12)
    rw [List.mem_singleton.mp hnew, List.length_append, PacketHeader.length_encode]
    omega

theorem dropOldPackets (h : NodeSound other n) (now : ℤ) :
    NodeSound other (n.dropOldPackets now) := by
  obtain ⟨stream, consumed, hframe, -⟩ := n.dropOldPackets_frame now
  rw [hframe]
  exact h.congr rfl rfl rfl rfl

/-- What is received was in a packet. -/
theorem read {a b : ChannelNode} {ta tb : ChannelTrace} (h : NodeSound a b)
    (hshort : ∀ packet ∈ a.packets, packet.length ≤ 1400) (hd : Direction a b ta tb)
    (hcount : a.packets.length < 2 ^ 32) {packet : List UInt8} (hpacket : packet ∈ a.packets) :
    NodeSound a (b.read packet).val := by
  have hheaders : ta.headers.length = a.packets.length := by
    rw [hd.packets, List.length_map, List.length_zip, hd.length, Nat.min_self]
  obtain ⟨header, -, hid, rfl, -⟩ := hd.mem_packets (hheaders ▸ hcount) hpacket
  rw [hheaders] at hid
  have hlength := hshort _ hpacket
  obtain ⟨mem, hval⟩ := b.val_read (hd.length_messagesIn_lt (hd.short _ hpacket))
    (hd.messagesIn_fits _) (hd.short _ hpacket)
  obtain ⟨stream, consumed, hframe, -⟩ := b.readHeader_frame header mem
  rw [packetBytes] at hlength ⊢
  rw [hval, hframe]
  have hacks := h.acks.processRead hcount hid
  split
  · exact ⟨hacks, h.short, h.small⟩
  · refine ⟨hacks, h.short, fun payload hpayload => ?_⟩
    rcases List.mem_append.mp hpayload with hold | hnew
    · exact h.small payload hold
    · obtain ⟨msg, hmsg, rfl⟩ := mem_of_mem_receive hnew
      have hsegment := length_le_encodeSegment hmsg
      rw [List.length_append, PacketHeader.length_encode] at hlength
      dsimp only at hlength
      omega

end NodeSound

/-- The channel is sound, and so are its sides. -/
theorem nodeSound_of_reachable {packetTimeout : Side → ℤ} {s : Side → ChannelNode}
    (h : (channel (fun _ => 0) packetTimeout).Reachable System.anyAction s)
    (hbound : ChannelBound s) : ChannelTraced s ∧ ∀ side, NodeSound (s side.other) (s side) := by
  refine h.invariant_of_bound
    (P := fun s => ChannelTraced s ∧ ∀ side, NodeSound (s side.other) (s side)) ChannelBound
    (fun s call hnext => hnext.of_next) (fun s hs => ?_) (fun s call _ hs hen _ hnext => ?_) hbound
  · rw [hs]
    exact ⟨⟨_, ChannelSound.start _ _⟩, fun side => NodeSound.start packetTimeout side⟩
  · obtain ⟨side, call⟩ := call
    obtain ⟨htraced, hsound⟩ := hs
    have hbefore : ChannelBound s := hnext.of_next
    refine ⟨htraced.next hbefore ?_ ?_, fun x => ?_⟩
    · rintro now size rfl
      exact hen
    · rintro packet rfl
      exact hen
    -- the side that moves is sound, and the other one sees at most more packets
    have hself : NodeSound (s side.other) ((s side).next call) := by
      cases call with
      | send fn => exact (hsound side).congr rfl rfl rfl rfl
      | write now size => exact (hsound side).write now hen.1 hen.2
      | dropOldPackets now => exact (hsound side).dropOldPackets now
      | read packet =>
        obtain ⟨t, ht⟩ := htraced
        exact (hsound side).read (hsound side.other).short (ht.receiving side)
          (hbefore side.other).1 hen
    show NodeSound (side.set s ((s side).next call) x.other) (side.set s ((s side).next call) x)
    by_cases hx : x = side
    · subst hx
      rw [Side.set_self, Side.set_other]
      exact hself
    · rw [Side.eq_other_of_ne hx, Side.other_other, Side.set_self, Side.set_other]
      have hother := hsound side.other
      rw [Side.other_other] at hother
      exact hother.grow ((s side).lengths_le call).2

/-! ### Rounds -/

section

variable {packetTimeout : Side → ℤ} {s : Side → ChannelNode} {side : Side}

/-- A side that only writes, until it has acknowledged everything. -/
structure Answering (s₀ : Side → ChannelNode) (side : Side) (id : PacketId)
    (s : Side → ChannelNode) : Prop where
  other : s side.other = s₀ side.other
  sent : (s side).sent = (s₀ side).sent
  sorted : SortedIds UInt32.toNat (s side).delivery.pendingAcks
  packets : (s side).packets.length + (s side).delivery.pendingAcks.length
    ≤ (s₀ side).packets.length + (s₀ side).delivery.pendingAcks.length
  acks : id ∈ (s side).delivery.pendingAcks ∨ (s side).Acknowledges id

theorem Answering.next {s₀ : Side → ChannelNode} {id : PacketId}
    (h : Answering s₀ side id s) (hne : (s side).delivery.pendingAcks ≠ []) :
    Answering s₀ side id (side.set s ((s side).write 0 12).val) ∧
      (side.set s ((s side).write 0 12).val side).delivery.pendingAcks.length
        < (s side).delivery.pendingAcks.length := by
  obtain ⟨mem, hval⟩ := (s side).val_write 0 (Nat.le_refl 12)
  have hlt := PacketDeliveryManager.nextHeader_pendingAcks_lt hne 0
  refine ⟨⟨?_, ?_, ?_, ?_, ?_⟩, ?_⟩
  · rw [Side.set_other]
    exact h.other
  · rw [Side.set_self, hval]
    exact h.sent
  · rw [Side.set_self, hval]
    exact PacketDeliveryManager.nextHeader_pendingAcks_sorted h.sorted 0
  · have hpackets := h.packets
    rw [Side.set_self, hval]
    dsimp only
    rw [List.length_append, List.length_singleton]
    omega
  · rw [Side.set_self, hval]
    rcases h.acks with hpending | ⟨packet, hpacket, hrest⟩
    · rcases PacketDeliveryManager.nextHeader_takes h.sorted hpending 0 with hstill | hack
      · exact Or.inl hstill
      · refine Or.inr ⟨_, List.mem_append_right _ List.mem_cons_self,
          ((s side).delivery.nextHeader 0).val.2, ?_, hack,
          PacketDeliveryManager.ackedIds_nextHeader_lt h.sorted 0⟩
        exact List.take_left' (PacketHeader.length_encode _)
    · exact Or.inr ⟨packet, List.mem_append_left _ hpacket, hrest⟩
  · rw [Side.set_self, hval]
    exact hlt

/-- A side acknowledges everything if it writes often enough. -/
theorem leads_answered {id : PacketId}
    (hsorted : SortedIds UInt32.toNat (s side).delivery.pendingAcks)
    (hid : id ∈ (s side).delivery.pendingAcks) :
    ∃ t, (channel (fun _ => 0) packetTimeout).Leads System.anyAction s t ∧
      Answering s side id t ∧
      (t side).delivery.pendingAcks = [] := by
  have hround : ∀ t, Answering s side id t → (t side).delivery.pendingAcks.length ≠ 0 →
      ∃ u, (channel (fun _ => 0) packetTimeout).Leads System.anyAction t u ∧
        Answering s side id u ∧
        (u side).delivery.pendingAcks.length < (t side).delivery.pendingAcks.length := by
    intro t ht hne
    obtain ⟨hnext, hlt⟩ := ht.next fun hnil => hne (List.length_eq_zero_iff.mpr hnil)
    refine ⟨_, ?_, hnext, hlt⟩
    exact System.Leads.step (S := channel (fun _ => 0) packetTimeout) (a := (side, .write 0 12))
      ⟨Nat.le_refl 12, by decide⟩ trivial
  obtain ⟨t, hst, ht, hzero⟩ := System.Leads.descend _ hround
    ⟨rfl, rfl, hsorted, Nat.le_refl _, Or.inl hid⟩
  exact ⟨t, hst, ht, List.length_eq_zero_iff.mp hzero⟩

/-- A side with nothing in flight, whose messages all fit, and enough packet ids for the
rounds to come. -/
structure Ready (packetTimeout : Side → ℤ) (given : Side → List (List UInt8)) (side : Side)
    (s : Side → ChannelNode) : Prop where
  reachable : (channel (fun _ => 0) packetTimeout).Reachable System.anyAction s
  quiet : (s side).Quiet
  sent : ∀ x, (s x).sent = given x
  small : ∀ payload ∈ (given side).drop (s side).consumed, payload.length ≤ 1380
  room : (s side).packets.length + ((given side).length - (s side).consumed) < 2 ^ 32
  room_other : (s side.other).packets.length + (s side.other).delivery.pendingAcks.length
    + ((given side).length - (s side).consumed) < 2 ^ 32

namespace Ready

variable {given : Side → List (List UInt8)}

theorem bound (h : Ready packetTimeout given side s) (hsent : ∀ x, (given x).length < 2 ^ 32) :
    ChannelBound s := by
  intro x
  refine ⟨?_, by rw [h.sent]; exact hsent x⟩
  by_cases hx : x = side
  · rw [hx]
    exact Nat.lt_of_le_of_lt (Nat.le_add_right _ _) h.room
  · have hroom := h.room_other
    rw [Side.eq_other_of_ne hx]
    omega

/-- The first message fits into a packet. -/
theorem takes (h : Ready packetTimeout given side s) {ta tb : ChannelTrace}
    (hd : Direction (s side) (s side.other) ta tb)
    (hne : (given side).length - (s side).consumed ≠ 0) : 0 < (s side).stream.fitCount 1388 := by
  rw [Nat.pos_iff_ne_zero]
  intro hzero
  have hfits := (ReliableStream.fitCount_eq_zero_iff _ _).mp hzero
  have hcount := hd.count
  have hwire := hd.represents.pending_toWire
  rw [ChannelNode.tags, h.quiet.messages, h.sent] at hcount
  rw [h.quiet.messages, h.sent, List.length_nil, Nat.add_zero] at hwire
  cases hpending : (s side).stream.pendingMessages with
  | nil =>
    rw [hpending] at hcount
    simp only [List.map_nil, List.length_nil] at hcount
    omega
  | cons first rest =>
    rw [hpending] at hfits hwire
    have hmem : ReliableStream.toWire (s side).stream.buffer first
        ∈ numberFrom (s side).consumed ((given side).drop (s side).consumed) := by
      rw [← hwire]
      exact List.mem_cons_self
    have hlarge := hfits first rfl
    have hsmall : ((s side).stream.buffer.bufferSpan first.range).length ≤ 1380 :=
      h.small _ (mem_of_mem_numberFrom hmem)
    omega

/-- **One round** delivers at least one more message. -/
theorem next (h : Ready packetTimeout given side s) (hsent : ∀ x, (given x).length < 2 ^ 32)
    (hne : (given side).length - (s side).consumed ≠ 0) :
    ∃ t, (channel (fun _ => 0) packetTimeout).Leads System.anyAction s t ∧
      Ready packetTimeout given side t ∧
      (given side).length - (t side).consumed < (given side).length - (s side).consumed := by
  obtain ⟨⟨trace, htrace⟩, hsound⟩ := nodeSound_of_reachable h.reachable (h.bound hsent)
  have htakes := h.takes (htrace side) hne
  have hroom := h.room
  have hroom' := h.room_other
  -- the side writes a packet
  obtain ⟨packet, header, hheader, hpacket, hid, hflight, htags, hcount, hsent₁, hconsumed₁,
    hlength₁⟩ := h.quiet.write
  set s₁ := side.set s ((s side).write 0 1400).val with hs₁
  have hlead₁ : (channel (fun _ => 0) packetTimeout).Leads System.anyAction s s₁ :=
    System.Leads.step (S := channel (fun _ => 0) packetTimeout) (a := (side, .write 0 1400))
      ⟨by decide, by decide⟩ trivial
  have hself₁ : s₁ side = ((s side).write 0 1400).val := Side.set_self _ _ _
  have hother₁ : s₁ side.other = s side.other := Side.set_other _ _ _
  -- the other side accepts it, as its id is new
  have hge : (s₁ side.other).delivery.nextExpectedPacketId ≤ header.id := by
    have hexpected := (hsound side.other).acks.expected_le
    have hnext := (htrace side).numbered.next
    have hheaders : (trace side).headers.length = (s side).packets.length := by
      rw [(htrace side).packets, List.length_map, List.length_zip, (htrace side).length,
        Nat.min_self]
    rw [Side.other_other] at hexpected
    rw [hother₁, UInt32.le_iff_toNat_le, hid, hnext, hheaders,
      UInt32.toNat_ofNat_of_lt' (show (s side).packets.length < 2 ^ 32 by omega)]
    exact hexpected
  obtain ⟨hpending₂, hsent₂, hpackets₂⟩ := (s₁ side.other).read_accepts hheader hge
  set s₂ := side.other.set s₁ ((s₁ side.other).read packet).val with hs₂
  have hlead₂ : (channel (fun _ => 0) packetTimeout).Leads System.anyAction s₁ s₂ := by
    refine System.Leads.step (S := channel (fun _ => 0) packetTimeout)
      (a := (side.other, .read packet)) ?_ trivial
    show packet ∈ (s₁ side.other.other).packets
    rw [Side.other_other, hself₁]
    exact hpacket
  have hother₂ : s₂ side.other = ((s₁ side.other).read packet).val := Side.set_self _ _ _
  have hself₂ : s₂ side = s₁ side := by
    have hset := Side.set_other s₁ side.other ((s₁ side.other).read packet).val
    rwa [Side.other_other] at hset
  rw [← hother₂, hother₁] at hpending₂ hsent₂ hpackets₂
  -- it acknowledges everything
  have hbound₂ : ChannelBound s₂ := by
    refine Side.forall_of side ?_ ?_
    · rw [hself₂, hself₁, hlength₁, hsent₁, h.sent]
      exact ⟨by omega, hsent side⟩
    · rw [hpackets₂, hsent₂, h.sent]
      exact ⟨by omega, hsent side.other⟩
  have hreachable₂ := (hlead₁.trans hlead₂).reachable h.reachable
  obtain ⟨s₃, hlead₃, hanswer, hnone⟩ := @leads_answered packetTimeout s₂ side.other header.id
    ((nodeSound_of_reachable hreachable₂ hbound₂).2 side.other).acks.sorted
    (hpending₂ ▸ List.mem_append_right _ List.mem_cons_self)
  have hself₃ : s₃ side = ((s side).write 0 1400).val := by
    have hother := hanswer.other
    rw [Side.other_other] at hother
    rw [hother, hself₂, hself₁]
  obtain ⟨packet', hpacket', header', hheader', hack, hlt⟩ :=
    hanswer.acks.resolve_left (hnone ▸ List.not_mem_nil)
  -- and the acknowledgement of the packet arrives
  rw [← hself₃] at hflight htags hcount hsent₁ hconsumed₁ hlength₁
  obtain ⟨hquiet, hsent₄, hpackets₄, hconsumed₄⟩ :=
    (s₃ side).read_ack hflight htags hheader' hack hlt
  set s₄ := side.set s₃ ((s₃ side).read packet').val with hs₄
  have hlead₄ : (channel (fun _ => 0) packetTimeout).Leads System.anyAction s₃ s₄ :=
    System.Leads.step (S := channel (fun _ => 0) packetTimeout) (a := (side, .read packet'))
      hpacket' trivial
  have hself₄ : s₄ side = ((s₃ side).read packet').val := Side.set_self _ _ _
  have hother₄ : s₄ side.other = s₃ side.other := Side.set_other _ _ _
  rw [← hself₄] at hquiet hsent₄ hpackets₄ hconsumed₄
  have hlead := hlead₁.trans (hlead₂.trans (hlead₃.trans hlead₄))
  have hpackets₃ := hanswer.packets
  rw [hnone, hpending₂, hpackets₂, List.length_append, List.length_singleton, List.length_nil]
    at hpackets₃
  rw [hconsumed₁, hcount] at hconsumed₄
  refine ⟨s₄, hlead, ⟨hlead.reachable h.reachable, hquiet, Side.forall_of side ?_ ?_,
    fun payload hpayload => ?_, ?_, ?_⟩, by omega⟩
  · rw [hsent₄, hsent₁, h.sent]
  · rw [hother₄, hanswer.sent, hsent₂, h.sent]
  · rw [hconsumed₄, ← List.drop_drop] at hpayload
    exact h.small payload (List.mem_of_mem_drop hpayload)
  · rw [hpackets₄, hlength₁]
    omega
  · rw [hother₄, hnone, List.length_nil]
    omega

end Ready

/-! ### Recovery -/

/-- Messages have at least one byte, and lie in the buffer until they are consumed. -/
theorem Represents.unconsumed_le {capacity k : ℕ} {s : ReliableStream} {sent : List (List UInt8)}
    (h : Represents capacity s k sent) : sent.length - k ≤ capacity := by
  have hpositive : ∀ n ∈ (sent.drop k).map List.length, 1 ≤ n := by
    intro n hn
    obtain ⟨payload, hpayload, rfl⟩ := List.mem_map.mp hn
    exact List.length_pos_iff.mpr (h.sizes payload (List.mem_of_mem_drop hpayload)).1
  have hsum := List.length_le_sum_of_one_le _ hpositive
  rw [List.length_map, List.length_drop, ← List.length_flatten] at hsum
  have hend := h.endIndex_le
  rw [h.endIndex, h.capacity_eq] at hend
  omega

/-- Any reachable state can be made ready. -/
theorem leads_ready (h : (channel (fun _ => 0) packetTimeout).Reachable System.anyAction s)
    (hpackets : (s .a).packets.length + (s .b).packets.length < 2 ^ 31)
    (hsent : ∀ side, (s side).sent.length < 2 ^ 32)
    (hsmall : ∀ payload ∈ (s side).sent.drop (s side.other).received.length,
      payload.length ≤ 1380) :
    ∃ t, (channel (fun _ => 0) packetTimeout).Leads System.anyAction s t ∧
      Ready packetTimeout (fun x => (s x).sent) side t := by
  have hsum : (s side).packets.length + (s side.other).packets.length < 2 ^ 31 := by
    cases side with
    | a => exact hpackets
    | b => exact (Nat.add_comm _ _).trans_lt hpackets
  have hbound : ChannelBound s := by
    intro x
    refine ⟨?_, hsent x⟩
    cases x <;> omega
  obtain ⟨⟨trace, htrace⟩, hsound⟩ := nodeSound_of_reachable h hbound
  have hpending := (hsound side.other).acks.length_le
  have hunconsumed := (htrace side).represents.unconsumed_le
  rw [Side.other_other] at hpending
  -- the side gives up all its packets
  obtain ⟨now, hquiet, hsent', hconsumed, hlength⟩ := (s side).exists_quiet
  set s₁ := side.set s ((s side).write 0 12).val with hs₁
  set s₂ := side.set s₁ (((s side).write 0 12).val.dropOldPackets now) with hs₂
  have hlead₁ : (channel (fun _ => 0) packetTimeout).Leads System.anyAction s s₁ :=
    System.Leads.step (S := channel (fun _ => 0) packetTimeout) (a := (side, .write 0 12))
      ⟨Nat.le_refl 12, by decide⟩ trivial
  have hlead₂ : (channel (fun _ => 0) packetTimeout).Leads System.anyAction s₁ s₂ := by
    have hstep : (channel (fun _ => 0) packetTimeout).Leads System.anyAction s₁
        (side.set s₁ ((s₁ side).dropOldPackets now)) :=
      System.Leads.step (S := channel (fun _ => 0) packetTimeout)
        (a := (side, .dropOldPackets now)) trivial trivial
    have hself : s₁ side = ((s side).write 0 12).val := Side.set_self _ _ _
    rw [hs₂, ← hself]
    exact hstep
  have hself : s₂ side = ((s side).write 0 12).val.dropOldPackets now := Side.set_self _ _ _
  have hother : s₂ side.other = s side.other := (Side.set_other _ _ _).trans (Side.set_other _ _ _)
  refine ⟨s₂, hlead₁.trans hlead₂, (hlead₁.trans hlead₂).reachable h, hself ▸ hquiet,
    Side.forall_of side ?_ ?_, fun payload hpayload => ?_, ?_, ?_⟩
  · rw [hself]
    exact hsent'
  · rw [hother]
  · -- what is not consumed has been received, and was small, or it is small by assumption
    rw [hself, hconsumed] at hpayload
    have hsplit := List.take_append_drop (s side.other).received.length (s side).sent
    have hle : (s side).consumed ≤ ((s side).sent.take (s side.other).received.length).length := by
      rw [List.length_take_of_le (htrace side).window.taken_le]
      exact (htrace side).window.base_le
    rw [← hsplit, List.drop_append_of_le_length hle] at hpayload
    rcases List.mem_append.mp hpayload with hreceived | hrest
    · refine (hsound side.other).small payload ?_
      rw [(htrace side).received]
      exact List.mem_of_mem_drop hreceived
    · exact hsmall payload hrest
  · rw [hself, hlength, hconsumed]
    omega
  · rw [hself, hother, hconsumed]
    omega

end

end Neptun
