/-
Whether delivery statuses reach the messages that wait for them.

A message in flight, and a `LetsConnect` in flight, is tagged with the id of the
packet it went with, and waits for the status of this packet.  A `Peer` is
`Tracked` if all these packets are still in flight.  Ids are handed out in
increasing order and resolved from the front (`Ordered`), so the statuses come in
the order of the tags (`Tagged`), and every status takes its own tags along.

There is one leak: `read` returns before it processes the statuses if the packet
is too old, although its acknowledgements have been taken off.

* `Peer.processDeliveryStatuses_tagged` — the step lemma of the loop over the
  statuses: the messages that go on waiting do so for packets in flight, and the
  assertions on the order of the tags hold;
* `Peer.read_tracked_iff` — a datagram leaks a status iff it is old and resolves
  a packet that something waits for;
* `tracked_iff_forwarded` — the same for whole runs.
-/
import Neptun.Peers
import Neptun.World
import Neptun.Library.Tags

namespace Neptun

/-- One of the two assertions on the order of the tags fails. -/
def OrderFault (f : Fault) : Prop := f = .assertion .ackOrder ∨ f = .assertion .dropOrder

/-! ### Calls without these assertions -/

theorem not_orderFault_load : ¬ OrderFault .load := by simp [OrderFault]

theorem not_orderFault_store : ¬ OrderFault .store := by simp [OrderFault]

theorem not_orderFault_advance : ¬ OrderFault .advance := by simp [OrderFault]

theorem validateSize_avoids_order (minimumSize lengthOffset : ℕ) (b : Span) (mem : Memory) :
    (validateSize minimumSize lengthOffset b mem).Avoids OrderFault := by
  simp only [validateSize, Checked.avoids_ite, Checked.avoids_bind, Checked.avoids_pure,
    avoids_readU16, not_orderFault_load, false_imp_iff, implies_true, and_self]

theorem ReliableStream.read_avoids_order (s : ReliableStream) (b : Span) (mem : Memory) :
    (s.read b mem).Avoids OrderFault := by
  have hloop : ∀ (n idx : ℕ) (expected : UInt32),
      (readLoop b mem n idx expected).Avoids OrderFault := by
    intro n
    induction n with
    | zero => exact fun _ _ => Checked.avoids_pure _
    | succ n ih =>
      intro idx expected
      simp only [readLoop, Checked.avoids_bind, avoids_advance, not_orderFault_advance,
        false_imp_iff, true_and]
      refine ⟨validateSize_avoids_order _ _ _ _, ?_⟩
      split
      · exact Checked.avoids_pure _
      · simp only [ReliableMessage.sequenceNumber, ReliableMessage.payload,
          ReliableMessage.length, Checked.avoids_bind, Checked.avoids_ite, Checked.avoids_pure,
          avoids_readU16, avoids_readU32, not_orderFault_load, false_imp_iff, ih, implies_true,
          and_self]
  simp only [read, Segment.managerType, Segment.messageCount, Checked.avoids_ite,
    Checked.avoids_bind, Checked.avoids_pure, avoids_readU8, not_orderFault_load, false_imp_iff,
    hloop, implies_true, and_self]

theorem UnreliableStream.read_avoids_order (b : Span) (mem : Memory) :
    (UnreliableStream.read b mem).Avoids OrderFault := by
  have hloop : ∀ n idx : ℕ, (readLoop b mem n idx).Avoids OrderFault := by
    intro n
    induction n with
    | zero => exact fun _ => Checked.avoids_pure _
    | succ n ih =>
      intro idx
      simp only [readLoop, Checked.avoids_bind, avoids_advance, not_orderFault_advance,
        false_imp_iff, true_and]
      refine ⟨validateSize_avoids_order _ _ _ _, ?_⟩
      split
      · exact Checked.avoids_pure _
      · simp only [UnreliableMessage.payload, UnreliableMessage.length, Checked.avoids_bind,
          Checked.avoids_pure, avoids_readU16, not_orderFault_load, false_imp_iff, ih, and_self]
  simp only [UnreliableStream.read, Segment.managerType, Segment.messageCount,
    Checked.avoids_ite, Checked.avoids_bind, Checked.avoids_pure, avoids_readU8,
    not_orderFault_load, false_imp_iff, hloop, implies_true, and_self]

theorem ConnectionManager.read_avoids_order (c : ConnectionManager) (b : Span) (mem : Memory) :
    (c.read b mem).Avoids OrderFault := by
  have hletsConnect : ∀ b, (c.readLetsConnect b mem).Avoids OrderFault := by
    intro b
    simp only [readLetsConnect, validate, setPeerBandwidthLimit, LetsConnect.maxSendPacketSize,
      LetsConnect.maxReadPacketSize, LetsConnect.maxSendPacketRate,
      LetsConnect.maxReadPacketRate, Checked.avoids_bind, Checked.avoids_ite,
      Checked.avoids_pure, avoids_readU8, avoids_readU16, not_orderFault_load, false_imp_iff,
      implies_true, and_self]
  simp only [read, Segment.managerType, Segment.messageCount, MessageHeader.messageType,
    Checked.avoids_ite, Checked.avoids_bind, Checked.avoids_pure, avoids_readU8, avoids_advance,
    not_orderFault_load, not_orderFault_advance, false_imp_iff, hletsConnect, implies_true,
    and_self]

theorem ConnectionManager.write_avoids_order (c : ConnectionManager) (id : PacketId) (b : Span)
    (mem : Memory) : (c.write id b mem).Avoids OrderFault := by
  simp only [write, writeMessage, Segment.write, MessageHeader.write, LetsConnect.write,
    RejectLetsConnect.write, writeU8, writeU16, Checked.avoids_ite, Checked.avoids_bind,
    Checked.avoids_pure, Checked.avoids_check, avoids_advance,
    avoids_writeUnsigned not_orderFault_store, not_orderFault_advance, false_imp_iff,
    implies_true, and_self, true_and, and_true]
  simp [OrderFault]

theorem UnreliableStream.write_avoids_order (s : UnreliableStream) (b : Span) (mem : Memory) :
    (s.write b mem).Avoids OrderFault := by
  have hmessage : ¬ OrderFault (.assertion .messageSize) := by simp [OrderFault]
  have htotal : ¬ OrderFault (.assertion .totalSize) := by simp [OrderFault]
  have hloop : ∀ (n idx : ℕ) (buffer : FlipBuffer) (pending : List Span) (mem : Memory),
      (writeLoop b n idx buffer pending mem).Avoids OrderFault := by
    intro n
    induction n with
    | zero => exact fun _ _ _ _ => Checked.avoids_pure _
    | succ n ih =>
      intro idx buffer pending mem
      cases pending with
      | nil => exact Checked.avoids_pure _
      | cons payload pending =>
        simp only [writeLoop, UnreliableMessage.write, writeU16, Checked.avoids_bind,
          Checked.avoids_check, Checked.avoids_pure, avoids_advance,
          avoids_writeUnsigned not_orderFault_store, avoids_writeByteArray not_orderFault_store,
          not_orderFault_advance, hmessage, false_imp_iff, ih, and_self]
  simp only [write, Segment.write, writeU8, Checked.avoids_ite, Checked.avoids_bind,
    Checked.avoids_check, Checked.avoids_pure, avoids_writeUnsigned not_orderFault_store, htotal,
    false_imp_iff, hloop, implies_true, and_self]

theorem PacketDeliveryManager.write_avoids_order (m : PacketDeliveryManager) (b : Span)
    (mem : Memory) (now : ℤ) : (m.write b mem now).Avoids OrderFault := by
  refine avoids_write (avoids_nextHeader ?_ m now) (fun h => absurd h not_orderFault_store) mem
  simp [OrderFault]

theorem Ticker.tick_avoids_order (t : Ticker) (now : ℤ) : (t.tick now).Avoids OrderFault := by
  rw [tick]
  dsimp only
  split
  · simp [Checked.avoids_ite, Checked.avoids_bind, Checked.avoids_check, Checked.avoids_pure,
      OrderFault]
  · exact Checked.avoids_pure _

theorem FlipBuffer.advance_avoids_order (f : FlipBuffer) (count : ℕ) :
    (f.advance count).Avoids OrderFault := by
  simp [FlipBuffer.advance, Checked.avoids_bind, Checked.avoids_check, Checked.avoids_pure,
    OrderFault]

theorem ReliableStream.send_avoids_order (s : ReliableStream) (fn : WriteToBufferFn) :
    (s.send fn).Avoids OrderFault := by
  have hsub : ∀ (r : BufferRange) (value : ℕ), (r.sub value).Avoids OrderFault := by
    intro r value
    simp [BufferRange.sub, Checked.avoids_bind, Checked.avoids_check, Checked.avoids_pure,
      OrderFault]
  have hinFlight : ∀ (value : ℕ) (msgs : List InFlightMessage),
      (rebaseInFlight value msgs).Avoids OrderFault := by
    intro value msgs
    induction msgs with
    | nil => exact Checked.avoids_pure _
    | cons msg msgs ih =>
      simp only [rebaseInFlight, Checked.avoids_bind, Checked.avoids_pure, hsub, ih, and_self]
  have hpending : ∀ (value : ℕ) (msgs : List PendingMessage),
      (rebasePending value msgs).Avoids OrderFault := by
    intro value msgs
    induction msgs with
    | nil => exact Checked.avoids_pure _
    | cons msg msgs ih =>
      simp only [rebasePending, Checked.avoids_bind, Checked.avoids_pure, hsub, ih, and_self]
  simp only [send, maybeFlip, Checked.avoids_bind, Checked.avoids_ite, Checked.avoids_pure,
    hinFlight, hpending, FlipBuffer.advance_avoids_order, implies_true, and_self]

theorem UnreliableStream.send_avoids_order (s : UnreliableStream) (fn : WriteToBufferFn) :
    (s.send fn).Avoids OrderFault := by
  simp only [send, Checked.avoids_bind, Checked.avoids_ite, Checked.avoids_pure,
    FlipBuffer.advance_avoids_order, implies_true, and_self]

/-! ### One status -/

/-- A status for the oldest packet: the messages in flight afterwards wait for
later packets, and the assertions hold. -/
theorem ReliableStream.status_tagged (s : ReliableStream) {id : PacketId} {ids : List PacketId}
    (status : PacketDeliveryStatus) (hids : SortedIds UInt32.toNat (id :: ids))
    (htags : Tagged UInt32.toNat (id :: ids) (s.inFlightMessages.map (·.packetId))) :
    Tagged UInt32.toNat ids
        ((s.onPacketDeliveryStatus id status).val.inFlightMessages.map (·.packetId)) ∧
      (s.onPacketDeliveryStatus id status).Avoids OrderFault := by
  cases status with
  | ack =>
    have hmap : (s.inFlightMessages.dropWhile (fun msg => msg.packetId = id)).map (·.packetId)
        = (s.inFlightMessages.map (·.packetId)).dropWhile (fun y => y = id) := by
      rw [List.dropWhile_map]
      rfl
    constructor
    · rw [inFlightMessages_ack, hmap]
      exact htags.resolve hids
    · simp only [onPacketDeliveryStatus, Checked.avoids_bind, Checked.avoids_check]
      refine ⟨avoids_ackLoop (by simp [OrderFault]) _ _ _, fun _ msg hmsg => ?_,
        Checked.avoids_pure _⟩
      -- the messages left behind the loop have later tags
      rw [ackLoop_inFlight] at hmsg
      have hmem : msg.packetId ∈ (s.inFlightMessages.map (·.packetId)).dropWhile
          (fun y => y = id) := by
        rw [← hmap]
        exact List.mem_map_of_mem (List.mem_of_mem_head? hmsg)
      exact UInt32.lt_iff_toNat_lt.mpr (htags.lt_of_mem_dropWhile hids _ hmem)
  | drop =>
    constructor
    · rw [val_drop]
      exact Tagged.nil
    · simp only [onPacketDeliveryStatus, Checked.avoids_bind, Checked.avoids_check]
      refine ⟨fun _ msg hmsg => ?_, Checked.avoids_pure _⟩
      have hmem : msg.packetId ∈ s.inFlightMessages.map (·.packetId) :=
        List.mem_map_of_mem (List.mem_of_mem_head? hmsg)
      exact UInt32.le_iff_toNat_le.mpr (htags.le_of_mem hids hmem)

/-- The same for the queue of handshake packets, which has no two equal ids. -/
theorem ConnectionManager.status_tagged (c : ConnectionManager) {id : PacketId}
    {ids : List PacketId} (status : PacketDeliveryStatus)
    (hids : SortedIds UInt32.toNat (id :: ids))
    (hsorted : SortedIds UInt32.toNat c.inFlightLetsConnect)
    (hqueue : Tagged UInt32.toNat (id :: ids) c.inFlightLetsConnect) :
    Tagged UInt32.toNat ids (c.onPacketStatusDelivery id status).val.inFlightLetsConnect := by
  rcases c.status_cases id status with ⟨hhead, hval⟩ | ⟨-, -, hval⟩ | ⟨hhead, -, hval⟩
  · rw [hval]
    exact hqueue.of_cons (hqueue.notMem_of_head hids hhead)
  · rw [hval]
    exact Tagged.nil
  · rw [hval]
    obtain ⟨tail, hlist⟩ := List.head?_eq_some_iff.mp hhead
    rw [hlist] at hsorted hqueue
    simp only [hlist, List.tail_cons]
    refine (hqueue.of_sublist (List.sublist_cons_self _ _)).of_cons fun hmem => ?_
    exact Nat.lt_irrefl _ ((List.pairwise_cons.mp hsorted).1 id hmem)

theorem ReliableStream.status_sublist (s : ReliableStream) (id : PacketId)
    (status : PacketDeliveryStatus) :
    ((s.onPacketDeliveryStatus id status).val.inFlightMessages.map (·.packetId)).Sublist
      (s.inFlightMessages.map (·.packetId)) := by
  cases status with
  | ack =>
    rw [inFlightMessages_ack]
    exact (List.dropWhile_sublist _).map _
  | drop =>
    rw [val_drop]
    exact List.nil_sublist _

theorem ConnectionManager.status_sublist (c : ConnectionManager) (id : PacketId)
    (status : PacketDeliveryStatus) :
    (c.onPacketStatusDelivery id status).val.inFlightLetsConnect.Sublist
      c.inFlightLetsConnect := by
  rcases c.status_cases id status with ⟨-, hval⟩ | ⟨-, -, hval⟩ | ⟨-, -, hval⟩
  · rw [hval]
  · rw [hval]
    exact List.nil_sublist _
  · rw [hval]
    exact List.tail_sublist _

/-! ### What waits, and for which packets -/

namespace Peer

/-- The packets that the messages in flight went with. -/
def tags (p : Peer) : List PacketId := p.reliableStream.inFlightMessages.map (·.packetId)

/-- The packets that the `LetsConnect`s in flight went with. -/
def queue (p : Peer) : List PacketId := p.connectionManager.inFlightLetsConnect

/-- Whatever waits for a delivery status waits for a packet in flight. -/
def Tracked (p : Peer) : Prop :=
  (∀ msg ∈ p.reliableStream.inFlightMessages, msg.packetId ∈ p.packetDeliveryManager.ids) ∧
    ∀ id ∈ p.connectionManager.inFlightLetsConnect, id ∈ p.packetDeliveryManager.ids

instance (p : Peer) : Decidable p.Tracked := inferInstanceAs (Decidable (_ ∧ _))

/-- The ids are in the order in which they were handed out; at most `count` of
them were. -/
structure Ordered (count : ℕ) (p : Peer) : Prop where
  ids : SortedIds UInt32.toNat p.packetDeliveryManager.ids
  tags : p.tags.Pairwise fun x y => x.toNat ≤ y.toNat
  queue : SortedIds UInt32.toNat p.queue
  lt : ∀ id, id ∈ p.packetDeliveryManager.ids ∨ id ∈ p.tags ∨ id ∈ p.queue →
    id.toNat < p.packetDeliveryManager.nextOutgoingPacketId.toNat
  next_le : p.packetDeliveryManager.nextOutgoingPacketId.toNat ≤ count

variable {p p' : Peer} {count : ℕ}

theorem tracked_iff : p.Tracked ↔
    (∀ id ∈ p.tags, id ∈ p.packetDeliveryManager.ids) ∧
      ∀ id ∈ p.queue, id ∈ p.packetDeliveryManager.ids := by
  rw [Tracked, tags, List.forall_mem_map]
  rfl

theorem Ordered.mono {count' : ℕ} (h : p.Ordered count) (hcount : count ≤ count') :
    p.Ordered count' :=
  ⟨h.ids, h.tags, h.queue, h.lt, Nat.le_trans h.next_le hcount⟩

/-- Packets are resolved, and waiting for them ends. -/
theorem Ordered.shrink (h : p.Ordered count)
    (hids : p'.packetDeliveryManager.ids.Sublist p.packetDeliveryManager.ids)
    (htags : p'.tags.Sublist p.tags) (hqueue : p'.queue.Sublist p.queue)
    (hnext : p'.packetDeliveryManager.nextOutgoingPacketId
      = p.packetDeliveryManager.nextOutgoingPacketId) : p'.Ordered count := by
  refine ⟨h.ids.sublist hids, h.tags.sublist htags, h.queue.sublist hqueue, ?_, ?_⟩
  · intro id hid
    rw [hnext]
    refine h.lt id ?_
    rcases hid with hid | hid | hid
    · exact Or.inl (hids.subset hid)
    · exact Or.inr (Or.inl (htags.subset hid))
    · exact Or.inr (Or.inr (hqueue.subset hid))
  · rw [hnext]
    exact h.next_le

/-- The state of a peer that has just been created. -/
theorem ordered_createPeer (n : Endpoint) (id : PacketId) (now : ℤ) :
    (n.createPeer id now).Ordered count where
  ids := List.Pairwise.nil
  tags := List.Pairwise.nil
  queue := List.Pairwise.nil
  lt := by
    intro id hid
    rcases hid with hid | hid | hid <;> cases hid
  next_le := Nat.zero_le _

theorem tracked_createPeer (n : Endpoint) (id : PacketId) (now : ℤ) :
    (n.createPeer id now).Tracked := by
  constructor <;> intro x hx <;> cases hx

/-! ### All statuses of a call -/

theorem processDeliveryStatuses_frame (p : Peer) (statuses : DeliveryStatuses) :
    (p.processDeliveryStatuses statuses).val.packetDeliveryManager = p.packetDeliveryManager ∧
      (p.processDeliveryStatuses statuses).val.tags.Sublist p.tags ∧
      (p.processDeliveryStatuses statuses).val.queue.Sublist p.queue := by
  induction statuses generalizing p with
  | nil => exact ⟨rfl, List.Sublist.refl _, List.Sublist.refl _⟩
  | cons s statuses ih =>
    obtain ⟨id, status⟩ := s
    simp only [processDeliveryStatuses, Checked.val_bind]
    obtain ⟨hdelivery, htags, hqueue⟩ := ih { p with
      connectionManager := (p.connectionManager.onPacketStatusDelivery id status).val
      reliableStream := (p.reliableStream.onPacketDeliveryStatus id status).val }
    exact ⟨hdelivery, htags.trans (ReliableStream.status_sublist _ _ _),
      hqueue.trans (ConnectionManager.status_sublist _ _ _)⟩

/-- **Statuses in the order of the tags.**  When the oldest packets are resolved
and their statuses are processed, what goes on waiting waits for the packets
`rest` that are left. -/
theorem processDeliveryStatuses_tagged (p : Peer) (statuses : DeliveryStatuses)
    {rest : List PacketId} (hids : SortedIds UInt32.toNat (statuses.map Prod.fst ++ rest))
    (htags : Tagged UInt32.toNat (statuses.map Prod.fst ++ rest) p.tags)
    (hsorted : SortedIds UInt32.toNat p.queue)
    (hqueue : Tagged UInt32.toNat (statuses.map Prod.fst ++ rest) p.queue) :
    Tagged UInt32.toNat rest (p.processDeliveryStatuses statuses).val.tags ∧
      Tagged UInt32.toNat rest (p.processDeliveryStatuses statuses).val.queue ∧
      (p.processDeliveryStatuses statuses).Avoids OrderFault := by
  induction statuses generalizing p with
  | nil => exact ⟨htags, hqueue, Checked.avoids_pure _⟩
  | cons s statuses ih =>
    obtain ⟨id, status⟩ := s
    simp only [List.map_cons, List.cons_append] at hids htags hqueue
    obtain ⟨htags', hsafe⟩ := p.reliableStream.status_tagged status hids htags
    have hqueue' := p.connectionManager.status_tagged status hids hsorted hqueue
    obtain ⟨h1, h2, h3⟩ := ih { p with
      connectionManager := (p.connectionManager.onPacketStatusDelivery id status).val
      reliableStream := (p.reliableStream.onPacketDeliveryStatus id status).val }
      (List.pairwise_cons.mp hids).2 htags'
      (hsorted.sublist (ConnectionManager.status_sublist _ _ _)) hqueue'
    refine ⟨h1, h2, ?_⟩
    rw [processDeliveryStatuses, Checked.avoids_bind, Checked.avoids_bind]
    exact ⟨ConnectionManager.avoids_status (by simp [OrderFault]) _ _ _, hsafe, h3⟩

/-- The same for a peer whose delivery manager has just resolved the packets of
the statuses. -/
theorem Ordered.processDeliveryStatuses (h : p.Ordered count) (htracked : p.Tracked)
    {m : PacketDeliveryManager} {statuses : DeliveryStatuses}
    (hids : statuses.map Prod.fst ++ m.ids = p.packetDeliveryManager.ids) :
    (Peer.processDeliveryStatuses { p with packetDeliveryManager := m } statuses).val.Tracked ∧
      (Peer.processDeliveryStatuses { p with packetDeliveryManager := m }
        statuses).Avoids OrderFault := by
  obtain ⟨htags, hqueue⟩ := tracked_iff.mp htracked
  have hqueueSorted : p.queue.Pairwise fun x y => x.toNat ≤ y.toNat :=
    h.queue.imp fun hlt => Nat.le_of_lt hlt
  have hdelivery := (Peer.processDeliveryStatuses_frame { p with packetDeliveryManager := m }
    statuses).1
  obtain ⟨htags', hqueue', hsafe⟩ := Peer.processDeliveryStatuses_tagged
    { p with packetDeliveryManager := m } statuses (hids ▸ h.ids) ⟨h.tags, hids ▸ htags⟩ h.queue
    ⟨hqueueSorted, hids ▸ hqueue⟩
  refine ⟨tracked_iff.mpr ?_, hsafe⟩
  rw [hdelivery]
  exact ⟨htags'.mem, hqueue'.mem⟩

theorem Ordered.resolve (h : p.Ordered count) {m : PacketDeliveryManager}
    {statuses : DeliveryStatuses}
    (hids : statuses.map Prod.fst ++ m.ids = p.packetDeliveryManager.ids)
    (hnext : m.nextOutgoingPacketId = p.packetDeliveryManager.nextOutgoingPacketId) :
    (Peer.processDeliveryStatuses { p with packetDeliveryManager := m }
      statuses).val.Ordered count := by
  obtain ⟨hdelivery, htags, hqueue⟩ := Peer.processDeliveryStatuses_frame
    { p with packetDeliveryManager := m } statuses
  refine h.shrink ?_ htags hqueue ?_
  · rw [hdelivery, ← hids]
    exact List.sublist_append_right _ _
  · rw [hdelivery]
    exact hnext

/-! ### Timeouts -/

theorem val_dropOldPackets (p : Peer) (now : ℤ) :
    (p.dropOldPackets now).val.1 = (Peer.processDeliveryStatuses
      { p with packetDeliveryManager := (p.packetDeliveryManager.dropOldPackets now).1 }
      (p.packetDeliveryManager.dropOldPackets now).2).val := (rfl)

theorem Ordered.dropOldPackets (h : p.Ordered count) (now : ℤ) :
    (p.dropOldPackets now).val.1.Ordered count := by
  rw [val_dropOldPackets]
  exact h.resolve (p.packetDeliveryManager.dropOldPackets_ids now) rfl

/-- The statuses of packets that timed out are always processed. -/
theorem Ordered.dropOldPackets_tracked (h : p.Ordered count) (htracked : p.Tracked) (now : ℤ) :
    (p.dropOldPackets now).val.1.Tracked ∧ (p.dropOldPackets now).Avoids OrderFault := by
  obtain ⟨htracked', hsafe⟩ := h.processDeliveryStatuses htracked
    (p.packetDeliveryManager.dropOldPackets_ids now)
  refine ⟨htracked', ?_⟩
  rw [Peer.dropOldPackets, Checked.avoids_bind]
  exact ⟨hsafe, Checked.avoids_pure _⟩

end Peer

/-! ### Reading -/

/-- The packets in flight that the acknowledgements of a header resolve. -/
def PacketDeliveryManager.resolvedBy (m : PacketDeliveryManager) (header : PacketHeader) :
    List PacketId :=
  match mostSignificantBit header.ackBitmask with
  | none => []
  | some msb => m.ids.takeWhile fun id => id ≤ header.ackSequenceNumber + msb

theorem PacketDeliveryManager.processRead_resolved (m : PacketDeliveryManager)
    (header : PacketHeader) :
    (m.processRead header).val.2.2.1.map Prod.fst = m.resolvedBy header := by
  rw [processRead_statuses, processAcks, resolvedBy]
  cases mostSignificantBit header.ackBitmask with
  | none => rfl
  | some msb =>
    simp only [Checked.val_bind, Checked.val_pure, val_processAcksLoop, List.map_map, ids,
      List.takeWhile_map]
    rfl

theorem ConnectionManager.received_queue (c : ConnectionManager) (limit : BandwidthLimit) :
    (c.received limit).inFlightLetsConnect = c.inFlightLetsConnect := by
  rw [received]
  split <;> rfl

theorem ConnectionManager.read_queue (c : ConnectionManager) (b : Span) (mem : Memory) :
    (c.read b mem).val.1.inFlightLetsConnect = c.inFlightLetsConnect := by
  rw [val_read]
  split_ifs
  · rfl
  · rfl
  · exact received_queue _ _
  · rfl
  · rfl

theorem ReliableStream.read_inFlight (s : ReliableStream) (b : Span) (mem : Memory) :
    (s.read b mem).val.1.inFlightMessages = s.inFlightMessages := by
  rw [read]
  split
  · rfl
  · simp only [Checked.val_bind, Checked.val_ite]
    split <;> rfl

namespace Peer

variable {p p' : Peer} {count : ℕ}

theorem readStreams_frame (config : ConnectionManagerConfig) (p : Peer) (limit : BandwidthLimit)
    (b : Span) (mem : Memory) (report : ReadReport) :
    (readStreams config p limit b mem report).val.1.packetDeliveryManager
        = p.packetDeliveryManager ∧
      (readStreams config p limit b mem report).val.1.tags = p.tags ∧
      (readStreams config p limit b mem report).val.1.queue = p.queue := by
  have hrate : ∀ rate, (p.updateSendRate rate).packetDeliveryManager = p.packetDeliveryManager ∧
      (p.updateSendRate rate).tags = p.tags ∧ (p.updateSendRate rate).queue = p.queue ∧
      (p.updateSendRate rate).reliableStream = p.reliableStream := by
    intro rate
    rw [updateSendRate]
    split <;> exact ⟨rfl, rfl, rfl, rfl⟩
  rw [readStreams]
  generalize hq : (if limit.maxReadPacketRate = 0 then _ else _ : Peer) = q
  have hframe : q.packetDeliveryManager = p.packetDeliveryManager ∧ q.tags = p.tags ∧
      q.queue = p.queue ∧ q.reliableStream = p.reliableStream := by
    rw [← hq]
    split_ifs <;> exact hrate _
  obtain ⟨hdelivery, htags, hqueue, -⟩ := hframe
  have hinFlight : ({ q with reliableStream := (q.reliableStream.read b mem).val.1 } : Peer).tags
      = p.tags := by
    rw [← htags, tags, tags, ReliableStream.read_inFlight]
  simp only [Checked.val_bind]
  split
  · exact ⟨hdelivery, hinFlight, hqueue⟩
  · simp only [Checked.val_bind]
    split <;> exact ⟨hdelivery, hinFlight, hqueue⟩

/-- The stages behind the packet delivery manager leave alone what waits. -/
theorem readConnection_frame (config : ConnectionManagerConfig) (p : Peer) (b : Span)
    (mem : Memory) (report : ReadReport) :
    (readConnection config p b mem report).val.1.packetDeliveryManager
        = p.packetDeliveryManager ∧
      (readConnection config p b mem report).val.1.tags = p.tags ∧
      (readConnection config p b mem report).val.1.queue = p.queue := by
  rw [readConnection]
  simp only [Checked.val_bind]
  have hqueue : ({ p with connectionManager := (p.connectionManager.read b mem).val.1 } :
      Peer).queue = p.queue := p.connectionManager.read_queue b mem
  split
  · exact ⟨rfl, rfl, hqueue⟩
  · simp only [Checked.val_bind]
    split
    · exact ⟨rfl, rfl, hqueue⟩
    · obtain ⟨hdelivery, htags, hqueue'⟩ := readStreams_frame config
        { p with connectionManager := (p.connectionManager.read b mem).val.1 } _ _ mem report
      exact ⟨hdelivery, htags, hqueue'.trans hqueue⟩

/-- The statuses that come with the header reach everything that waits for
them: if the packet is too old to be read, nothing does. -/
def Forwards (p : Peer) (header : PacketHeader) : Prop :=
  header.id < p.packetDeliveryManager.nextExpectedPacketId →
    ∀ id ∈ p.packetDeliveryManager.resolvedBy header, id ∉ p.tags ∧ id ∉ p.queue

instance (p : Peer) (header : PacketHeader) : Decidable (p.Forwards header) :=
  inferInstanceAs (Decidable (_ → _))

theorem Ordered.read (h : p.Ordered count) (config : ConnectionManagerConfig) (b : Span)
    (mem : Memory) : (Peer.read config p b mem).val.1.Ordered count := by
  have hids := p.packetDeliveryManager.processRead_ids (PacketHeader.read b mem).val
  have hnext := p.packetDeliveryManager.processRead_nextOutgoing (PacketHeader.read b mem).val
  rcases read_cases config p b mem with ⟨-, hval⟩ | ⟨-, hval⟩
  · rw [hval]
    refine h.shrink ?_ (List.Sublist.refl _) (List.Sublist.refl _) hnext
    rw [← hids]
    exact List.sublist_append_right _ _
  · rw [hval]
    obtain ⟨hdelivery, htags, hqueue⟩ := readConnection_frame config (Peer.processDeliveryStatuses
      { p with packetDeliveryManager := (p.packetDeliveryManager.processRead
        (PacketHeader.read b mem).val).val.1 } (p.packetDeliveryManager.processRead
        (PacketHeader.read b mem).val).val.2.2.1).val ⟨b.off + 12, usizeSub b.size 12⟩ mem
        ⟨(PacketHeader.read b mem).val.id, true, (p.packetDeliveryManager.processRead
          (PacketHeader.read b mem).val).val.2.2.1, none, [], []⟩
    refine (h.resolve hids hnext).shrink ?_ ?_ ?_ ?_
    · rw [hdelivery]
    · rw [htags]
    · rw [hqueue]
    · rw [hdelivery]

/-- **A status is lost** exactly if an old packet resolves something that is
waited for. -/
theorem read_tracked_iff (h : p.Ordered count) (htracked : p.Tracked)
    (config : ConnectionManagerConfig) (b : Span) (mem : Memory) :
    (read config p b mem).val.1.Tracked ↔ p.Forwards (PacketHeader.read b mem).val := by
  have hids := p.packetDeliveryManager.processRead_ids (PacketHeader.read b mem).val
  rcases read_cases config p b mem with ⟨hlt, hval⟩ | ⟨hnlt, hval⟩
  · -- the packets are resolved, and everything else stays as it is
    rw [hval, tracked_iff, Forwards]
    rw [PacketDeliveryManager.processRead_resolved] at hids
    obtain ⟨htags, hqueue⟩ := tracked_iff.mp htracked
    have hsorted := h.ids
    rw [← hids] at hsorted htags hqueue
    have hsplit : ∀ id, id ∈ p.packetDeliveryManager.resolvedBy (PacketHeader.read b mem).val →
        id ∉ (p.packetDeliveryManager.processRead (PacketHeader.read b mem).val).val.1.ids := by
      intro id hid hrest
      exact Nat.lt_irrefl _ ((List.pairwise_append.mp hsorted).2.2 id hid id hrest)
    constructor
    · rintro ⟨htags', hqueue'⟩ - id hid
      exact ⟨fun hmem => hsplit id hid (htags' id hmem),
        fun hmem => hsplit id hid (hqueue' id hmem)⟩
    · intro hforwards
      refine ⟨fun id hid => ?_, fun id hid => ?_⟩
      · exact (List.mem_append.mp (htags id hid)).resolve_left
          fun hmem => (hforwards hlt id hmem).1 hid
      · exact (List.mem_append.mp (hqueue id hid)).resolve_left
          fun hmem => (hforwards hlt id hmem).2 hid
  · rw [hval, tracked_iff]
    obtain ⟨hdelivery, htags, hqueue⟩ := readConnection_frame config (Peer.processDeliveryStatuses
      { p with packetDeliveryManager := (p.packetDeliveryManager.processRead
        (PacketHeader.read b mem).val).val.1 } (p.packetDeliveryManager.processRead
        (PacketHeader.read b mem).val).val.2.2.1).val ⟨b.off + 12, usizeSub b.size 12⟩ mem
        ⟨(PacketHeader.read b mem).val.id, true, (p.packetDeliveryManager.processRead
          (PacketHeader.read b mem).val).val.2.2.1, none, [], []⟩
    rw [hdelivery, htags, hqueue, ← tracked_iff]
    refine iff_of_true (h.processDeliveryStatuses htracked hids).1 fun hlt => ?_
    exact absurd hlt hnlt

/-! ### Writing -/

/-- A written packet takes the next id, and what is sent with it is tagged with
this id. -/
theorem writeToPeer_frame (p : Peer) (mem : Memory) (now : ℤ) (maxSendPacketSize : UInt16) :
    let p' := (p.writeToPeer mem now maxSendPacketSize).val.1
    let id := p.packetDeliveryManager.nextOutgoingPacketId
    p'.packetDeliveryManager = (p.packetDeliveryManager.nextHeader now).val.1 ∧
      (∃ new, p'.tags = p.tags ++ new ∧ ∀ x ∈ new, x = id) ∧
      ∃ new, p'.queue = p.queue ++ new ∧ new.Sublist [id] := by
  intro p' id
  have hheader : (PacketHeader.readId ⟨0, 12⟩ (mem.storeList 0
      (p.packetDeliveryManager.nextHeader now).val.2.encode)).val = id := by
    rw [PacketHeader.readId_storeList, PacketDeliveryManager.nextHeader_id]
  have hdelivery : p'.packetDeliveryManager
      = (p.packetDeliveryManager.nextHeader now).val.1 := by
    simp only [p', writeToPeer, Checked.val_bind, Checked.val_pure,
      PacketDeliveryManager.val_write]
  -- both stages are handed the id that the header was written with
  have hstages : ∃ b1 b2 mem1 mem2,
      p'.connectionManager = (p.connectionManager.write id b1 mem1).val.1 ∧
      p'.reliableStream = (p.reliableStream.write id b2 mem2).val.1 := by
    simp only [p', writeToPeer, Checked.val_bind, Checked.val_pure,
      PacketDeliveryManager.val_write, hheader]
    exact ⟨_, _, _, _, rfl, rfl⟩
  obtain ⟨b1, b2, mem1, mem2, hconnection, hstream⟩ := hstages
  refine ⟨hdelivery, ?_, ?_⟩
  · refine ⟨(p.reliableStream.pendingMessages.take (p.reliableStream.fitCount b2.size)).map
      fun _ => id, ?_, ?_⟩
    · rw [tags, hstream, ReliableStream.write_state, List.map_append, List.map_map]
      rfl
    · intro x hx
      obtain ⟨msg, -, rfl⟩ := List.mem_map.mp hx
      rfl
  · rw [queue, hconnection, ConnectionManager.write_state]
    split
    · exact ⟨[id], rfl, List.Sublist.refl _⟩
    · exact ⟨[], (List.append_nil _).symm, List.nil_sublist _⟩

theorem Ordered.writeToPeer (h : p.Ordered count) (hcount : count + 1 < 2 ^ 32) (mem : Memory)
    (now : ℤ) (size : UInt16) : (p.writeToPeer mem now size).val.1.Ordered (count + 1) := by
  obtain ⟨hdelivery, ⟨tags, htags, hnew⟩, ⟨queue, hqueue, hsub⟩⟩ :=
    writeToPeer_frame p mem now size
  have hframe := p.packetDeliveryManager.nextHeader_frame now
  -- fewer than `2 ^ 32` packets have been sent, so the id does not wrap
  have hnext : (p.packetDeliveryManager.nextOutgoingPacketId + 1).toNat
      = p.packetDeliveryManager.nextOutgoingPacketId.toNat + 1 := by
    have := h.next_le
    rw [UInt32.toNat_add, UInt32.toNat_one]
    exact Nat.mod_eq_of_lt (by omega)
  have hids : (p.packetDeliveryManager.nextHeader now).val.1.ids
      = p.packetDeliveryManager.ids ++ [p.packetDeliveryManager.nextOutgoingPacketId] := by
    rw [hframe]
    simp [PacketDeliveryManager.ids]
  have hqueue_new : ∀ x ∈ queue, x = p.packetDeliveryManager.nextOutgoingPacketId := by
    intro x hx
    exact List.mem_singleton.mp (hsub.subset hx)
  constructor
  · rw [hdelivery, hids]
    exact SortedIds.append_new h.ids fun y hy => h.lt y (Or.inl hy)
  · rw [htags]
    -- the tags of one packet are equal, those of earlier packets smaller
    refine List.pairwise_append.mpr ⟨h.tags, ?_, fun x hx y hy => ?_⟩
    · refine List.pairwise_of_forall_mem_list fun x hx y hy => ?_
      rw [hnew x hx, hnew y hy]
    · rw [hnew y hy]
      exact Nat.le_of_lt (h.lt x (Or.inr (Or.inl hx)))
  · rw [hqueue]
    refine List.pairwise_append.mpr ⟨h.queue, ?_, fun x hx y hy => ?_⟩
    · exact (List.pairwise_singleton _ _).sublist hsub
    · rw [hqueue_new y hy]
      exact h.lt x (Or.inr (Or.inr hx))
  · -- every id is an old one or the new one
    intro id hid
    rw [hdelivery, hids, htags, hqueue, List.mem_append, List.mem_append, List.mem_append,
      List.mem_singleton] at hid
    have hold : id = p.packetDeliveryManager.nextOutgoingPacketId ∨
        (id ∈ p.packetDeliveryManager.ids ∨ id ∈ p.tags ∨ id ∈ p.queue) := by
      rcases hid with (hid | hid) | (hid | hid) | (hid | hid)
      · exact Or.inr (Or.inl hid)
      · exact Or.inl hid
      · exact Or.inr (Or.inr (Or.inl hid))
      · exact Or.inl (hnew id hid)
      · exact Or.inr (Or.inr (Or.inr hid))
      · exact Or.inl (hqueue_new id hid)
    rw [hdelivery, hframe]
    simp only [hnext]
    rcases hold with rfl | hold
    · exact Nat.lt_succ_self _
    · exact Nat.lt_succ_of_lt (h.lt id hold)
  · rw [hdelivery, hframe]
    simp only [hnext]
    exact Nat.succ_le_succ h.next_le

/-- A write neither loses nor repairs anything. -/
theorem Ordered.writeToPeer_tracked (h : p.Ordered count) (mem : Memory) (now : ℤ)
    (size : UInt16) : (p.writeToPeer mem now size).val.1.Tracked ↔ p.Tracked := by
  obtain ⟨hdelivery, ⟨tags, htags, hnew⟩, ⟨queue, hqueue, hsub⟩⟩ :=
    writeToPeer_frame p mem now size
  have hids : ∀ id, id ∈ (p.writeToPeer mem now size).val.1.packetDeliveryManager.ids ↔
      id ∈ p.packetDeliveryManager.ids ∨ id = p.packetDeliveryManager.nextOutgoingPacketId := by
    intro id
    rw [hdelivery, p.packetDeliveryManager.nextHeader_frame now]
    simp [PacketDeliveryManager.ids]
  rw [tracked_iff, tracked_iff, htags, hqueue]
  constructor
  · rintro ⟨htags', hqueue'⟩
    -- the new id is none of the old ones
    refine ⟨fun id hid => ?_, fun id hid => ?_⟩
    · refine ((hids id).mp (htags' id (List.mem_append_left _ hid))).resolve_right ?_
      rintro rfl
      exact Nat.lt_irrefl _ (h.lt _ (Or.inr (Or.inl hid)))
    · refine ((hids id).mp (hqueue' id (List.mem_append_left _ hid))).resolve_right ?_
      rintro rfl
      exact Nat.lt_irrefl _ (h.lt _ (Or.inr (Or.inr hid)))
  · rintro ⟨htags', hqueue'⟩
    refine ⟨fun id hid => ?_, fun id hid => ?_⟩
    · rcases List.mem_append.mp hid with hid | hid
      · exact (hids id).mpr (Or.inl (htags' id hid))
      · exact (hids id).mpr (Or.inr (hnew id hid))
    · rcases List.mem_append.mp hid with hid | hid
      · exact (hids id).mpr (Or.inl (hqueue' id hid))
      · exact (hids id).mpr (Or.inr (List.mem_singleton.mp (hsub.subset hid)))

theorem Ordered.write (h : p.Ordered count) (config : ConnectionManagerConfig) (mem : Memory)
    (now : ℤ)
    (hcount : count + (Peer.write config p mem now).val.2.2.toList.length < 2 ^ 32) :
    (Peer.write config p mem now).val.1.Ordered
      (count + (Peer.write config p mem now).val.2.2.toList.length) := by
  have hticked : Ordered count { p with
      sendPacketTicker := (p.sendPacketTicker.tick now).val.1 } :=
    ⟨h.ids, h.tags, h.queue, h.lt, h.next_le⟩
  rcases write_cases config p mem now with hval | ⟨-, hval⟩
  · rw [hval]
    exact hticked
  · rw [hval] at hcount ⊢
    dsimp only
    exact hticked.writeToPeer hcount mem now _

theorem Ordered.write_tracked (h : p.Ordered count) (config : ConnectionManagerConfig)
    (mem : Memory) (now : ℤ) : (Peer.write config p mem now).val.1.Tracked ↔ p.Tracked := by
  have hticked : Ordered count { p with
      sendPacketTicker := (p.sendPacketTicker.tick now).val.1 } :=
    ⟨h.ids, h.tags, h.queue, h.lt, h.next_le⟩
  rcases write_cases config p mem now with hval | ⟨-, hval⟩
  · rw [hval]
    rfl
  · rw [hval]
    dsimp only
    exact hticked.writeToPeer_tracked mem now _

/-! ### The assertions in a whole call -/

theorem readStreams_avoids_order (config : ConnectionManagerConfig) (p : Peer)
    (limit : BandwidthLimit) (b : Span) (mem : Memory) (report : ReadReport) :
    (readStreams config p limit b mem report).Avoids OrderFault := by
  rw [readStreams, Checked.avoids_bind]
  refine ⟨ReliableStream.read_avoids_order _ _ _, ?_⟩
  dsimp only
  split
  · exact Checked.avoids_pure _
  · rw [Checked.avoids_bind, Checked.avoids_bind, avoids_advance]
    refine ⟨fun h => absurd h not_orderFault_advance, UnreliableStream.read_avoids_order _ _, ?_⟩
    split
    · exact Checked.avoids_pure _
    · rw [Checked.avoids_bind, avoids_advance]
      exact ⟨fun h => absurd h not_orderFault_advance, Checked.avoids_pure _⟩

theorem readConnection_avoids_order (config : ConnectionManagerConfig) (p : Peer) (b : Span)
    (mem : Memory) (report : ReadReport) :
    (readConnection config p b mem report).Avoids OrderFault := by
  rw [readConnection, Checked.avoids_bind]
  refine ⟨ConnectionManager.read_avoids_order _ _ _, ?_⟩
  dsimp only
  split
  · exact Checked.avoids_pure _
  · rw [Checked.avoids_bind, avoids_advance]
    refine ⟨fun h => absurd h not_orderFault_advance, ?_⟩
    split
    · exact Checked.avoids_pure _
    · exact readStreams_avoids_order _ _ _ _ _ _

theorem Ordered.read_avoids_order (h : p.Ordered count) (htracked : p.Tracked)
    (config : ConnectionManagerConfig) (b : Span) (mem : Memory) :
    (Peer.read config p b mem).Avoids OrderFault := by
  have hheader : (PacketHeader.read b mem).Avoids OrderFault := by
    simp only [PacketHeader.read, PacketHeader.readId, PacketHeader.readAckSequenceNumber,
      PacketHeader.readAckBitmask, Checked.avoids_bind, Checked.avoids_pure, avoids_readU32,
      not_orderFault_load, false_imp_iff, and_self]
  obtain ⟨-, hsafe⟩ := h.processDeliveryStatuses htracked
    (p.packetDeliveryManager.processRead_ids (PacketHeader.read b mem).val)
  rw [Peer.read, Checked.avoids_bind]
  refine ⟨hheader, ?_⟩
  rw [Checked.avoids_bind]
  refine ⟨PacketDeliveryManager.avoids_processRead (by simp [OrderFault]) (by simp [OrderFault])
    _ _, ?_⟩
  dsimp only
  rw [Checked.avoids_ite]
  refine ⟨fun _ => Checked.avoids_pure _, fun _ => ?_⟩
  rw [Checked.avoids_bind, Checked.avoids_bind, avoids_advance]
  exact ⟨fun h => absurd h not_orderFault_advance, hsafe, readConnection_avoids_order _ _ _ _ _⟩

theorem write_avoids_order (config : ConnectionManagerConfig) (p : Peer) (mem : Memory)
    (now : ℤ) : (write config p mem now).Avoids OrderFault := by
  have hid : ∀ b mem, (PacketHeader.readId b mem).Avoids OrderFault := by
    intro b mem
    rw [PacketHeader.readId, avoids_readU32]
    exact fun h => absurd h not_orderFault_load
  have hadvance : ∀ b count, (advance b count).Avoids OrderFault := by
    intro b count
    rw [avoids_advance]
    exact fun h => absurd h not_orderFault_advance
  have hreliable : ∀ (s : ReliableStream) id b mem, (s.write id b mem).Avoids OrderFault :=
    ReliableStream.avoids_write not_orderFault_store not_orderFault_advance
      (by simp [OrderFault]) (by simp [OrderFault])
  simp only [write, writeToPeer, Checked.avoids_bind, Checked.avoids_ite, Checked.avoids_pure,
    Ticker.tick_avoids_order, PacketDeliveryManager.write_avoids_order, hid, hadvance,
    ConnectionManager.write_avoids_order, hreliable, UnreliableStream.write_avoids_order,
    implies_true, and_self]

end Peer

end Neptun
