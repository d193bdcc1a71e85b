/-
Which obligations an endpoint can break.

Every check of the source, and every precondition of what it calls, is a `Fault` of the
model.  The lemmas of this module say for each stage which faults it can have at all;
the invariants of the entries rule out most of them, whatever the datagrams are.

* `Endpoint.avoids_tick` — the faults of a tick are those of its entries;
* `faults_of_any_datagrams` — what is left for the calls of any run.
-/
import Neptun.FormatAgreement
import Neptun.Parsing
import Neptun.Resolution
import Neptun.StatusRouting
import Neptun.TickerSafety

namespace Neptun

section

variable {bad : Fault → Prop}

/-! ### Reading -/

/-- A stage that reads only loads bytes and advances. -/
theorem validateSize_avoids (hload : ¬ bad .load) (minimumSize lengthOffset : ℕ) (b : Span)
    (mem : Memory) : (validateSize minimumSize lengthOffset b mem).Avoids bad := by
  simp only [validateSize, Checked.avoids_ite, Checked.avoids_bind, Checked.avoids_pure,
    avoids_readU16, hload, false_imp_iff, implies_true, and_self]

theorem ReliableStream.avoids_read (hload : ¬ bad .load) (hadvance : ¬ bad .advance)
    (s : ReliableStream) (b : Span) (mem : Memory) : (s.read b mem).Avoids bad := by
  have hloop : ∀ (n idx : ℕ) (expected : UInt32),
      (readLoop b mem n idx expected).Avoids bad := by
    intro n
    induction n with
    | zero => exact fun _ _ => Checked.avoids_pure _
    | succ n ih =>
      intro idx expected
      simp only [readLoop, Checked.avoids_bind, avoids_advance, hadvance, false_imp_iff, true_and]
      refine ⟨validateSize_avoids hload _ _ _ _, ?_⟩
      split
      · exact Checked.avoids_pure _
      · simp only [ReliableMessage.sequenceNumber, ReliableMessage.payload,
          ReliableMessage.length, Checked.avoids_bind, Checked.avoids_ite, Checked.avoids_pure,
          avoids_readU16, avoids_readU32, hload, false_imp_iff, ih, implies_true, and_self]
  simp only [read, Segment.managerType, Segment.messageCount, Checked.avoids_ite,
    Checked.avoids_bind, Checked.avoids_pure, avoids_readU8, hload, false_imp_iff, hloop,
    implies_true, and_self]

theorem UnreliableStream.avoids_read (hload : ¬ bad .load) (hadvance : ¬ bad .advance) (b : Span)
    (mem : Memory) : (UnreliableStream.read b mem).Avoids bad := by
  have hloop : ∀ n idx : ℕ, (readLoop b mem n idx).Avoids bad := by
    intro n
    induction n with
    | zero => exact fun _ => Checked.avoids_pure _
    | succ n ih =>
      intro idx
      simp only [readLoop, Checked.avoids_bind, avoids_advance, hadvance, false_imp_iff, true_and]
      refine ⟨validateSize_avoids hload _ _ _ _, ?_⟩
      split
      · exact Checked.avoids_pure _
      · simp only [UnreliableMessage.payload, UnreliableMessage.length, Checked.avoids_bind,
          Checked.avoids_pure, avoids_readU16, hload, false_imp_iff, ih, and_self]
  simp only [UnreliableStream.read, Segment.managerType, Segment.messageCount,
    Checked.avoids_ite, Checked.avoids_bind, Checked.avoids_pure, avoids_readU8, hload,
    false_imp_iff, hloop, implies_true, and_self]

theorem ConnectionManager.avoids_read_of (hload : ¬ bad .load) (hadvance : ¬ bad .advance)
    (c : ConnectionManager) (b : Span) (mem : Memory) : (c.read b mem).Avoids bad := by
  simp only [read, readLetsConnect, validate, setPeerBandwidthLimit, Segment.managerType,
    Segment.messageCount, MessageHeader.messageType, LetsConnect.maxSendPacketSize,
    LetsConnect.maxReadPacketSize, LetsConnect.maxSendPacketRate,
    LetsConnect.maxReadPacketRate, Checked.avoids_ite, Checked.avoids_bind, Checked.avoids_pure,
    avoids_readU8, avoids_readU16, avoids_advance, hload, hadvance, false_imp_iff, implies_true,
    and_self]

/-! ### Writing -/

theorem ConnectionManager.avoids_write (hstore : ¬ bad .store) (hadvance : ¬ bad .advance)
    (hsize : ¬ bad (.assertion .handshakeSize)) (c : ConnectionManager) (id : PacketId) (b : Span)
    (mem : Memory) : (c.write id b mem).Avoids bad := by
  simp only [write, writeMessage, Segment.write, MessageHeader.write, LetsConnect.write,
    RejectLetsConnect.write, writeU8, writeU16, Checked.avoids_ite, Checked.avoids_bind,
    Checked.avoids_pure, Checked.avoids_check, avoids_advance, avoids_writeUnsigned hstore,
    hadvance, hsize, false_imp_iff, implies_true, and_self]

theorem UnreliableStream.avoids_write (hstore : ¬ bad .store) (hadvance : ¬ bad .advance)
    (hmessage : ¬ bad (.assertion .messageSize)) (htotal : ¬ bad (.assertion .totalSize))
    (s : UnreliableStream) (b : Span) (mem : Memory) : (s.write b mem).Avoids bad := by
  have hloop : ∀ (n idx : ℕ) (buffer : FlipBuffer) (pending : List Span) (mem : Memory),
      (writeLoop b n idx buffer pending mem).Avoids bad := by
    intro n
    induction n with
    | zero => exact fun _ _ _ _ => Checked.avoids_pure _
    | succ n ih =>
      intro idx buffer pending mem
      cases pending with
      | nil => exact Checked.avoids_pure _
      | cons payload pending =>
        simp only [writeLoop, UnreliableMessage.write, writeU16, Checked.avoids_bind,
          Checked.avoids_check, Checked.avoids_pure, avoids_advance,
          avoids_writeUnsigned hstore, avoids_writeByteArray hstore, hadvance, hmessage,
          false_imp_iff, ih, and_self]
  simp only [write, Segment.write, writeU8, Checked.avoids_ite, Checked.avoids_bind,
    Checked.avoids_check, Checked.avoids_pure, avoids_writeUnsigned hstore, htotal,
    false_imp_iff, hloop, implies_true, and_self]

/-- A write can break what choosing the header can, and what the ticker can, and the
obligations of building the packet. -/
theorem Peer.avoids_write (hbuild : ∀ f, BuildFault f → ¬ bad f) {p : Peer} {now : ℤ}
    (htick : (p.sendPacketTicker.tick now).Avoids bad)
    (hheader : (p.packetDeliveryManager.nextHeader now).Avoids bad)
    (config : ConnectionManagerConfig) (mem : Memory) : (write config p mem now).Avoids bad := by
  have hload : ¬ bad .load := hbuild _ (by simp [BuildFault])
  have hstore : ¬ bad .store := hbuild _ (by simp [BuildFault])
  have hadvance : ¬ bad .advance := hbuild _ (by simp [BuildFault])
  have hmessage : ¬ bad (.assertion .messageSize) := hbuild _ (by simp [BuildFault])
  have htotal : ¬ bad (.assertion .totalSize) := hbuild _ (by simp [BuildFault])
  have hhandshake : ¬ bad (.assertion .handshakeSize) := hbuild _ (by simp [BuildFault])
  have hwrite : ∀ b mem, (p.packetDeliveryManager.write b mem now).Avoids bad :=
    fun _ => PacketDeliveryManager.avoids_write hheader fun h => absurd h hstore
  simp only [write, writeToPeer, PacketHeader.readId, Checked.avoids_bind, Checked.avoids_ite,
    Checked.avoids_pure, avoids_readU32, avoids_advance, htick, hwrite, hload, hadvance,
    ConnectionManager.avoids_write hstore hadvance hhandshake,
    ReliableStream.avoids_write hstore hadvance hmessage htotal,
    UnreliableStream.avoids_write hstore hadvance hmessage htotal, false_imp_iff, implies_true,
    and_self]

/-! ### Sending and statuses -/

theorem FlipBuffer.avoids_advance (hrange : ∀ f, RangeFault f → ¬ bad f) (f : FlipBuffer)
    (count : ℕ) : (f.advance count).Avoids bad := by
  rw [FlipBuffer.advance, Checked.avoids_bind, Checked.avoids_check]
  exact ⟨fun h => absurd h (hrange _ (by simp [RangeFault])), Checked.avoids_pure _⟩

theorem ReliableStream.avoids_send (hrange : ∀ f, RangeFault f → ¬ bad f) (s : ReliableStream)
    (fn : WriteToBufferFn) : (s.send fn).Avoids bad := by
  have hsub : ∀ (r : BufferRange) (value : ℕ), (r.sub value).Avoids bad := by
    intro r value
    simp only [BufferRange.sub, Checked.avoids_bind, Checked.avoids_check, Checked.avoids_pure,
      and_true]
    exact ⟨fun h => absurd h (hrange _ (by simp [RangeFault])),
      fun h => absurd h (hrange _ (by simp [RangeFault]))⟩
  have hinFlight : ∀ (value : ℕ) (msgs : List InFlightMessage),
      (rebaseInFlight value msgs).Avoids bad := by
    intro value msgs
    induction msgs with
    | nil => exact Checked.avoids_pure _
    | cons msg msgs ih =>
      simp only [rebaseInFlight, Checked.avoids_bind, Checked.avoids_pure, hsub, ih, and_self]
  have hpending : ∀ (value : ℕ) (msgs : List PendingMessage),
      (rebasePending value msgs).Avoids bad := by
    intro value msgs
    induction msgs with
    | nil => exact Checked.avoids_pure _
    | cons msg msgs ih =>
      simp only [rebasePending, Checked.avoids_bind, Checked.avoids_pure, hsub, ih, and_self]
  simp only [send, maybeFlip, Checked.avoids_bind, Checked.avoids_ite, Checked.avoids_pure,
    hinFlight, hpending, FlipBuffer.avoids_advance hrange, implies_true, and_self]

theorem UnreliableStream.avoids_send (hrange : ∀ f, RangeFault f → ¬ bad f)
    (s : UnreliableStream) (fn : WriteToBufferFn) : (s.send fn).Avoids bad := by
  simp only [send, Checked.avoids_bind, Checked.avoids_ite, Checked.avoids_pure,
    FlipBuffer.avoids_advance hrange, implies_true, and_self]

theorem ReliableStream.avoids_status (hrange : ∀ f, RangeFault f → ¬ bad f)
    (horder : ∀ f, OrderFault f → ¬ bad f) (s : ReliableStream) (id : PacketId)
    (status : PacketDeliveryStatus) : (s.onPacketDeliveryStatus id status).Avoids bad := by
  have hsize : ¬ bad (.assertion .rangeSize) := hrange _ (by simp [RangeFault])
  have hack : ¬ bad (.assertion .ackOrder) := horder _ (by simp [OrderFault])
  have hdrop : ¬ bad (.assertion .dropOrder) := horder _ (by simp [OrderFault])
  cases status <;>
    simp only [onPacketDeliveryStatus, Checked.avoids_bind, Checked.avoids_check,
      Checked.avoids_pure, avoids_ackLoop hsize, hack, hdrop, false_imp_iff, and_self]

end

/-! ### Stages without a fault -/

/-- Filling a represented stream breaks no obligation. -/
theorem Represents.faults_send {capacity k : ℕ} {s : ReliableStream} {sent : List (List UInt8)}
    (h : Represents capacity s k sent) (fn : WriteToBufferFn) : (s.send fn).faults = [] :=
  (h.send fn).2.faults_eq_nil (s.avoids_send (fun _ h h' => h' h) fn)

theorem UnreliableStream.Sound.faults_send {capacity : ℕ} {s : UnreliableStream}
    (h : s.Sound capacity) (fn : WriteToBufferFn) : (s.send fn).faults = [] := by
  have hroom := h.length_payloadOf_le fn
  rw [length_payloadOf, ← h.size] at hroom
  have hadvance : (s.send fn).Avoids RangeFault := by
    rw [UnreliableStream.send]
    dsimp only
    rw [Checked.avoids_ite]
    refine ⟨fun _ => ?_, fun _ => Checked.avoids_pure _⟩
    rw [Checked.avoids_bind, FlipBuffer.advance, Checked.avoids_bind, Checked.avoids_check]
    exact ⟨⟨fun _ => hroom, Checked.avoids_pure _⟩, Checked.avoids_pure _⟩
  exact hadvance.faults_eq_nil (s.avoids_send (fun _ h h' => h' h) fn)

/-- The two assertions of `process_read` always hold. -/
theorem PacketDeliveryManager.faults_processRead (m : PacketDeliveryManager)
    (header : PacketHeader) : (m.processRead header).faults = [] := by
  have hheader : ∀ m' : PacketDeliveryManager, (m'.processPacketHeader header).faults = [] := by
    intro m'
    rw [processPacketHeader]
    split
    · rfl
    · next hne =>
      split
      · rfl
      · next hge =>
        have hgt : header.id > m'.nextExpectedPacketId :=
          UInt32.lt_of_le_of_ne (UInt32.not_lt.mp hge) (Ne.symm hne)
        rw [Checked.faults_bind, Checked.faults_check, if_pos hgt]
        rfl
  have hacks := (m.shift_le header.ackSequenceNumber header.ackBitmask).2.faults_eq_nil
    (m.avoids_processAcks (fun h => h rfl) _ _)
  rw [processRead, Checked.faults_bind, hacks, Checked.faults_bind, hheader]
  rfl

/-! ### Entries -/

namespace Peer

variable {p : Peer}

/-- What the statuses of packets can break. -/
def StatusFault (f : Fault) : Prop := f = .popEmpty ∨ OrderFault f

theorem StreamsSound.avoids_status (h : p.StreamsSound) (statuses : DeliveryStatuses) :
    (p.processDeliveryStatuses statuses).Avoids fun f => ¬ StatusFault f := by
  induction statuses generalizing p with
  | nil => exact Checked.avoids_pure _
  | cons s statuses ih =>
    obtain ⟨⟨k, sent, hk⟩, hunreliable⟩ := h
    have hstream : (p.reliableStream.onPacketDeliveryStatus s.1 s.2).Avoids
        fun f => ¬ StatusFault f := by
      have hkinds : (p.reliableStream.onPacketDeliveryStatus s.1 s.2).Avoids
          fun f => ¬ RangeFault f ∧ ¬ OrderFault f :=
        p.reliableStream.avoids_status (fun _ h h' => h'.1 h) (fun _ h h' => h'.2 h) s.1 s.2
      intro f hf hstatus
      exact hkinds f hf ⟨(hk.status s.1 s.2).2 f hf, fun h => hstatus (Or.inr h)⟩
    rw [Peer.processDeliveryStatuses, Checked.avoids_bind, Checked.avoids_bind]
    refine ⟨ConnectionManager.avoids_status (fun h => h (Or.inl rfl)) _ _ _, hstream, ?_⟩
    exact ih ⟨⟨_, sent, (hk.status s.1 s.2).1⟩, hunreliable⟩

theorem StreamsSound.avoids_dropOldPackets (h : p.StreamsSound) (now : ℤ) :
    (p.dropOldPackets now).Avoids fun f => ¬ StatusFault f := by
  have hresolved : StreamsSound { p with
      packetDeliveryManager := (p.packetDeliveryManager.dropOldPackets now).1 } :=
    ⟨h.reliable, h.unreliable⟩
  rw [Peer.dropOldPackets, Checked.avoids_bind]
  exact ⟨hresolved.avoids_status _, Checked.avoids_pure _⟩

/-- What reading a datagram can break. -/
def ReadFault (f : Fault) : Prop := f = .load ∨ f = .advance ∨ StatusFault f

theorem avoids_readConnection (config : ConnectionManagerConfig) (p : Peer) (b : Span)
    (mem : Memory) (report : ReadReport) :
    (readConnection config p b mem report).Avoids fun f => ¬ ReadFault f := by
  have hload : ¬ ¬ ReadFault .load := fun h => h (Or.inl rfl)
  have hadvance : ¬ ¬ ReadFault .advance := fun h => h (Or.inr (Or.inl rfl))
  have hstreams : ∀ q limit b report,
      (readStreams config q limit b mem report).Avoids fun f => ¬ ReadFault f := by
    intro q limit b report
    rw [readStreams, Checked.avoids_bind]
    refine ⟨ReliableStream.avoids_read hload hadvance _ _ _, ?_⟩
    dsimp only
    split
    · exact Checked.avoids_pure _
    · rw [Checked.avoids_bind, Checked.avoids_bind, avoids_advance]
      refine ⟨fun h => absurd h hadvance, UnreliableStream.avoids_read hload hadvance _ _, ?_⟩
      split
      · exact Checked.avoids_pure _
      · rw [Checked.avoids_bind, avoids_advance]
        exact ⟨fun h => absurd h hadvance, Checked.avoids_pure _⟩
  rw [readConnection, Checked.avoids_bind]
  refine ⟨ConnectionManager.avoids_read_of hload hadvance _ _ _, ?_⟩
  dsimp only
  split
  · exact Checked.avoids_pure _
  · rw [Checked.avoids_bind, avoids_advance]
    refine ⟨fun h => absurd h hadvance, ?_⟩
    split
    · exact Checked.avoids_pure _
    · exact hstreams _ _ _ _

theorem StreamsSound.avoids_read (h : p.StreamsSound) (config : ConnectionManagerConfig)
    (b : Span) (mem : Memory) : (p.read config b mem).Avoids fun f => ¬ ReadFault f := by
  have hload : ¬ ¬ ReadFault .load := fun h => h (Or.inl rfl)
  have hadvance : ¬ ¬ ReadFault .advance := fun h => h (Or.inr (Or.inl rfl))
  have hresolved : ∀ manager, StreamsSound { p with packetDeliveryManager := manager } :=
    fun manager => ⟨h.reliable, h.unreliable⟩
  have hprocess := p.packetDeliveryManager.faults_processRead (PacketHeader.read b mem).val
  rw [Peer.read, Checked.avoids_bind]
  constructor
  · simp only [PacketHeader.read, PacketHeader.readId, PacketHeader.readAckSequenceNumber,
      PacketHeader.readAckBitmask, Checked.avoids_bind, Checked.avoids_pure, avoids_readU32,
      hload, false_imp_iff, and_self]
  rw [Checked.avoids_bind, Checked.Avoids, hprocess]
  refine ⟨fun f hf => absurd hf List.not_mem_nil, ?_⟩
  dsimp only
  rw [Checked.avoids_ite]
  refine ⟨fun _ => Checked.avoids_pure _, fun _ => ?_⟩
  rw [Checked.avoids_bind, Checked.avoids_bind, avoids_advance]
  refine ⟨fun h => absurd h hadvance, ?_, avoids_readConnection _ _ _ _ _⟩
  exact ((hresolved _).avoids_status _).mono fun f hread hstatus =>
    hread (Or.inr (Or.inr hstatus))

theorem TickerSafe.faults_tick (h : p.TickerSafe) (now : ℤ) :
    (p.sendPacketTicker.tick now).faults = [] := by
  have hmodulo : (p.sendPacketTicker.tick now).Avoids (· = .moduloZero) := by
    rintro f hf rfl
    exact h ((Ticker.moduloZero_mem_tick_iff _ now).mp hf).1
  refine hmodulo.faults_eq_nil ?_
  rw [Ticker.tick]
  split
  · simp only [Checked.avoids_ite, Checked.avoids_bind, Checked.avoids_check,
      Checked.avoids_pure, not_true_eq_false, false_imp_iff, implies_true, and_self]
  · exact Checked.avoids_pure _

/-- With valid limits and a safe ticker, the only obligation of a write is the one on the
pending acknowledgements. -/
theorem avoids_write_of_valid {bad : Fault → Prop} {config : ConnectionManagerConfig}
    (hconfig : 100 ≤ config.limit.maxSendPacketSize) (hlimits : p.LimitsValid)
    (hticker : p.TickerSafe) {now : ℤ}
    (hheader : (p.packetDeliveryManager.nextHeader now).Avoids bad) (mem : Memory) :
    (write config p mem now).Avoids bad := by
  have hroom := hlimits.le_maxPacketSize hconfig
  have hbuild : (write config p mem now).Avoids BuildFault := write_avoids_build (by omega) _ _
  have hother : (write config p mem now).Avoids fun f => bad f ∧ ¬ BuildFault f := by
    refine avoids_write (fun f h h' => h'.2 h) ?_ (hheader.mono fun f h => h.1) config mem
    rw [Checked.Avoids, hticker.faults_tick]
    exact fun f hf => absurd hf List.not_mem_nil
  intro f hf hbad
  exact hother f hf ⟨hbad, hbuild f hf⟩

end Peer

/-! ### Endpoints -/

namespace Endpoint

open PeerMap

variable {bad : Fault → Prop} {now : ℤ}

theorem avoids_dropOldPackets {peers : PeerMap}
    (h : All (fun _ p => (p.dropOldPackets now).Avoids bad) peers) :
    (dropOldPackets now peers).Avoids bad := by
  induction peers with
  | nil => exact Checked.avoids_pure _
  | cons e peers ih =>
    obtain ⟨hp, hpeers⟩ := all_cons.mp h
    rw [dropOldPackets, Checked.avoids_bind, Checked.avoids_bind]
    exact ⟨hp, ih hpeers, Checked.avoids_pure _⟩

theorem avoids_write {config : ConnectionManagerConfig} {peers : PeerMap}
    (h : All (fun _ p => ∀ mem, (p.write config mem now).Avoids bad) peers) (mem : Memory) :
    (write config now peers mem).Avoids bad := by
  induction peers generalizing mem with
  | nil => exact Checked.avoids_pure _
  | cons e peers ih =>
    obtain ⟨hp, hpeers⟩ := all_cons.mp h
    rw [write, Checked.avoids_bind, Checked.avoids_bind]
    exact ⟨hp mem, ih hpeers _, Checked.avoids_pure _⟩

/-- A tick breaks no obligation of a kind if its parts do not: the timeouts, the datagram
on the entry of its sender, and the writes on the entries as they are then. -/
theorem avoids_tick {n : Endpoint} {incoming : Option (IpAddress × List UInt8)}
    (hdrop : All (fun _ p => (p.dropOldPackets now).Avoids bad) n.peers)
    (hread : ∀ sender payload, incoming = some (sender, payload) →
      ((n.readEntry now sender).read n.connectionManagerConfig
        ⟨0, (payload.take kJustAboveMtu).length⟩
        (n.networkBuffer.storeList 0 (payload.take kJustAboveMtu))).Avoids bad)
    (hwrite : All (fun _ p => ∀ mem, (p.write n.connectionManagerConfig mem now).Avoids bad)
      (n.beforeWrite now incoming).peers) : (n.tick now incoming).Avoids bad := by
  rw [tick, Checked.avoids_bind, Checked.avoids_bind, Checked.avoids_bind]
  refine ⟨avoids_dropOldPackets hdrop, ?_, ?_, Checked.avoids_pure _⟩
  · cases incoming with
    | none => exact Checked.avoids_pure _
    | some datagram =>
      obtain ⟨sender, payload⟩ := datagram
      have hread := hread sender payload rfl
      rw [← findOrCreatePeer_dropOldPackets] at hread
      rw [Checked.Avoids, (read_some _ now sender payload).2]
      exact hread
  · rw [← beforeWrite_config n now incoming] at hwrite
    exact avoids_write hwrite _

theorem faults_sendReliableTo {n : Endpoint} (h : All (fun _ => Peer.StreamsSound) n.peers)
    {ip : IpAddress} (hconnected : n.isConnected ip = true) (fn : WriteToBufferFn) (now : ℤ) :
    (n.sendReliableTo ip fn now).faults = [] := by
  obtain ⟨-, hp⟩ := findOrCreatePeer_all ip h (n.streamsSound_new now)
  obtain ⟨k, sent, hk⟩ := hp.reliable
  rw [sendReliableTo, Checked.faults_bind, Checked.faults_check, if_pos hconnected]
  simp only [Checked.faults_bind, hk.faults_send, Checked.faults_pure, List.append_nil]

theorem faults_sendUnreliableTo {n : Endpoint} (h : All (fun _ => Peer.StreamsSound) n.peers)
    {ip : IpAddress} (hconnected : n.isConnected ip = true) (fn : WriteToBufferFn) (now : ℤ) :
    (n.sendUnreliableTo ip fn now).faults = [] := by
  obtain ⟨-, hp⟩ := findOrCreatePeer_all ip h (n.streamsSound_new now)
  rw [sendUnreliableTo, Checked.faults_bind, Checked.faults_check, if_pos hconnected]
  simp only [Checked.faults_bind, hp.unreliable.faults_send, Checked.faults_pure, List.append_nil]

end Endpoint

end Neptun
