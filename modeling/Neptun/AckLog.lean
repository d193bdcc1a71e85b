/-
Acknowledgements between two endpoints.

`AckSoundness.lean` is about two delivery managers that exchange headers.  Here
the headers are the first bytes of datagrams, every endpoint has a manager for
every address, and what was accepted is read off the log of the run.

* `World.AckLinked` — pending acknowledgements, the headers of all datagrams and
  all reported ACKs speak about packets that the log says were accepted;
* `World.AckLinked.next` — every call keeps this.
-/
import Neptun.PacketLayout
import Neptun.Parsing
import Neptun.StatusRouting

namespace Neptun

/-! ### What the connection manager keeps -/

namespace ConnectionManager

theorem status_config (c : ConnectionManager) (id : PacketId) (status : PacketDeliveryStatus) :
    (c.onPacketStatusDelivery id status).val.config = c.config := by
  rcases c.status_cases id status with ⟨-, hval⟩ | ⟨-, -, hval⟩ | ⟨-, -, hval⟩ <;> rw [hval]

theorem status_peerLimit (c : ConnectionManager) (id : PacketId)
    (status : PacketDeliveryStatus) :
    (c.onPacketStatusDelivery id status).val.peerBandwidthLimit = c.peerBandwidthLimit := by
  rcases c.status_cases id status with ⟨-, hval⟩ | ⟨-, -, hval⟩ | ⟨-, -, hval⟩ <;> rw [hval]

theorem received_config (c : ConnectionManager) (limit : BandwidthLimit) :
    (c.received limit).config = c.config := by
  rw [received]
  split <;> rfl

theorem read_config (c : ConnectionManager) (b : Span) (mem : Memory) :
    (c.read b mem).val.1.config = c.config := by
  rw [val_read]
  split_ifs
  · rfl
  · rfl
  · exact received_config _ _
  · rfl
  · rfl

/-- The `LetsConnect` case of `read`. -/
theorem read_letsConnect (c : ConnectionManager) {b : Span} {mem : Memory} (hsize : 2 ≤ b.size)
    (hbytes : mem.slice b.off 3 = [0, 1, 0]) :
    (c.read b mem).val = (c.received (limitAt mem (b.off + 3)), .ok 9) := by
  simp only [Memory.slice, List.cons.injEq] at hbytes
  obtain ⟨h0, h1, h2, -⟩ := hbytes
  rw [val_read, if_neg (by simp [h0]; omega), if_neg (by simp [h1]), if_pos h2]

theorem write_config (c : ConnectionManager) (id : PacketId) (b : Span) (mem : Memory) :
    (c.write id b mem).val.1.config = c.config := by
  rw [write_state]
  split <;> rfl

theorem write_peerLimit (c : ConnectionManager) (id : PacketId) (b : Span) (mem : Memory) :
    (c.write id b mem).val.1.peerBandwidthLimit = c.peerBandwidthLimit := by
  rw [write_state]
  split <;> rfl

end ConnectionManager

/-! ### The delivery manager of a peer -/

namespace Peer

variable {p : Peer}

theorem dropOldPackets_delivery (p : Peer) (now : ℤ) :
    (p.dropOldPackets now).val.1.packetDeliveryManager
      = (p.packetDeliveryManager.dropOldPackets now).1 := by
  rw [val_dropOldPackets]
  exact (Peer.processDeliveryStatuses_frame _ _).1

theorem read_delivery (config : ConnectionManagerConfig) (p : Peer) (b : Span) (mem : Memory) :
    (read config p b mem).val.1.packetDeliveryManager
      = (p.packetDeliveryManager.processRead (PacketHeader.read b mem).val).val.1 := by
  rcases read_cases config p b mem with ⟨-, hval⟩ | ⟨-, hval⟩
  · rw [hval]
  · rw [hval, (readConnection_frame _ _ _ _ _).1]
    exact (Peer.processDeliveryStatuses_frame _ _).1

theorem write_delivery (config : ConnectionManagerConfig) (p : Peer) (mem : Memory) (now : ℤ) :
    (write config p mem now).val.1.packetDeliveryManager = p.packetDeliveryManager ∨
      (write config p mem now).val.1.packetDeliveryManager
        = (p.packetDeliveryManager.nextHeader now).val.1 := by
  rcases write_cases config p mem now with hval | ⟨-, hval⟩
  · rw [hval]
    exact Or.inl rfl
  · rw [hval]
    dsimp only
    exact Or.inr (writeToPeer_frame _ mem now _).1

/-! ### The connection manager of a peer -/

/-- What a delivery status keeps true of the manager, a list of them does. -/
theorem processDeliveryStatuses_keeps {P : ConnectionManager → Prop}
    (hP : ∀ c id status, P c → P (ConnectionManager.onPacketStatusDelivery c id status).val)
    {p : Peer} (h : P p.connectionManager) (statuses : DeliveryStatuses) :
    P (p.processDeliveryStatuses statuses).val.connectionManager := by
  induction statuses generalizing p with
  | nil => exact h
  | cons s statuses ih =>
    simp only [processDeliveryStatuses, Checked.val_bind]
    exact ih (hP _ _ _ h)

/-- What a delivery status leaves alone, a list of them does. -/
theorem processDeliveryStatuses_connection {β : Type} (f : ConnectionManager → β)
    (hf : ∀ c id status, f (ConnectionManager.onPacketStatusDelivery c id status).val = f c)
    (p : Peer) (statuses : DeliveryStatuses) :
    f (p.processDeliveryStatuses statuses).val.connectionManager = f p.connectionManager :=
  processDeliveryStatuses_keeps (P := fun c => f c = f p.connectionManager)
    (fun c id status h => (hf c id status).trans h) rfl statuses

theorem readStreams_connection (config : ConnectionManagerConfig) (p : Peer)
    (limit : BandwidthLimit) (b : Span) (mem : Memory) (report : ReadReport) :
    (readStreams config p limit b mem report).val.1.connectionManager = p.connectionManager := by
  have hrate : ∀ rate, (p.updateSendRate rate).connectionManager = p.connectionManager := by
    intro rate
    rw [updateSendRate]
    split <;> rfl
  rw [readStreams]
  generalize hq : (if limit.maxReadPacketRate = 0 then _ else _ : Peer) = q
  have hframe : q.connectionManager = p.connectionManager := by
    rw [← hq]
    split_ifs <;> exact hrate _
  simp only [Checked.val_bind]
  split
  · exact hframe
  · simp only [Checked.val_bind]
    split <;> exact hframe

theorem readConnection_connection (config : ConnectionManagerConfig) (p : Peer) (b : Span)
    (mem : Memory) (report : ReadReport) :
    (readConnection config p b mem report).val.1.connectionManager
      = (p.connectionManager.read b mem).val.1 := by
  rw [readConnection]
  simp only [Checked.val_bind]
  split
  · rfl
  · simp only [Checked.val_bind]
    split
    · rfl
    · exact readStreams_connection _ _ _ _ _ _

/-- What statuses and reading keep true of the manager, all of `read` does. -/
theorem read_keeps {P : ConnectionManager → Prop}
    (hP : ∀ c id status, P c → P (ConnectionManager.onPacketStatusDelivery c id status).val)
    (hP' : ∀ c b mem, P c → P (ConnectionManager.read c b mem).val.1)
    (config : ConnectionManagerConfig) {p : Peer} (h : P p.connectionManager) (b : Span)
    (mem : Memory) : P (read config p b mem).val.1.connectionManager := by
  rcases read_cases config p b mem with ⟨-, hval⟩ | ⟨-, hval⟩
  · rw [hval]
    exact h
  · rw [hval, readConnection_connection]
    refine hP' _ _ _ (processDeliveryStatuses_keeps hP ?_ _)
    exact h

/-- What statuses and reading leave alone, all of `read` does. -/
theorem read_connection {β : Type} (f : ConnectionManager → β)
    (hf : ∀ c id status, f (ConnectionManager.onPacketStatusDelivery c id status).val = f c)
    (hf' : ∀ c b mem, f (ConnectionManager.read c b mem).val.1 = f c)
    (config : ConnectionManagerConfig) (p : Peer) (b : Span) (mem : Memory) :
    f (read config p b mem).val.1.connectionManager = f p.connectionManager :=
  read_keeps (P := fun c => f c = f p.connectionManager)
    (fun c id status h => (hf c id status).trans h) (fun c b mem h => (hf' c b mem).trans h)
    config rfl b mem

theorem dropOldPackets_connection {β : Type} (f : ConnectionManager → β)
    (hf : ∀ c id status, f (ConnectionManager.onPacketStatusDelivery c id status).val = f c)
    (p : Peer) (now : ℤ) :
    f (p.dropOldPackets now).val.1.connectionManager = f p.connectionManager := by
  rw [val_dropOldPackets, processDeliveryStatuses_connection f hf]

theorem write_connection {β : Type} (f : ConnectionManager → β)
    (hf : ∀ c id b mem, f (ConnectionManager.write c id b mem).val.1 = f c)
    (config : ConnectionManagerConfig) (p : Peer) (mem : Memory) (now : ℤ) :
    f (write config p mem now).val.1.connectionManager = f p.connectionManager := by
  rcases write_cases config p mem now with hval | ⟨-, hval⟩
  · rw [hval]
  · rw [hval]
    exact hf _ _ _ _

/-! ### The report of a read -/

theorem readStreams_report (config : ConnectionManagerConfig) (p : Peer) (limit : BandwidthLimit)
    (b : Span) (mem : Memory) (report : ReadReport) :
    ∃ reliable unreliable, (readStreams config p limit b mem report).val.2
      = { report with
          reliableSpan := some b
          reliable := reliable
          unreliable := unreliable } := by
  rw [readStreams]
  generalize (if limit.maxReadPacketRate = 0 then _ else _ : Peer) = q
  simp only [Checked.val_bind]
  split
  · exact ⟨_, report.unreliable, rfl⟩
  · simp only [Checked.val_bind]
    split <;> exact ⟨_, _, rfl⟩

/-- The later stages add to the report what they did with the streams. -/
theorem readConnection_report (config : ConnectionManagerConfig) (p : Peer) (b : Span)
    (mem : Memory) (report : ReadReport) :
    ∃ reliableSpan reliable unreliable, (readConnection config p b mem report).val.2
      = { report with
          reliableSpan := reliableSpan
          reliable := reliable
          unreliable := unreliable } := by
  rw [readConnection]
  simp only [Checked.val_bind]
  split
  · exact ⟨report.reliableSpan, report.reliable, report.unreliable, rfl⟩
  · simp only [Checked.val_bind]
    split
    · exact ⟨report.reliableSpan, report.reliable, report.unreliable, rfl⟩
    · next limit _ =>
      obtain ⟨reliable, unreliable, hreport⟩ := readStreams_report config
        { p with connectionManager := (p.connectionManager.read b mem).val.1 } limit _ mem report
      exact ⟨_, reliable, unreliable, hreport⟩

/-- What the delivery manager has reported. -/
theorem read_report (config : ConnectionManagerConfig) (p : Peer) (b : Span) (mem : Memory) :
    let header := (PacketHeader.read b mem).val
    let report := (read config p b mem).val.2
    report.packetId = header.id ∧
      (report.accepted = true ↔ ¬ header.id < p.packetDeliveryManager.nextExpectedPacketId) ∧
      report.statuses = (p.packetDeliveryManager.processRead header).val.2.2.1 := by
  intro header report
  rcases read_cases config p b mem with ⟨hlt, hval⟩ | ⟨hnlt, hval⟩
  · have hreport : report = _ := congrArg Prod.snd hval
    rw [hreport]
    refine ⟨rfl, ?_, rfl⟩
    simp only [Bool.false_eq_true, false_iff, not_not]
    exact hlt
  · have hreport : report = _ := congrArg Prod.snd hval
    obtain ⟨reliableSpan, reliable, unreliable, heq⟩ := readConnection_report config
      (Peer.processDeliveryStatuses { p with packetDeliveryManager :=
        (p.packetDeliveryManager.processRead header).val.1 }
        (p.packetDeliveryManager.processRead header).val.2.2.1).val
      ⟨b.off + 12, usizeSub b.size 12⟩ mem
      ⟨header.id, true, (p.packetDeliveryManager.processRead header).val.2.2.1, none, [], []⟩
    rw [hreport, heq]
    exact ⟨rfl, ⟨fun _ => hnlt, fun _ => rfl⟩, rfl⟩

end Peer

/-! ### One tick -/

namespace Endpoint

theorem readEntry_expected (n : Endpoint) (now : ℤ) (sender : IpAddress) :
    (n.readEntry now sender).packetDeliveryManager.nextExpectedPacketId
      = n.expectedFrom sender := by
  rw [readEntry, expectedFrom]
  cases n.peers.find sender with
  | none => rfl
  | some p =>
    simp only [Peer.dropOldPackets_delivery]
    rfl

end Endpoint

/-- A datagram that begins with a header is read as having this header, whatever
is in the network buffer. -/
theorem val_read_datagram {payload : List UInt8} {header : PacketHeader}
    (h : payload.take 12 = header.encode) (b : Span) (hb : b.off = 0) (mem : Memory) :
    (PacketHeader.read b (mem.storeList 0 (payload.take kJustAboveMtu))).val = header := by
  have hlength : 12 ≤ (payload.take kJustAboveMtu).length := by
    have hle := congrArg List.length h
    rw [List.length_take, PacketHeader.length_encode] at hle
    rw [List.length_take, kJustAboveMtu]
    omega
  refine PacketHeader.val_read ?_
  rw [hb, slice_storeList_eq mem _ (by omega), List.drop_zero, List.take_take,
    Nat.min_eq_left (by decide), h]

/-- The id of a datagram is the one of its header. -/
theorem datagramId_of_header {payload : List UInt8} {header : PacketHeader}
    (h : payload.take 12 = header.encode) : datagramId payload = header.id := by
  have hid : payload.take 4 = beEncode 4 header.id.toNat := by
    have htake : payload.take 4 = (payload.take 12).take 4 := by
      rw [List.take_take]
      rfl
    rw [htake, h, PacketHeader.encode, List.append_assoc]
    exact List.take_left' (length_beEncode _ _)
  rw [datagramId, hid, beDecode_beEncode header.id.toNat_lt, UInt32.ofNat_toNat]

/-! ### Runs -/

namespace World

open PeerMap

/-- The endpoint has accepted the datagram as packet `id`. -/
def Accepted (w : World) (side : Side) (dg : Datagram) (id : PacketId) : Prop :=
  ∃ entry ∈ w.log, entry.side = side ∧ entry.incoming = some dg ∧
    ∃ report, entry.report.read = some (dg.sender, report) ∧ report.accepted = true ∧
      report.packetId = id

/-- The endpoint has accepted packet `id` of the address. -/
def AcceptedFrom (w : World) (side : Side) (ip : IpAddress) (id : PacketId) : Prop :=
  ∃ dg, dg.sender = ip ∧ w.Accepted side dg id

/-- The entry of an address: its acknowledgements are of accepted packets, and
it has the configuration of its endpoint. -/
structure PeerLinked (setup : Setup) (w : World) (side : Side) (ip : IpAddress) (p : Peer) :
    Prop where
  pending : ∀ id ∈ p.packetDeliveryManager.pendingAcks, w.AcceptedFrom side ip id
  config : p.connectionManager.config = setup.config side

/-- All that is said about packets of an address speaks of accepted ones. -/
structure AckLinked (setup : Setup) (w : World) : Prop where
  incoming : ∀ entry ∈ w.log, ∀ dg ∈ entry.incoming,
    dg ∈ w.sent ∧ dg.receiver = setup.address entry.side
  config : ∀ side, (w.endpoint side).connectionManagerConfig = setup.config side
  entries : ∀ side, All (w.PeerLinked setup side) (w.endpoint side).peers
  sent : ∀ dg ∈ w.sent, ∃ side header, setup.address side = dg.sender ∧
    dg.packet.WellFormed (setup.config side).limit header ∧
    ∀ id, header.Acks id → w.AcceptedFrom side dg.receiver id
  acked : ∀ entry ∈ w.log, ∀ read ∈ entry.report.read, ∀ id, (id, .ack) ∈ read.2.statuses →
    ∃ side, setup.address side = read.1 ∧ w.AcceptedFrom side (setup.address entry.side) id

variable {setup : Setup} {w : World} {side : Side} {n : Endpoint} {sent : List Datagram}
  {entry : LogEntry} {ip : IpAddress} {p : Peer} {now : ℤ}

theorem AcceptedFrom.extend {s : Side} {id : PacketId} (h : w.AcceptedFrom s ip id) :
    (w.extend side n sent entry).AcceptedFrom s ip id := by
  obtain ⟨dg, hsender, e, he, hrest⟩ := h
  exact ⟨dg, hsender, e, List.mem_append_left _ he, hrest⟩

/-! ### One entry -/

namespace PeerLinked

theorem extend {s : Side} (h : w.PeerLinked setup s ip p) :
    (w.extend side n sent entry).PeerLinked setup s ip p :=
  ⟨fun id hid => (h.pending id hid).extend, h.config⟩

theorem createPeer (hconfig : n.connectionManagerConfig = setup.config side) (ip : IpAddress)
    (now : ℤ) : w.PeerLinked setup side ip (n.createPeer 0 now) := by
  refine ⟨?_, hconfig⟩
  intro id hid
  cases hid

theorem dropOldPackets (h : w.PeerLinked setup side ip p) (now : ℤ) :
    w.PeerLinked setup side ip (p.dropOldPackets now).val.1 := by
  constructor
  · rw [Peer.dropOldPackets_delivery]
    exact h.pending
  · rw [Peer.dropOldPackets_connection _ ConnectionManager.status_config]
    exact h.config

/-- Reading adds an acknowledgement for the packet that has been accepted. -/
theorem read (h : w.PeerLinked setup side ip p) (config : ConnectionManagerConfig) (b : Span)
    (mem : Memory)
    (haccepted : (p.read config b mem).val.2.accepted = true →
      w.AcceptedFrom side ip (p.read config b mem).val.2.packetId) :
    w.PeerLinked setup side ip (p.read config b mem).val.1 := by
  obtain ⟨hid, hiff, -⟩ := Peer.read_report config p b mem
  constructor
  · rw [Peer.read_delivery]
    intro id hmem
    rcases PacketDeliveryManager.processRead_cases _ _ with ⟨-, -, hacks, -⟩ | ⟨-, hnlt, hacks, -⟩
    · rw [hacks] at hmem
      exact h.pending id hmem
    · rw [hacks] at hmem
      rcases List.mem_append.mp hmem with hmem | hmem
      · exact h.pending id hmem
      · rw [List.mem_singleton.mp hmem, ← hid]
        exact haccepted (hiff.mpr hnlt)
  · rw [Peer.read_connection _ ConnectionManager.status_config ConnectionManager.read_config]
    exact h.config

theorem write (h : w.PeerLinked setup side ip p) (config : ConnectionManagerConfig)
    (mem : Memory) (now : ℤ) : w.PeerLinked setup side ip (p.write config mem now).val.1 := by
  constructor
  · intro id hid
    refine h.pending id ?_
    rcases Peer.write_delivery config p mem now with hdelivery | hdelivery
    · rwa [hdelivery] at hid
    · rw [hdelivery] at hid
      exact PacketDeliveryManager.nextHeader_pendingAcks_subset hid
  · rw [Peer.write_connection _ ConnectionManager.write_config]
    exact h.config

end PeerLinked

/-! ### All of the world -/

/-- Extending a world by a call whose entries, datagrams and report speak of
accepted packets only. -/
theorem AckLinked.extend (h : w.AckLinked setup)
    (hincoming : ∀ dg ∈ entry.incoming, dg ∈ w.sent ∧ dg.receiver = setup.address entry.side)
    (hconfig : n.connectionManagerConfig = setup.config side)
    (hentries : All ((w.extend side n sent entry).PeerLinked setup side) n.peers)
    (hsent : ∀ dg ∈ sent, dg.sender = setup.address side ∧ ∃ header,
      dg.packet.WellFormed (setup.config side).limit header ∧
      ∀ id, header.Acks id → (w.extend side n sent entry).AcceptedFrom side dg.receiver id)
    (hacked : ∀ read ∈ entry.report.read, ∀ id, (id, .ack) ∈ read.2.statuses →
      ∃ s, setup.address s = read.1 ∧ w.AcceptedFrom s (setup.address entry.side) id) :
    (w.extend side n sent entry).AckLinked setup := by
  constructor
  · intro e he dg hdg
    rcases List.mem_append.mp he with he | he
    · exact ⟨List.mem_append_left _ (h.incoming e he dg hdg).1, (h.incoming e he dg hdg).2⟩
    · rw [List.mem_singleton.mp he] at hdg ⊢
      exact ⟨List.mem_append_left _ (hincoming dg hdg).1, (hincoming dg hdg).2⟩
  · intro s
    by_cases hs : s = side
    · rw [hs, extend_endpoint_self]
      exact hconfig
    · rw [extend_endpoint_of_ne hs]
      exact h.config s
  · intro s
    by_cases hs : s = side
    · rw [hs, extend_endpoint_self]
      exact hentries
    · rw [extend_endpoint_of_ne hs]
      exact (h.entries s).mono fun ip p hp => hp.extend
  -- what a header acknowledges stays accepted when the log grows
  · intro dg hdg
    rcases List.mem_append.mp hdg with hdg | hdg
    · obtain ⟨s, header, hsender, hformed, hacks⟩ := h.sent dg hdg
      exact ⟨s, header, hsender, hformed, fun id hid => (hacks id hid).extend⟩
    · obtain ⟨hsender, header, hformed, hacks⟩ := hsent dg hdg
      exact ⟨side, header, hsender.symm, hformed, hacks⟩
  · intro e he read hread id hid
    rcases List.mem_append.mp he with he | he
    · obtain ⟨s, hs, haccepted⟩ := h.acked e he read hread id hid
      exact ⟨s, hs, haccepted.extend⟩
    · rw [List.mem_singleton.mp he] at hread ⊢
      obtain ⟨s, hs, haccepted⟩ := hacked read hread id hid
      exact ⟨s, hs, haccepted.extend⟩

theorem ackLinked_init (setup : Setup) : (init setup).AckLinked setup where
  incoming := by
    intro entry hentry
    cases hentry
  config := fun _ => rfl
  entries := fun _ => all_nil
  sent := by
    intro dg hdg
    cases hdg
  acked := by
    intro entry hentry
    cases hentry

/-- A call that changes one entry, and neither its delivery manager nor the
configuration. -/
theorem AckLinked.update (h : w.AckLinked setup) (ip : IpAddress) (now : ℤ) {p' : Peer}
    (hpeers : n.peers = ((w.endpoint side).findOrCreatePeer 0 ip now).1.peers.update ip p')
    (hdelivery : p'.packetDeliveryManager
      = ((w.endpoint side).findOrCreatePeer 0 ip now).2.packetDeliveryManager)
    (hconnection : p'.connectionManager.config
      = ((w.endpoint side).findOrCreatePeer 0 ip now).2.connectionManager.config)
    (hconfig : n.connectionManagerConfig
      = ((w.endpoint side).findOrCreatePeer 0 ip now).1.connectionManagerConfig)
    (hincoming : entry.incoming = none) (hread : entry.report.read = none) :
    (w.extend side n [] entry).AckLinked setup := by
  obtain ⟨hall, hp⟩ := Endpoint.findOrCreatePeer_all ip (h.entries side)
    (PeerLinked.createPeer (h.config side) ip now)
  -- the entry that is changed keeps its pending acknowledgements
  have hp' : w.PeerLinked setup side ip p' := by
    constructor
    · rw [hdelivery]
      exact hp.pending
    · rw [hconnection]
      exact hp.config
  refine h.extend ?_ ?_ ?_ ?_ ?_
  · rw [hincoming]
    intro dg hdg
    cases hdg
  · rw [hconfig, Endpoint.findOrCreatePeer_config]
    exact h.config side
  · rw [hpeers]
    exact (hall.update hp').mono fun ip p hp => hp.extend
  · intro dg hdg
    cases hdg
  · rw [hread]
    intro read hread
    cases hread

/-- What a tick accepts is in the log afterwards. -/
theorem acceptedFrom_tick (setup : Setup) (w : World) (side : Side) (now : ℤ) (dg : Datagram)
    {report : ReadReport}
    (hread : ((w.endpoint side).tick now (some (dg.sender, dg.packet.payload))).val.2.read
      = some (dg.sender, report))
    (haccepted : report.accepted = true) :
    (w.next setup (side, .tick now (some dg))).Accepted side dg report.packetId :=
  ⟨_, List.mem_append_right _ List.mem_cons_self, rfl, rfl, report, hread, haccepted, rfl⟩

/-- A tick: the header of the datagram speaks of accepted packets, and what is
accepted now is in the log. -/
theorem AckLinked.tick (h : w.AckLinked setup) (now : ℤ) (incoming : Option Datagram)
    (hen : ∀ dg ∈ incoming, dg ∈ w.sent ∧ dg.receiver = setup.address side) :
    (w.next setup (side, .tick now incoming)).AckLinked setup := by
  have hentries : All ((w.next setup (side, .tick now incoming)).PeerLinked setup side)
      (w.endpoint side).peers := (h.entries side).mono fun ip p hp => hp.extend
  -- an id becomes pending only by the read that the log has just recorded
  have hreads : ∀ sender payload,
      incoming.map (fun dg => (dg.sender, dg.packet.payload)) = some (sender, payload) →
      (w.next setup (side, .tick now incoming)).PeerLinked setup side sender
        ((w.endpoint side).readEntry now sender) →
      (w.next setup (side, .tick now incoming)).PeerLinked setup side sender
        (((w.endpoint side).readEntry now sender).read (w.endpoint side).connectionManagerConfig
          ⟨0, (payload.take kJustAboveMtu).length⟩
          ((w.endpoint side).networkBuffer.storeList 0 (payload.take kJustAboveMtu))).val.1 := by
    intro sender payload hincoming hp
    refine hp.read _ _ _ fun haccepted => ?_
    obtain ⟨dg, hdg, heq⟩ := Option.map_eq_some_iff.mp hincoming
    cases heq
    subst hdg
    exact ⟨dg, rfl, acceptedFrom_tick setup w side now dg (Endpoint.tick_read_some _ _ _ _)
      haccepted⟩
  obtain ⟨hall, hpackets⟩ := Endpoint.tick_all
    (incoming.map fun dg => (dg.sender, dg.packet.payload)) hentries
    (fun ip p hp => hp.dropOldPackets now)
    (fun ip => PeerLinked.createPeer (h.config side) ip now) hreads
    (fun ip p mem hp => hp.write _ mem now)
  refine h.extend hen ?_ hall ?_ ?_
  · exact (Endpoint.tick_config _ _ _).trans (h.config side)
  · -- the headers that are written
    intro dg hdg
    obtain ⟨⟨ip, packet⟩, hsent, rfl⟩ := List.mem_map.mp hdg
    obtain ⟨p, mem, hp, hpacket⟩ := hpackets ip packet hsent
    have hformed := Peer.write_wellFormed hpacket
    rw [hp.config] at hformed
    exact ⟨rfl, _, hformed, fun id hacks =>
      hp.pending id (PacketDeliveryManager.mem_pendingAcks_of_nextHeader hacks)⟩
  · -- the header that is read
    intro read hread id hid
    cases incoming with
    | none => cases hread
    | some dg =>
      obtain ⟨s, header, hsender, hformed, hacks⟩ := h.sent dg (hen dg rfl).1
      simp only [Option.map_some, Endpoint.tick_read_some] at hread
      cases hread
      obtain ⟨-, -, hstatuses⟩ := Peer.read_report (w.endpoint side).connectionManagerConfig
        ((w.endpoint side).readEntry now dg.sender)
        ⟨0, (dg.packet.payload.take kJustAboveMtu).length⟩
        ((w.endpoint side).networkBuffer.storeList 0 (dg.packet.payload.take kJustAboveMtu))
      rw [val_read_datagram hformed.header _ rfl] at hstatuses
      rw [hstatuses, PacketDeliveryManager.processRead_statuses] at hid
      rw [(hen dg rfl).2] at hacks
      exact ⟨s, hsender, hacks id (PacketDeliveryManager.acks_of_processAcks hid)⟩

/-- **Every call keeps the link.** -/
theorem AckLinked.next (h : w.AckLinked setup) {call : Side × Action}
    (hen : Enabled setup w call) : (w.next setup call).AckLinked setup := by
  obtain ⟨side, action⟩ := call
  cases action with
  | connect ip now => exact h.update ip now rfl rfl rfl rfl rfl rfl
  | sendReliableTo ip fn now => exact h.update ip now rfl rfl rfl rfl rfl rfl
  | sendUnreliableTo ip fn now => exact h.update ip now rfl rfl rfl rfl rfl rfl
  | tick now incoming => exact h.tick now incoming hen

end World

end Neptun
