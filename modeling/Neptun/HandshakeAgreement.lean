/-
Agreement on the handshake.

An endpoint becomes fully connected when a packet is acknowledged whose id is in
front of its handshake queue.  That the other side has read a handshake follows
in three steps: the id stands for a datagram that carries a handshake segment
(`PacketIds.lean`), the acknowledgement for a datagram that was accepted
(`AckLog.lean`), and an accepted packet is read up to its handshake at least.

* `Peer.read_judged` — a handshake segment of an accepted packet is always read
  as a `LetsConnect`, and the manager is connected or has failed afterwards;
* `World.Agreed` — the invariant of the runs;
* `handshake_agreement` — what a fully connected endpoint may conclude.
-/
import Neptun.AckSoundness
import Neptun.PacketIds

namespace Neptun

/-! ### The connection manager -/

namespace ConnectionManager

/-- The manager is connected to the peer, or has judged its limits invalid. -/
def Judged (c : ConnectionManager) : Prop := c.isPeerConnected = true ∨ c.isFail = true

variable {c : ConnectionManager}

theorem judged_received (c : ConnectionManager) (limit : BandwidthLimit) :
    (c.received limit).Judged := by
  rw [received]
  split
  · exact Or.inl rfl
  · exact Or.inr rfl

theorem Judged.status (h : c.Judged) (id : PacketId) (status : PacketDeliveryStatus) :
    (c.onPacketStatusDelivery id status).val.Judged := by
  rcases c.status_cases id status with ⟨-, hval⟩ | ⟨-, -, hval⟩ | ⟨-, -, hval⟩
  · rw [hval]
    exact h
  · rw [hval]
    exact h
  · rw [hval]
    exact h

theorem Judged.read (h : c.Judged) (b : Span) (mem : Memory) : (c.read b mem).val.1.Judged := by
  rw [val_read]
  split_ifs
  · exact h
  · exact h
  · exact judged_received c _
  · exact h
  · exact h

theorem Judged.write (h : c.Judged) (id : PacketId) (b : Span) (mem : Memory) :
    (c.write id b mem).val.1.Judged := by
  rw [write_state]
  split
  · exact h
  · exact h

/-- Only an acknowledgement of the packet in front of the queue makes the manager
connected on its own side. -/
theorem status_selfIsConnected {id : PacketId} {status : PacketDeliveryStatus}
    (h : (c.onPacketStatusDelivery id status).val.selfIsConnected = true) :
    c.selfIsConnected = true ∨ id ∈ c.inFlightLetsConnect ∧ status = .ack := by
  rcases c.status_cases id status with ⟨-, hval⟩ | ⟨hfront, hack, -⟩ | ⟨-, -, hval⟩
  · rw [hval] at h
    exact Or.inl h
  · exact Or.inr ⟨List.mem_of_mem_head? hfront, hack⟩
  · rw [hval] at h
    exact Or.inl h

theorem read_selfIsConnected (c : ConnectionManager) (b : Span) (mem : Memory) :
    (c.read b mem).val.1.selfIsConnected = c.selfIsConnected := by
  rcases read_cases c b mem with ⟨-, hval⟩ | ⟨-, isFail, hval⟩ <;> rw [hval]

theorem write_selfIsConnected (c : ConnectionManager) (id : PacketId) (b : Span) (mem : Memory) :
    (c.write id b mem).val.1.selfIsConnected = c.selfIsConnected := by
  rw [write_state]
  split <;> rfl

/-- A packet that is put on the queue carries a handshake segment. -/
theorem mem_queue_of_write {id x : PacketId} {b : Span} {mem : Memory}
    (h : x ∈ (c.write id b mem).val.1.inFlightLetsConnect) :
    x ∈ c.inFlightLetsConnect ∨ x = id ∧ (c.write id b mem).val.2.2 ≠ 0 := by
  rw [write_state] at h
  split at h
  · next hnum =>
    rcases List.mem_append.mp h with h | h
    · exact Or.inl h
    · refine Or.inr ⟨List.mem_singleton.mp h, ?_⟩
      rw [write, if_pos hnum]
      cases hfail : c.isFail <;>
        simp [writeMessage, hfail, Segment.val_write]
  · exact Or.inl h

end ConnectionManager

/-- The handshake segment of a packet, if it has one, begins like a
`LetsConnect`. -/
theorem Packet.WellFormed.handshake_three {packet : Packet} {limit : BandwidthLimit}
    {header : PacketHeader} (h : packet.WellFormed limit header)
    (hcount : packet.connectionManagerCount ≠ 0) :
    15 ≤ packet.payload.length ∧ (packet.payload.drop 12).take 3 = [0, 1, 0] := by
  have hlength := h.length
  have hlen : ((packet.payload.drop 12).take packet.connectionManagerCount).length
      = packet.connectionManagerCount := by
    rw [List.length_take, List.length_drop]
    omega
  obtain ⟨hthree, hbytes⟩ := HandshakeBytes.take_three h.handshake (by rwa [hlen])
  rw [hlen] at hthree
  rw [List.take_take, Nat.min_eq_left hthree] at hbytes
  exact ⟨by omega, hbytes⟩

/-! ### The stages of a peer -/

namespace Peer

variable {p : Peer} {config : ConnectionManagerConfig}

theorem processDeliveryStatuses_selfIsConnected {statuses : DeliveryStatuses}
    (h : (p.processDeliveryStatuses statuses).val.connectionManager.selfIsConnected = true) :
    p.connectionManager.selfIsConnected = true ∨ ∃ id ∈ p.queue, (id, .ack) ∈ statuses := by
  induction statuses generalizing p with
  | nil => exact Or.inl h
  | cons s statuses ih =>
    obtain ⟨id, status⟩ := s
    simp only [processDeliveryStatuses, Checked.val_bind] at h
    rcases ih h with hself | ⟨x, hx, hack⟩
    · rcases ConnectionManager.status_selfIsConnected hself with hself | ⟨hmem, rfl⟩
      · exact Or.inl hself
      · exact Or.inr ⟨id, hmem, List.mem_cons_self⟩
    · refine Or.inr ⟨x, ?_, List.mem_cons_of_mem _ hack⟩
      exact (p.connectionManager.status_sublist id status).subset hx

theorem dropOldPackets_selfIsConnected {now : ℤ}
    (h : (p.dropOldPackets now).val.1.connectionManager.selfIsConnected = true) :
    p.connectionManager.selfIsConnected = true := by
  rw [val_dropOldPackets] at h
  rcases processDeliveryStatuses_selfIsConnected h with hself | ⟨id, -, hack⟩
  · exact hself
  · cases PacketDeliveryManager.dropOldPackets_drop hack

theorem dropOldPackets_queue (p : Peer) (now : ℤ) :
    (p.dropOldPackets now).val.1.queue.Sublist p.queue := by
  rw [val_dropOldPackets]
  exact (processDeliveryStatuses_frame _ _).2.2

theorem read_queue (config : ConnectionManagerConfig) (p : Peer) (b : Span) (mem : Memory) :
    (p.read config b mem).val.1.queue.Sublist p.queue := by
  rcases read_cases config p b mem with ⟨-, hval⟩ | ⟨-, hval⟩
  · rw [hval]
    exact List.Sublist.refl _
  · rw [hval, (readConnection_frame _ _ _ _ _).2.2]
    exact (processDeliveryStatuses_frame _ _).2.2

/-- What makes the manager connected on its own side is an acknowledgement that
`read` reports. -/
theorem read_selfIsConnected {b : Span} {mem : Memory}
    (h : (p.read config b mem).val.1.connectionManager.selfIsConnected = true) :
    p.connectionManager.selfIsConnected = true ∨
      ∃ id ∈ p.queue, (id, .ack) ∈ (p.read config b mem).val.2.statuses := by
  rw [(read_report config p b mem).2.2]
  rcases read_cases config p b mem with ⟨-, hval⟩ | ⟨-, hval⟩
  · rw [hval] at h
    exact Or.inl h
  · rw [hval, readConnection_connection, ConnectionManager.read_selfIsConnected] at h
    exact @processDeliveryStatuses_selfIsConnected { p with packetDeliveryManager :=
      (p.packetDeliveryManager.processRead (PacketHeader.read b mem).val).val.1 } _ h

/-- The handshake stage of a packet. -/
theorem writeToPeer_connection (p : Peer) (mem : Memory) (now : ℤ) (size : UInt16) :
    ∃ b mem', (p.writeToPeer mem now size).val.1.connectionManager
        = (p.connectionManager.write p.nextId b mem').val.1 ∧
      (p.writeToPeer mem now size).val.2.2.connectionManagerCount
        = (p.connectionManager.write p.nextId b mem').val.2.2 := by
  simp only [writeToPeer, Checked.val_bind, Checked.val_pure, PacketDeliveryManager.val_write,
    PacketHeader.readId_storeList, PacketDeliveryManager.nextHeader_id]
  exact ⟨_, _, rfl, rfl⟩

/-- A packet that is put on the queue carries a handshake segment. -/
theorem mem_queue_of_write {mem : Memory} {now : ℤ} {id : PacketId}
    (h : id ∈ (p.write config mem now).val.1.queue) :
    id ∈ p.queue ∨ id = p.nextId ∧ ∃ packet, (p.write config mem now).val.2.2 = some packet ∧
      packet.connectionManagerCount ≠ 0 := by
  rcases write_cases config p mem now with hval | ⟨-, hval⟩
  · rw [hval] at h
    exact Or.inl h
  · rw [hval] at h ⊢
    obtain ⟨b, mem', hstate, hcount⟩ := writeToPeer_connection { p with
      sendPacketTicker := (p.sendPacketTicker.tick now).val.1 } mem now (p.maxPacketSize config)
    rw [queue, hstate] at h
    rcases ConnectionManager.mem_queue_of_write h with h | ⟨hid, hne⟩
    · exact Or.inl h
    · refine Or.inr ⟨hid, _, rfl, ?_⟩
      rw [hcount]
      exact hne

/-- **The handshake segment of an accepted packet** is read as a `LetsConnect`. -/
theorem read_judged {packet : Packet} {limit : BandwidthLimit} {header : PacketHeader}
    (hformed : packet.WellFormed limit header) (hcount : packet.connectionManagerCount ≠ 0)
    (config : ConnectionManagerConfig) (p : Peer) (mem : Memory)
    (haccepted : (p.read config ⟨0, (packet.payload.take kJustAboveMtu).length⟩
      (mem.storeList 0 (packet.payload.take kJustAboveMtu))).val.2.accepted = true) :
    (p.read config ⟨0, (packet.payload.take kJustAboveMtu).length⟩
      (mem.storeList 0 (packet.payload.take kJustAboveMtu))).val.1.connectionManager.Judged := by
  obtain ⟨hlength, hbytes⟩ := hformed.handshake_three hcount
  -- the bytes are in the network buffer
  have hcut : 15 ≤ (packet.payload.take kJustAboveMtu).length := by
    rw [List.length_take, kJustAboveMtu]
    omega
  have hslice : (mem.storeList 0 (packet.payload.take kJustAboveMtu)).slice 12 3 = [0, 1, 0] := by
    rw [slice_storeList_eq mem _ (by omega), List.drop_take, List.take_take, ← hbytes]
    rfl
  rcases read_cases config p ⟨0, (packet.payload.take kJustAboveMtu).length⟩
    (mem.storeList 0 (packet.payload.take kJustAboveMtu)) with ⟨-, hval⟩ | ⟨-, hval⟩
  · rw [hval] at haccepted
    cases haccepted
  · rw [hval, readConnection_connection, usizeSub_of_le (by dsimp only; omega)]
    rw [ConnectionManager.read_letsConnect _ (by dsimp only; omega) hslice]
    exact ConnectionManager.judged_received _ _

end Peer

theorem Peer.write_judged {p : Peer} (h : p.connectionManager.Judged)
    (config : ConnectionManagerConfig) (mem : Memory) (now : ℤ) :
    (p.write config mem now).val.1.connectionManager.Judged := by
  rcases write_cases config p mem now with hval | ⟨-, hval⟩
  · rw [hval]
    exact h
  · rw [hval]
    exact ConnectionManager.Judged.write h _ _ _

/-- The verdict stays. -/
theorem Endpoint.Distinct.find_judged {n : Endpoint} (h : n.Distinct) {ip : IpAddress} {p : Peer}
    (hp : n.peers.find ip = some p) (hjudged : p.connectionManager.Judged)
    (call : EndpointCall) :
    ∃ p', (n.next call).peers.find ip = some p' ∧ p'.connectionManager.Judged := by
  refine h.find_next (P := fun p => p.connectionManager.Judged) (fun _ hq => hq)
    (fun _ _ hq => hq) (fun _ _ hq => hq) (fun q now hq => ?_)
    (fun q b mem hq => Peer.read_keeps (fun _ _ _ hc => hc.status _ _)
      (fun _ _ _ hc => hc.read _ _) _ hq b mem)
    (fun q mem now hq => Peer.write_judged hq _ mem now) hp hjudged call
  rw [Peer.val_dropOldPackets]
  refine Peer.processDeliveryStatuses_keeps (fun _ _ _ hc => hc.status _ _) ?_ _
  exact hq

/-! ### Runs -/

namespace World

open PeerMap

/-- The handshake queue of an entry holds packets with a handshake segment, and
an entry that is connected on its own side has had one of them accepted. -/
structure PeerAgreed (setup : Setup) (w : World) (side : Side) (ip : IpAddress) (p : Peer) :
    Prop where
  queue : ∀ id ∈ p.queue, ∃ dg ∈ w.sent, dg.sender = setup.address side ∧ dg.receiver = ip ∧
    datagramId dg.packet.payload = id ∧ dg.packet.connectionManagerCount ≠ 0
  accepted : p.connectionManager.selfIsConnected = true → ∃ s dg id, setup.address s = ip ∧
    dg.sender = setup.address side ∧ dg.packet.connectionManagerCount ≠ 0 ∧ w.Accepted s dg id

/-- Ids say which datagram was accepted, and whoever has accepted a handshake has
judged it. -/
structure Agreed (setup : Setup) (w : World) : Prop where
  ackLinked : w.AckLinked setup
  numbered : w.Numbered setup
  ids : ∀ s dg id, w.Accepted s dg id → datagramId dg.packet.payload = id
  entries : ∀ side, All (w.PeerAgreed setup side) (w.endpoint side).peers
  judged : ∀ s dg id, w.Accepted s dg id → dg.packet.connectionManagerCount ≠ 0 →
    ∃ q, (w.endpoint s).peers.find dg.sender = some q ∧ q.connectionManager.Judged

variable {setup : Setup} {w : World} {side : Side} {now : ℤ} {ip : IpAddress} {p : Peer}

theorem agreed_init (setup : Setup) : (init setup).Agreed setup where
  ackLinked := ackLinked_init setup
  numbered := numbered_init setup
  ids := by
    rintro s dg id ⟨entry, hentry, -⟩
    cases hentry
  entries := fun _ => all_nil
  judged := by
    rintro s dg id ⟨entry, hentry, -⟩
    cases hentry

namespace PeerAgreed

variable {n : Endpoint} {sent : List Datagram} {entry : LogEntry}

theorem extend {s : Side} (h : w.PeerAgreed setup s ip p) :
    (w.extend side n sent entry).PeerAgreed setup s ip p := by
  constructor
  · intro id hid
    obtain ⟨dg, hdg, hrest⟩ := h.queue id hid
    exact ⟨dg, List.mem_append_left _ hdg, hrest⟩
  · intro hself
    obtain ⟨s', dg, id, hs', hsender, hcount, e, he, hrest⟩ := h.accepted hself
    exact ⟨s', dg, id, hs', hsender, hcount, e, List.mem_append_left _ he, hrest⟩

theorem createPeer (w : World) (n : Endpoint) (ip : IpAddress) (now : ℤ) :
    w.PeerAgreed setup side ip (n.createPeer 0 now) := by
  constructor
  · intro id hid
    cases hid
  · intro hself
    cases hself

theorem dropOldPackets (h : w.PeerAgreed setup side ip p) (now : ℤ) :
    w.PeerAgreed setup side ip (p.dropOldPackets now).val.1 :=
  ⟨fun id hid => h.queue id ((p.dropOldPackets_queue now).subset hid),
    fun hself => h.accepted (Peer.dropOldPackets_selfIsConnected hself)⟩

end PeerAgreed

variable {incoming : Option Datagram}

/-- A datagram was accepted before, or by the tick that reads it. -/
theorem accepted_tick {s : Side} {dg : Datagram} {id : PacketId}
    (h : (w.next setup (side, .tick now incoming)).Accepted s dg id) :
    w.Accepted s dg id ∨ s = side ∧ incoming = some dg ∧
      let report := (((w.endpoint side).readEntry now dg.sender).read
        (w.endpoint side).connectionManagerConfig
        ⟨0, (dg.packet.payload.take kJustAboveMtu).length⟩
        ((w.endpoint side).networkBuffer.storeList 0
          (dg.packet.payload.take kJustAboveMtu))).val.2
      report.accepted = true ∧ report.packetId = id := by
  obtain ⟨entry, hentry, hside, hincoming, report, hread, haccepted, hid⟩ := h
  rcases List.mem_append.mp hentry with hold | hnew
  · exact Or.inl ⟨entry, hold, hside, hincoming, report, hread, haccepted, hid⟩
  · rw [List.mem_singleton.mp hnew] at hside hincoming hread
    dsimp only at hside hincoming hread
    subst hside hincoming
    simp only [Option.map_some, Endpoint.tick_read_some, Option.some.injEq, Prod.mk.injEq,
      true_and] at hread
    subst hread
    exact Or.inr ⟨rfl, rfl, haccepted, hid⟩

/-- The entry that a tick reads on: an acknowledgement of a packet in the handshake
queue is one of a datagram with a handshake segment. -/
theorem PeerAgreed.read {w : World} (hlinked : w.AckLinked setup) (hnumbered : w.Numbered setup)
    (hids : ∀ s dg id, w.Accepted s dg id → datagramId dg.packet.payload = id)
    {config : ConnectionManagerConfig} {b : Span} {mem : Memory} {entry : LogEntry}
    (hentry : entry ∈ w.log) (hside : entry.side = side)
    (hread : entry.report.read = some (ip, (p.read config b mem).val.2))
    (h : w.PeerAgreed setup side ip p) :
    w.PeerAgreed setup side ip (p.read config b mem).val.1 := by
  refine ⟨fun id hid => h.queue id ((Peer.read_queue config p b mem).subset hid), ?_⟩
  intro hself
  rcases Peer.read_selfIsConnected hself with hself | ⟨id, hqueue, hack⟩
  · exact h.accepted hself
  · obtain ⟨dg, hdg, hsender, hreceiver, hid, hcount⟩ := h.queue id hqueue
    obtain ⟨s, hs, dg', hsender', haccepted⟩ := hlinked.acked entry hentry _ hread id hack
    rw [hside] at hsender'
    -- the datagram that was accepted is the one in the queue
    have hsame : dg' = dg := by
      have hid' := hids s dg' id haccepted
      obtain ⟨e, he, heside, hincoming, -⟩ := haccepted
      obtain ⟨hsent, hreceiver'⟩ := hlinked.incoming e he dg' hincoming
      rw [heside] at hreceiver'
      exact hnumbered.unique dg' hsent dg hdg (hsender'.trans hsender.symm)
        (hreceiver'.trans (hs.trans hreceiver.symm)) (hid'.trans hid.symm)
    rw [hsame] at haccepted
    exact ⟨s, dg, id, hs, hsender, hcount, haccepted⟩

namespace Agreed

theorem tick (h : w.Agreed setup)
    (hen : ∀ dg ∈ incoming, dg ∈ w.sent ∧ dg.receiver = setup.address side)
    (hcount : (w.next setup (side, .tick now incoming)).sent.length < 2 ^ 32) :
    (w.next setup (side, .tick now incoming)).Agreed setup := by
  have hlinked := h.ackLinked.tick now incoming hen
  have hnumbered := h.numbered.tick hcount
  have hids : ∀ s dg id, (w.next setup (side, .tick now incoming)).Accepted s dg id →
      datagramId dg.packet.payload = id := by
    intro s dg id haccepted
    rcases accepted_tick haccepted with hold | ⟨-, hincoming, -, hid⟩
    · exact h.ids s dg id hold
    · obtain ⟨s', header, -, hformed, -⟩ := h.ackLinked.sent dg (hen dg hincoming).1
      rw [← hid, (Peer.read_report _ _ _ _).1, val_read_datagram hformed.header _ rfl,
        datagramId_of_header hformed.header]
  refine ⟨hlinked, hnumbered, hids, fun s => ?_, ?_⟩
  · by_cases hs : s = side
    · subst hs
      -- timeouts and the datagram come first, then every entry is written to
      have hbefore : All ((w.next setup (s, .tick now incoming)).PeerAgreed setup s)
          ((w.endpoint s).beforeWrite now (found incoming)).peers := by
        refine Endpoint.beforeWrite_all_of_read ((h.entries s).mono fun ip p hp => hp.extend)
          (fun ip p hp => hp.dropOldPackets now)
          (fun ip => PeerAgreed.createPeer _ _ ip now) ?_
        intro sender payload hincoming hp
        obtain ⟨dg, rfl, heq⟩ := Option.map_eq_some_iff.mp hincoming
        cases heq
        exact hp.read hlinked hnumbered hids (List.mem_append_right _ List.mem_cons_self) rfl
          (Endpoint.tick_read_some _ _ _ _)
      rw [endpoint_tick]
      rintro ⟨ip, p⟩ he
      have hkeys := hnumbered.distinct s
      rw [endpoint_tick] at hkeys
      obtain ⟨q, mem, hq, rfl, hsent⟩ :=
        (h.numbered.distinct s).tick_find (find_of_mem hkeys he)
      have hagreed := hbefore.find hq
      refine ⟨fun id hid => ?_, fun hself => hagreed.accepted ?_⟩
      · rcases Peer.mem_queue_of_write hid with hold | ⟨rfl, packet, hpacket, hne⟩
        · exact hagreed.queue id hold
        · -- the packet that was put on the queue has been sent
          refine ⟨⟨setup.address s, ip, packet⟩, ?_, rfl, rfl,
            (Peer.write_nextId_of_some hpacket).1, hne⟩
          rw [sent_tick]
          exact List.mem_append_right _ (List.mem_map.mpr ⟨_, (hsent packet).mpr hpacket, rfl⟩)
      -- writing does not touch what the entry knows about its own side
      · rw [← hself]
        exact (Peer.write_connection _ ConnectionManager.write_selfIsConnected _ _ _ _).symm
    · rw [next_endpoint_of_ne setup w hs]
      exact (h.entries s).mono fun ip p hp => hp.extend
  · intro s dg id haccepted hne
    rcases accepted_tick haccepted with hold | ⟨rfl, rfl, hacc, -⟩
    · -- the verdict stays
      obtain ⟨q, hq, hjudged⟩ := h.judged s dg id hold hne
      by_cases hs : s = side
      · subst hs
        rw [next_endpoint_self]
        exact (h.numbered.distinct s).find_judged hq hjudged _
      · rw [next_endpoint_of_ne setup w hs]
        exact ⟨q, hq, hjudged⟩
    · -- the handshake has been read just now
      obtain ⟨s', header, -, hformed, -⟩ := h.ackLinked.sent dg (hen dg rfl).1
      have hjudged := Peer.read_judged hformed hne _ _ _ hacc
      have hbefore := (w.endpoint s).find_beforeWrite_sender now dg.sender dg.packet.payload
      obtain ⟨mem, hfind, -⟩ := (h.numbered.distinct s).tick_entry now _ hbefore
      rw [endpoint_tick]
      exact ⟨_, hfind, Peer.write_judged hjudged _ mem now⟩

/-- A call that changes one entry, and neither its handshake queue nor what it
knows about its own side. -/
theorem update (h : w.Agreed setup) (call : EndpointCall) (ip : IpAddress) (now : ℤ)
    {entry : LogEntry} {p' : Peer}
    (hpeers : ((w.endpoint side).next call).peers
      = ((w.endpoint side).findOrCreatePeer 0 ip now).1.peers.update ip p')
    (hqueue : p'.queue = ((w.endpoint side).findOrCreatePeer 0 ip now).2.queue)
    (hself : p'.connectionManager.selfIsConnected
      = ((w.endpoint side).findOrCreatePeer 0 ip now).2.connectionManager.selfIsConnected)
    (hincoming : entry.incoming = none)
    (hlinked : (w.extend side ((w.endpoint side).next call) [] entry).AckLinked setup)
    (hnumbered : (w.extend side ((w.endpoint side).next call) [] entry).Numbered setup) :
    (w.extend side ((w.endpoint side).next call) [] entry).Agreed setup := by
  -- nothing is read, so nothing new is accepted
  have haccepted : ∀ s dg id, (w.extend side ((w.endpoint side).next call) [] entry).Accepted
      s dg id → w.Accepted s dg id := by
    rintro s dg id ⟨e, he, heside, hein, hrest⟩
    rcases List.mem_append.mp he with he | he
    · exact ⟨e, he, heside, hein, hrest⟩
    · rw [List.mem_singleton.mp he, hincoming] at hein
      cases hein
  refine ⟨hlinked, hnumbered, fun s dg id hacc => h.ids s dg id (haccepted s dg id hacc),
    fun s => ?_, fun s dg id hacc hne => ?_⟩
  · by_cases hs : s = side
    · subst hs
      rw [extend_endpoint_self, hpeers]
      obtain ⟨hall, hp⟩ := Endpoint.findOrCreatePeer_all ip (h.entries s)
        (PeerAgreed.createPeer w (w.endpoint s) ip now)
      have hp' : w.PeerAgreed setup s ip p' := by
        constructor
        · rw [hqueue]
          exact hp.queue
        · rw [hself]
          exact hp.accepted
      exact (hall.update hp').mono fun ip p hp => hp.extend
    · rw [extend_endpoint_of_ne hs]
      exact (h.entries s).mono fun ip p hp => hp.extend
  · obtain ⟨q, hq, hjudged⟩ := h.judged s dg id (haccepted s dg id hacc) hne
    by_cases hs : s = side
    · subst hs
      rw [extend_endpoint_self]
      exact (h.numbered.distinct s).find_judged hq hjudged call
    · rw [extend_endpoint_of_ne hs]
      exact ⟨q, hq, hjudged⟩

/-- **Every call keeps the agreement.** -/
theorem next (h : w.Agreed setup) {call : Side × Action} (hen : Enabled setup w call)
    (hcount : (w.next setup call).sent.length < 2 ^ 32) : (w.next setup call).Agreed setup := by
  have hlinked := h.ackLinked.next hen
  have hnumbered := h.numbered.next call hcount
  obtain ⟨side, action⟩ := call
  cases action with
  | connect ip now =>
    exact h.update (.connect ip now) ip now rfl rfl rfl rfl hlinked hnumbered
  | sendReliableTo ip fn now =>
    exact h.update (.sendReliableTo ip fn now) ip now rfl rfl rfl rfl hlinked hnumbered
  | sendUnreliableTo ip fn now =>
    exact h.update (.sendUnreliableTo ip fn now) ip now rfl rfl rfl rfl hlinked hnumbered
  | tick now incoming => exact h.tick hen hcount

end Agreed

/-- The endpoint has executed the `LetsConnect` case of `read` on the datagram: it
has accepted the packet, and there is a handshake segment with a `LetsConnect`
behind its header. -/
def HasReadLetsConnect (w : World) (side : Side) (dg : Datagram) : Prop :=
  (∃ id, w.Accepted side dg id) ∧ dg.packet.connectionManagerCount ≠ 0 ∧
    (dg.packet.payload.drop 12).take 3
      = [ManagerType.connectionManager.toU8, 1, LetsConnect.kId]

end World

/-- **Agreement on the handshake.**  If an endpoint is fully connected, the other
one has read a handshake of it as a `LetsConnect`, and is connected or has
judged the limits invalid. -/
theorem handshake_agreement {setup : Setup} {w : World}
    (h : (network setup).Reachable System.anyAction w) (hcount : w.sent.length < 2 ^ 32)
    (side : Side) {p : Peer}
    (hp : (w.endpoint side).peers.find (setup.address side.other) = some p)
    (hconnected : p.connectionManager.isFullyConnected = true) :
    (∃ dg ∈ w.sent, dg.sender = setup.address side ∧
      dg.receiver = setup.address side.other ∧ w.HasReadLetsConnect side.other dg) ∧
    ∃ q, (w.endpoint side.other).peers.find (setup.address side) = some q ∧
      (q.connectionManager.isPeerConnected = true ∨ q.connectionManager.isFail = true) := by
  have hagreed : w.Agreed setup := by
    refine h.invariant_of_bound (fun w => w.sent.length < 2 ^ 32) ?_ ?_ ?_ hcount
    · intro w call hnext
      exact Nat.lt_of_le_of_lt (World.length_sent_le_next setup w call) hnext
    · rintro w rfl
      exact World.agreed_init setup
    · exact fun w call _ ih hen _ hnext => ih.next hen hnext
  have hself : p.connectionManager.selfIsConnected = true := by
    rw [ConnectionManager.isFullyConnected, Bool.and_eq_true] at hconnected
    exact hconnected.2
  obtain ⟨s, dg, id, hs, hsender, hne, haccepted⟩ :=
    ((hagreed.entries side).find hp).accepted hself
  obtain rfl : s = side.other := setup.address_injective hs
  have hjudged := hagreed.judged _ dg id haccepted hne
  rw [hsender] at hjudged
  refine ⟨?_, hjudged⟩
  have hsent : dg ∈ w.sent ∧ dg.receiver = setup.address side.other := by
    obtain ⟨entry, hentry, hside, hincoming, -⟩ := haccepted
    rw [← hside]
    exact hagreed.ackLinked.incoming entry hentry dg hincoming
  obtain ⟨s, header, -, hformed, -⟩ := hagreed.ackLinked.sent dg hsent.1
  exact ⟨dg, hsent.1, hsender, hsent.2, ⟨id, haccepted⟩, hne, (hformed.handshake_three hne).2⟩

/-- A request and the answer to it: `a` is fully connected, and `b` has read the
request. -/
theorem handshake_agreement_answered :
    let setup := Setup.alike ⟨0, ⟨0, 1400, 0, 1400⟩⟩ 5000
    let request : Datagram := ⟨⟨1, 1⟩, ⟨2, 1⟩,
      ⟨[0, 0, 0, 0, 0, 0, 0, 0, 0, 0, 0, 0, 0, 1, 0, 0, 0, 0, 5, 120, 5], 12, 9, 0, 0⟩⟩
    let answer : Datagram := ⟨⟨2, 1⟩, ⟨1, 1⟩,
      ⟨[0, 0, 0, 0, 0, 0, 0, 0, 0, 0, 0, 1, 0, 1, 0, 0, 0, 0, 5, 120, 5], 12, 9, 0, 0⟩⟩
    let w := (network setup).runFrom (World.init setup)
      [(.a, .connect ⟨2, 1⟩ 0), (.a, .tick 0 none), (.b, .tick 0 (some request)),
        (.a, .tick 0 (some answer))]
    (∃ p ∈ (w.endpoint .a).peers.find ⟨2, 1⟩, p.connectionManager.isFullyConnected = true) ∧
      ∃ dg ∈ w.sent, dg.sender = ⟨1, 1⟩ ∧ dg.receiver = ⟨2, 1⟩ ∧ w.HasReadLetsConnect .b dg := by
  intro setup request answer w
  have hconnected : ∃ p ∈ (w.endpoint .a).peers.find ⟨2, 1⟩,
      p.connectionManager.isFullyConnected = true := by decide +kernel
  refine ⟨hconnected, ?_⟩
  obtain ⟨p, hp, hfull⟩ := hconnected
  have hreachable : (network setup).Reachable System.anyAction w :=
    System.runFrom_reachable (.init rfl) (by decide +kernel)
  exact (handshake_agreement hreachable (by decide +kernel) .a hp hfull).1

end Neptun
