/-
Two endpoints on a network never fail an assertion.

What an endpoint can break is known from `Obligations.lean`.  Some of it takes a stranger:
the network keeps the order, so that the datagrams of the other endpoint are never old
(`DatagramOrder.lean`), and then nothing waits for a packet that is not in flight, the
pending acknowledgements increase, and no stage is given fewer bytes than it takes.

* `Peer.Orderly` — the invariant of an entry, kept as long as no datagram is old;
* `orderly_of_reachable` — it holds of all entries while the endpoints read nothing but
  each other's datagrams;
* `no_assertion_fails` — what is left then are the two slips of the handshake.
-/
import Neptun.AckEncoding
import Neptun.DatagramOrder
import Neptun.Obligations

namespace Neptun

/-! ### Entries -/

/-- Everything that waits waits for a packet in flight, and the pending acknowledgements are
in order. -/
structure Peer.Orderly (count : ℕ) (p : Peer) : Prop where
  ordered : p.Ordered count
  tracked : p.Tracked
  sorted : SortedIds UInt32.toNat p.packetDeliveryManager.pendingAcks
  below : ∀ id ∈ p.packetDeliveryManager.pendingAcks,
    id.toNat < p.packetDeliveryManager.nextExpectedPacketId.toNat

namespace Peer.Orderly

variable {p p' : Peer} {count : ℕ} {now : ℤ}

theorem fresh (config : ConnectionManagerConfig) (packetTimeout now : ℤ) (count : ℕ) :
    (Peer.fresh config packetTimeout now).Orderly count where
  ordered := ordered_createPeer
    { packetTimeout := packetTimeout, connectionManagerConfig := config } 0 now
  tracked := tracked_createPeer
    { packetTimeout := packetTimeout, connectionManagerConfig := config } 0 now
  sorted := List.Pairwise.nil
  below := by
    intro id hid
    cases hid

/-- Neither the delivery manager changes nor what waits. -/
theorem congr (h : p.Orderly count) (hdelivery : p'.packetDeliveryManager = p.packetDeliveryManager)
    (htags : p'.tags = p.tags) (hqueue : p'.queue = p.queue) : p'.Orderly count where
  ordered := h.ordered.shrink (by rw [hdelivery]) (by rw [htags]) (by rw [hqueue])
    (by rw [hdelivery])
  tracked := by
    rw [tracked_iff, hdelivery, htags, hqueue]
    exact tracked_iff.mp h.tracked
  sorted := by
    rw [hdelivery]
    exact h.sorted
  below := by
    rw [hdelivery]
    exact h.below

theorem dropOldPackets (h : p.Orderly count) (now : ℤ) :
    (p.dropOldPackets now).val.1.Orderly count where
  ordered := h.ordered.dropOldPackets now
  tracked := (h.ordered.dropOldPackets_tracked h.tracked now).1
  sorted := by
    rw [dropOldPackets_delivery]
    exact h.sorted
  below := by
    rw [dropOldPackets_delivery]
    exact h.below

/-- A datagram that is not old is acknowledged behind all others. -/
theorem read (h : p.Orderly count) (config : ConnectionManagerConfig) {b : Span} {mem : Memory}
    (hnew : ¬ (PacketHeader.read b mem).val.id < p.packetDeliveryManager.nextExpectedPacketId)
    (hid : (PacketHeader.read b mem).val.id.toNat + 1 < 2 ^ 32) :
    (p.read config b mem).val.1.Orderly count := by
  rcases p.packetDeliveryManager.processRead_cases (PacketHeader.read b mem).val with
    ⟨-, hlt, -⟩ | ⟨-, -, hpending, hexp⟩
  · exact absurd hlt hnew
  have hlast : ∀ id ∈ p.packetDeliveryManager.pendingAcks,
      id.toNat < (PacketHeader.read b mem).val.id.toNat := by
    intro id hmem
    rw [UInt32.lt_iff_toNat_lt] at hnew
    exact Nat.lt_of_lt_of_le (h.below id hmem) (Nat.not_lt.mp hnew)
  refine ⟨h.ordered.read config b mem, ?_, ?_, ?_⟩
  · exact (read_tracked_iff h.ordered h.tracked config b mem).mpr fun hlt => absurd hlt hnew
  · rw [read_delivery, hpending]
    exact h.sorted.append_new hlast
  · rw [read_delivery, hpending, hexp]
    intro id hmem
    rw [UInt32.toNat_add, UInt32.toNat_one, Nat.mod_eq_of_lt hid]
    rcases List.mem_append.mp hmem with hmem | hmem
    · exact Nat.lt_succ_of_lt (hlast id hmem)
    · rw [List.mem_singleton.mp hmem]
      exact Nat.lt_succ_self _

theorem write (h : p.Orderly count) (config : ConnectionManagerConfig) (mem : Memory)
    (hcount : count + (p.write config mem now).val.2.2.toList.length < 2 ^ 32) :
    (p.write config mem now).val.1.Orderly
      (count + (p.write config mem now).val.2.2.toList.length) := by
  refine ⟨h.ordered.write config mem now hcount,
    (h.ordered.write_tracked config mem now).mpr h.tracked, ?_, ?_⟩
  · rcases write_delivery config p mem now with hdelivery | hdelivery
    · rw [hdelivery]
      exact h.sorted
    · rw [hdelivery]
      exact PacketDeliveryManager.nextHeader_pendingAcks_sorted h.sorted now
  · rcases write_delivery config p mem now with hdelivery | hdelivery
    · rw [hdelivery]
      exact h.below
    · have hexp := congrArg PacketDeliveryManager.nextExpectedPacketId
        (p.packetDeliveryManager.nextHeader_frame now)
      rw [hdelivery, hexp]
      exact fun id hmem => h.below id (PacketDeliveryManager.nextHeader_pendingAcks_subset hmem)

/-! ### The faults of an orderly entry -/

theorem avoids_dropOldPackets (h : p.Orderly count) (hstreams : p.StreamsSound) (now : ℤ) :
    (p.dropOldPackets now).Avoids fun f => f ≠ .popEmpty := by
  intro f hf hne
  rcases not_not.mp (hstreams.avoids_dropOldPackets now f hf) with hpop | horder
  · exact hne hpop
  · exact (h.ordered.dropOldPackets_tracked h.tracked now).2 f hf horder

theorem avoids_read (h : p.Orderly count) (hstreams : p.StreamsSound)
    (config : ConnectionManagerConfig) {b : Span} {mem : Memory}
    (hadvance : (p.read config b mem).Avoids (· = .advance)) :
    (p.read config b mem).Avoids fun f => f ≠ .load ∧ f ≠ .popEmpty := by
  rintro f hf ⟨hload, hpop⟩
  rcases not_not.mp (hstreams.avoids_read config b mem f hf) with hkind | hkind | hkind | horder
  · exact hload hkind
  · exact hadvance f hf hkind
  · exact hpop hkind
  · exact h.ordered.read_avoids_order h.tracked config b mem f hf horder

theorem faults_write (h : p.Orderly count) {config : ConnectionManagerConfig}
    (hconfig : 100 ≤ config.limit.maxSendPacketSize) (hlimits : p.LimitsValid)
    (hticker : p.TickerSafe) (mem : Memory) (now : ℤ) : (p.write config mem now).faults = [] := by
  have hheader := (PacketDeliveryManager.nextHeader_sorted h.sorted now).2
  exact (avoids_write_of_valid hconfig hlimits hticker hheader mem).faults_eq_nil
    (avoids_write_of_valid hconfig hlimits hticker
      (PacketDeliveryManager.avoids_nextHeader (fun h => h rfl) _ _) mem)

end Peer.Orderly

/-! ### The bytes of the other endpoint -/

theorem ConnectionManager.read_avoids_advance (c : ConnectionManager) {b : Span} {mem : Memory}
    (h : 2 ≤ b.size → mem b.off = 0 → 3 ≤ b.size) :
    (c.read b mem).Avoids (· = .advance) := by
  have hload : ¬ Fault.load = .advance := Fault.noConfusion
  have hletsConnect : ∀ b, (c.readLetsConnect b mem).Avoids (· = .advance) := by
    intro b
    simp only [readLetsConnect, validate, setPeerBandwidthLimit, LetsConnect.maxSendPacketSize,
      LetsConnect.maxReadPacketSize, LetsConnect.maxSendPacketRate,
      LetsConnect.maxReadPacketRate, Checked.avoids_bind, Checked.avoids_ite,
      Checked.avoids_pure, avoids_readU8, avoids_readU16, hload, false_imp_iff, implies_true,
      and_self]
  rw [read, Checked.avoids_ite]
  refine ⟨fun _ => Checked.avoids_pure _, fun hsize => ?_⟩
  simp only [Segment.kSerializedSize] at hsize
  simp only [Segment.managerType, Segment.messageCount, MessageHeader.messageType,
    Segment.kManagerTypeOffset, Segment.kSerializedSize, MessageHeader.kSerializedSize,
    ManagerType.toU8, Checked.avoids_ite, Checked.avoids_bind, Checked.avoids_pure,
    avoids_readU8, avoids_advance, val_readU8, hload, hletsConnect, false_imp_iff, implies_true,
    forall_const, and_true, true_and, Nat.add_zero]
  intro hzero _
  have hthree := h (by omega) (not_not.mp hzero)
  exact ⟨by omega, fun _ => hthree⟩

/-- If the handshake is inside the span, nothing is advanced past its end. -/
theorem Peer.readConnection_avoids_advance (config : ConnectionManagerConfig) (p : Peer)
    {b : Span} {mem : Memory} (report : ReadReport) {count : ℕ}
    (hread : (p.connectionManager.read b mem).val.2 = .ok count) (hcount : count ≤ b.size) :
    (readConnection config p b mem report).Avoids (· = .advance) := by
  have hmanager : (p.connectionManager.read b mem).Avoids (· = .advance) := by
    refine p.connectionManager.read_avoids_advance fun hsize hzero => ?_
    -- a handshake that was read has nine bytes
    rw [ConnectionManager.val_read, if_neg (by simp [hzero]; omega)] at hread
    split_ifs at hread
    cases hread
    omega
  rw [readConnection, Checked.avoids_bind]
  refine ⟨hmanager, ?_⟩
  dsimp only
  rw [hread]
  dsimp only
  rw [Checked.avoids_bind, avoids_advance]
  refine ⟨fun _ => hcount, ?_⟩
  split
  · exact Checked.avoids_pure _
  · exact (readStreams_avoids _ _ _ _ _ _).mono fun f hf => Or.inr hf

/-- No stage of a packet of the other endpoint is advanced past the end of its span. -/
theorem Peer.read_avoids_advance {limit : BandwidthLimit} {sent : List (List UInt8)}
    {content : PacketContent} (h : content.Formed limit sent) (hlimit : limit.Robust) {p : Peer}
    (hstreams : p.StreamsSound) (config : ConnectionManagerConfig) (mem : Memory) :
    (p.read config ⟨0, content.bytes.length⟩ (mem.storeList 0 content.bytes)).Avoids
      (· = .advance) := by
  have hlength := content.length_bytes
  have hresolved : ∀ manager, StreamsSound { p with packetDeliveryManager := manager } :=
    fun manager => ⟨hstreams.reliable, hstreams.unreliable⟩
  have hprocess := p.packetDeliveryManager.faults_processRead (PacketHeader.read
    ⟨0, content.bytes.length⟩ (mem.storeList 0 content.bytes)).val
  rw [Peer.read, Checked.avoids_bind]
  constructor
  · simp only [PacketHeader.read, PacketHeader.readId, PacketHeader.readAckSequenceNumber,
      PacketHeader.readAckBitmask, Checked.avoids_bind, Checked.avoids_pure, avoids_readU32,
      reduceCtorEq, false_imp_iff, and_self]
  rw [Checked.avoids_bind, Checked.Avoids, hprocess]
  refine ⟨fun f hf => absurd hf List.not_mem_nil, ?_⟩
  dsimp only
  rw [Checked.avoids_ite]
  refine ⟨fun _ => Checked.avoids_pure _, fun hcount => ?_⟩
  have htwelve : (p.packetDeliveryManager.processRead (PacketHeader.read
      ⟨0, content.bytes.length⟩ (mem.storeList 0 content.bytes)).val).val.2.1 = 12 := by
    rcases p.packetDeliveryManager.processRead_cases _ with ⟨hzero, -⟩ | ⟨htwelve, -⟩
    · exact absurd hzero hcount
    · exact htwelve
  rw [htwelve, Checked.avoids_bind, Checked.avoids_bind, avoids_advance]
  refine ⟨fun _ => by dsimp only; omega, ?_, ?_⟩
  · refine ((hresolved _).avoids_status _).mono fun f hf hstatus => ?_
    rw [hf] at hstatus
    rcases hstatus with hstatus | hstatus | hstatus <;> cases hstatus
  · have hslice := Memory.slice_storeList_self mem 0 content.bytes
    generalize mem.storeList 0 content.bytes = mem' at hslice ⊢
    rw [PacketContent.bytes] at hslice
    obtain ⟨-, htail⟩ := Memory.slice_eq_of_append hslice
    rw [PacketHeader.length_encode] at htail
    have hsize : usizeSub content.bytes.length 12 = (content.handshake ++ (encodeSegment
        content.messages ++ encodeUnreliable content.chunk)).length := by
      rw [usizeSub_of_le (by omega), List.length_append, List.length_append]
      omega
    simp only [val_advance, hsize]
    generalize (processDeliveryStatuses _ _).val = q
    exact readConnection_avoids_advance config q _
      (ConnectionManager.read_content h hlimit q.connectionManager (b := ⟨0 + 12, _⟩) rfl htail).1
      (List.length_append ▸ Nat.le_add_right _ _)

/-! ### The machine of an address -/

/-- The entry of an address, if there is one, is orderly. -/
def PeerNode.Orderly (x : PeerNode) : Prop :=
  ∀ p ∈ x.entry, p.Orderly x.history.packets.length

namespace PeerNode.Orderly

variable {x : PeerNode} {config : ConnectionManagerConfig} {packetTimeout now : ℤ}

theorem getD (h : x.Orderly) (config : ConnectionManagerConfig) (packetTimeout now : ℤ) :
    (x.entry.getD (.fresh config packetTimeout now)).Orderly x.history.packets.length := by
  cases hentry : x.entry with
  | none => exact Peer.Orderly.fresh _ _ _ _
  | some p => exact h p hentry

theorem dropOldPackets (h : x.Orderly) (now : ℤ) : (x.dropOldPackets now).Orderly := by
  intro p hp
  obtain ⟨q, hq, rfl⟩ := Option.map_eq_some_iff.mp hp
  exact (h q hq).dropOldPackets now

theorem write (h : x.Orderly) (mem : Memory)
    (hcount : (x.write config now mem).history.packets.length < 2 ^ 32) :
    (x.write config now mem).Orderly := by
  rw [PeerNode.write] at hcount ⊢
  cases hentry : x.entry with
  | none => exact h
  | some q =>
    rw [hentry] at hcount
    intro p hp
    cases hp
    dsimp only at hcount ⊢
    rw [List.length_append, List.length_map] at hcount ⊢
    exact (h q hentry).write config mem hcount

/-- A tick keeps the entry orderly unless it reads an old datagram. -/
theorem tick (h : x.Orderly) {incoming : Option (List UInt8)} {readBuffer writeBuffer : Memory}
    (hread : ∀ payload ∈ incoming, let header := (PacketHeader.read
        ⟨0, (payload.take kJustAboveMtu).length⟩
        (readBuffer.storeList 0 (payload.take kJustAboveMtu))).val
      ¬ header.id < x.expected ∧ header.id.toNat + 1 < 2 ^ 32)
    (hcount : (x.tick config packetTimeout now incoming readBuffer
      writeBuffer).history.packets.length < 2 ^ 32) :
    (x.tick config packetTimeout now incoming readBuffer writeBuffer).Orderly := by
  unfold PeerNode.tick at hcount ⊢
  refine write ?_ writeBuffer hcount
  cases incoming with
  | none => exact h.dropOldPackets now
  | some payload =>
    obtain ⟨hnew, hid⟩ := hread payload rfl
    intro p hp
    cases hp
    refine ((h.dropOldPackets now).getD config packetTimeout now).read config ?_ hid
    rw [← expected_getD, expected_dropOldPackets]
    exact hnew

end PeerNode.Orderly

/-- One call of an endpoint, and what is left of it for an address. -/
theorem Observed.orderly_next {x : Observed} (hdistinct : x.endpoint.Distinct) {ip : IpAddress}
    (h : (x.node ip).Orderly) {call : EndpointCall}
    (hread : ∀ now incoming, call = .tick now incoming → ∀ payload ∈ receivedFrom ip incoming,
      let header := (PacketHeader.read ⟨0, (payload.take kJustAboveMtu).length⟩
        (x.endpoint.networkBuffer.storeList 0 (payload.take kJustAboveMtu))).val
      ¬ header.id < (x.node ip).expected ∧ header.id.toNat + 1 < 2 ^ 32)
    (hcount : ((x.next call).history ip).packets.length < 2 ^ 32) :
    ((x.next call).node ip).Orderly := by
  have hentry := h.getD x.endpoint.connectionManagerConfig x.endpoint.packetTimeout
  obtain ⟨writeBuffer, hnode⟩ := node_next hdistinct ip call
  have hpackets : ((x.next call).node ip).history.packets.length < 2 ^ 32 := hcount
  rw [hnode] at hpackets ⊢
  cases call with
  | connect target now =>
    rw [EndpointCall.about]
    by_cases htarget : target = ip
    · rw [if_pos htarget]
      intro p hp
      cases hp
      exact (hentry now).congr rfl rfl rfl
    · rw [if_neg htarget]
      exact h
  | sendReliableTo target fn now =>
    rw [EndpointCall.about]
    by_cases htarget : target = ip
    · rw [if_pos htarget]
      intro p hp
      cases hp
      exact (hentry now).congr rfl (ReliableStream.send_packetId _ fn) rfl
    · rw [if_neg htarget]
      exact h
  | sendUnreliableTo target fn now =>
    rw [EndpointCall.about]
    by_cases htarget : target = ip
    · rw [if_pos htarget]
      intro p hp
      cases hp
      exact (hentry now).congr rfl rfl rfl
    · rw [if_neg htarget]
      exact h
  | tick now incoming => exact h.tick (hread now incoming rfl) hpackets

/-! ### A tick -/

theorem Endpoint.readEntry_all {n : Endpoint} {Q : IpAddress → Peer → Prop} (now : ℤ)
    (sender : IpAddress) (h : PeerMap.All Q n.peers)
    (hdrop : ∀ ip p, Q ip p → Q ip (p.dropOldPackets now).val.1)
    (hnew : ∀ ip, Q ip (n.createPeer 0 now)) : Q sender (n.readEntry now sender) := by
  rw [readEntry]
  split
  · next p hp => exact hdrop _ _ (h.find hp)
  · exact hnew _

/-- A tick of an endpoint whose entries are orderly, and that reads nothing old. -/
theorem Endpoint.avoids_tick_of_orderly {n : Endpoint} {counts : IpAddress → ℕ} {now : ℤ}
    {incoming : Option (IpAddress × List UInt8)}
    (horderly : PeerMap.All (fun ip p => p.Orderly (counts ip)) n.peers)
    (hstreams : PeerMap.All (fun _ => Peer.StreamsSound) n.peers)
    (hlimits : PeerMap.All (fun _ => Peer.LimitsValid) n.peers)
    (htickers : PeerMap.All (fun _ => Peer.TickerSafe) n.peers)
    (hconfig : 100 ≤ n.connectionManagerConfig.limit.maxSendPacketSize)
    (hread : ∀ sender payload, incoming = some (sender, payload) →
      let b : Span := ⟨0, (payload.take kJustAboveMtu).length⟩
      let mem := n.networkBuffer.storeList 0 (payload.take kJustAboveMtu)
      ¬ (PacketHeader.read b mem).val.id < n.expectedFrom sender ∧
        (PacketHeader.read b mem).val.id.toNat + 1 < 2 ^ 32 ∧
        ∀ p : Peer, p.StreamsSound →
          (p.read n.connectionManagerConfig b mem).Avoids (· = .advance)) :
    (n.tick now incoming).Avoids fun f => f ≠ .load ∧ f ≠ .popEmpty := by
  have hentry : ∀ sender, (n.readEntry now sender).Orderly (counts sender) := fun sender =>
    readEntry_all now sender horderly (fun _ _ hp => hp.dropOldPackets now)
      fun ip => Peer.Orderly.fresh _ _ now (counts ip)
  have hentryStreams : ∀ sender, (n.readEntry now sender).StreamsSound := fun sender =>
    readEntry_all now sender hstreams (fun _ _ hp => hp.dropOldPackets now)
      fun _ => n.streamsSound_new now
  refine Endpoint.avoids_tick (fun e he => ?_) (fun sender payload hincoming => ?_)
    (fun e he mem => ?_)
  · exact ((horderly e he).avoids_dropOldPackets (hstreams e he) now).mono fun f hf => hf.2
  · exact (hentry sender).avoids_read (hentryStreams sender) _
      ((hread sender payload hincoming).2.2 _ (hentryStreams sender))
  · -- what is written is orderly, and all of its parts are sound
    have hbefore : PeerMap.All (fun ip p => p.Orderly (counts ip))
        (n.beforeWrite now incoming).peers :=
      beforeWrite_all_of_read horderly (fun _ _ hp => hp.dropOldPackets now)
        (fun ip => Peer.Orderly.fresh _ _ now (counts ip)) fun sender payload hincoming hp => by
          obtain ⟨hnew, hid, -⟩ := hread sender payload hincoming
          rw [← n.readEntry_expected now sender] at hnew
          exact hp.read _ hnew hid
    have hticker : PeerMap.All (fun _ => Peer.TickerSafe) (n.beforeWrite now incoming).peers :=
      beforeWrite_all (fun _ now => n.tickerSafe_new now) (fun _ _ now hp => hp.dropOldPackets now)
        (fun _ _ b mem hp => hp.read _ b mem) htickers now incoming
    rw [Checked.Avoids, (hbefore e he).faults_write hconfig
      (limitsValid_beforeWrite hlimits now incoming e he) (hticker e he) mem now]
    exact fun f hf => absurd hf List.not_mem_nil

/-! ### Both endpoints -/

namespace Hosts

/-- What an endpoint is about to read is from the other one. -/
def OnlyEachOther (setup : Setup) (h : Hosts) : HostCall → Prop
  | .tick side _ => ∀ datagram ∈ h.network.incoming (h.socket side).fd,
    datagram.1 = setup.address side.other
  | _ => True

instance (setup : Setup) (h : Hosts) (call : HostCall) : Decidable (h.OnlyEachOther setup call) :=
  match call with
  | .tick _ _ => inferInstanceAs (Decidable (∀ datagram ∈ h.network.incoming _, _))
  | .connect _ _ _ => .isTrue trivial
  | .sendReliableTo _ _ _ _ => .isTrue trivial
  | .sendUnreliableTo _ _ _ _ => .isTrue trivial
  | .other _ => .isTrue trivial

/-- Fewer than `2 ^ 32` packets and reliable messages for every address. -/
def Bounded (h : Hosts) : Prop :=
  ∀ side ip, ((h.node side).history ip).packets.length < 2 ^ 32 ∧
    ((h.node side).history ip).reliableSent.length < 2 ^ 32

theorem Bounded.of_next {h : Hosts} {call : HostCall} (hbound : (h.next call).Bounded) :
    h.Bounded := by
  rcases h.node_next call with hnode | ⟨side, endpointCall, hnode⟩
  · rw [Bounded, hnode] at hbound
    exact hbound
  · intro x ip
    have hx := hbound x ip
    rw [hnode] at hx
    by_cases hside : x = side
    · subst hside
      obtain ⟨hpackets, hsent⟩ := (h.node x).lengths_le endpointCall ip
      rw [Side.set_self] at hx
      exact ⟨Nat.lt_of_le_of_lt hpackets hx.1, Nat.lt_of_le_of_lt hsent hx.2⟩
    · rw [Side.set, if_neg hside] at hx
      exact hx

/-- An endpoint on a network is an endpoint. -/
theorem endpoint_reachable {setup : Setup} {mtu : ℤ} {ok : Hosts → HostCall → Prop} {h : Hosts}
    (hr : (hosts setup mtu).Reachable ok h) (side : Side) :
    (neptun (setup.config side) (setup.packetTimeout side)).Reachable System.anyAction
      (h.node side).endpoint := by
  refine hr.simulate (fun h => (h.node side).endpoint) (fun h hinit => ?_)
    (fun h call _ _ _ => ?_)
  · obtain ⟨-, -, -, -, -, hnode⟩ := hinit
    rw [hnode]
    rfl
  · rcases h.node_next call with hnode | ⟨other, endpointCall, hnode⟩
    · exact Or.inl (congrArg (fun node => (node side).endpoint) hnode)
    · have hnext := congrArg (fun node : Side → Observed => (node side).endpoint) hnode
      by_cases hside : side = other
      · subst hside
        rw [Side.set_self] at hnext
        exact Or.inr ⟨endpointCall, trivial, hnext⟩
      · rw [Side.set, if_neg hside] at hnext
        exact Or.inl hnext

end Hosts

/-- A call adds one packet and one message at most. -/
theorem PeerNode.lengths_next_le (config : ConnectionManagerConfig) (packetTimeout : ℤ)
    (x : PeerNode) (call : PeerCall) :
    (x.next config packetTimeout call).history.packets.length ≤ x.history.packets.length + 1 ∧
      (x.next config packetTimeout call).history.reliableSent.length
        ≤ x.history.reliableSent.length + 1 := by
  have hwrite : ∀ (x : PeerNode) now mem,
      (x.write config now mem).history.packets.length ≤ x.history.packets.length + 1 ∧
      (x.write config now mem).history.reliableSent = x.history.reliableSent := by
    intro x now mem
    rw [PeerNode.write]
    split
    · exact ⟨Nat.le_succ _, rfl⟩
    · next p hp =>
      refine ⟨?_, rfl⟩
      dsimp only
      rw [List.length_append, List.length_map]
      cases (p.write config mem now).val.2.2 with
      | none => exact Nat.le_succ _
      | some packet => exact Nat.le_refl _
  cases call with
  | connect now => exact ⟨Nat.le_succ _, Nat.le_succ _⟩
  | sendReliable fn now =>
    refine ⟨Nat.le_succ _, ?_⟩
    rw [PeerNode.next]
    dsimp only
    rw [ReliableStream.sentAfter]
    split
    · exact Nat.le_succ _
    · exact Nat.le_of_eq List.length_append
  | sendUnreliable fn now => exact ⟨Nat.le_succ _, Nat.le_succ _⟩
  | tick now incoming readBuffer writeBuffer =>
    cases incoming with
    | none =>
      obtain ⟨hpackets, hsent⟩ := hwrite (x.dropOldPackets now) now writeBuffer
      exact ⟨hpackets, Nat.le_succ_of_le (Nat.le_of_eq (congrArg List.length hsent))⟩
    | some packet =>
      obtain ⟨hpackets, hsent⟩ := hwrite ((x.dropOldPackets now).read config packetTimeout now
        packet readBuffer) now writeBuffer
      exact ⟨hpackets, Nat.le_succ_of_le (Nat.le_of_eq (congrArg List.length hsent))⟩

theorem Observed.lengths_next_le {x : Observed} (hdistinct : x.endpoint.Distinct)
    (call : EndpointCall) (ip : IpAddress) :
    ((x.next call).history ip).packets.length ≤ (x.history ip).packets.length + 1 ∧
      ((x.next call).history ip).reliableSent.length
        ≤ (x.history ip).reliableSent.length + 1 := by
  obtain ⟨writeBuffer, hnode⟩ := node_next hdistinct ip call
  rw [show (x.next call).history ip = ((x.next call).node ip).history from rfl, hnode]
  split
  · exact ⟨Nat.le_succ _, Nat.le_succ _⟩
  · exact (x.node ip).lengths_next_le _ _ _

/-- No history has more than `n` packets or messages. -/
def Hosts.Within (n : ℕ) (h : Hosts) : Prop :=
  ∀ side, (h.node side).endpoint.Distinct ∧ ∀ ip,
    ((h.node side).history ip).packets.length ≤ n ∧
      ((h.node side).history ip).reliableSent.length ≤ n

theorem Hosts.Within.next {n : ℕ} {h : Hosts} (hn : h.Within n) (call : HostCall) :
    (h.next call).Within (n + 1) := by
  intro x
  have hsame : (h.node x).endpoint.Distinct ∧ ∀ ip,
      ((h.node x).history ip).packets.length ≤ n + 1 ∧
        ((h.node x).history ip).reliableSent.length ≤ n + 1 :=
    ⟨(hn x).1, fun ip => ⟨Nat.le_succ_of_le ((hn x).2 ip).1, Nat.le_succ_of_le ((hn x).2 ip).2⟩⟩
  rcases h.node_next call with hnode | ⟨side, endpointCall, hnode⟩
  · rw [hnode]
    exact hsame
  · rw [hnode]
    by_cases hx : x = side
    · subst hx
      rw [Side.set_self]
      refine ⟨(hn x).1.next endpointCall, fun ip => ?_⟩
      obtain ⟨hpackets, hsent⟩ := Observed.lengths_next_le (hn x).1 endpointCall ip
      obtain ⟨hpackets', hsent'⟩ := (hn x).2 ip
      omega
    · rw [Side.set, if_neg hx]
      exact hsame

/-- A run of fewer than `2 ^ 32` calls is within the bounds. -/
theorem Hosts.bounded_runFrom {setup : Setup} {mtu : ℤ} {h : Hosts}
    (hinit : (hosts setup mtu).init h) {calls : List HostCall} (hcalls : calls.length < 2 ^ 32) :
    ((hosts setup mtu).runFrom h calls).Bounded := by
  have hrun : ∀ (calls : List HostCall) (n : ℕ) (h : Hosts), h.Within n →
      ((hosts setup mtu).runFrom h calls).Within (n + calls.length) := by
    intro calls
    induction calls with
    | nil => exact fun _ _ hn => hn
    | cons call calls ih =>
      intro n h hn
      have := ih (n + 1) _ (hn.next call)
      rw [Nat.add_right_comm] at this
      exact this
  obtain ⟨-, -, -, -, -, hnode⟩ := hinit
  have hstart : h.Within 0 := by
    intro side
    rw [hnode]
    exact ⟨List.nodup_nil, fun ip => ⟨Nat.le_refl _, Nat.le_refl _⟩⟩
  intro side ip
  obtain ⟨hpackets, hsent⟩ := (hrun calls 0 h hstart side).2 ip
  omega

section

variable {setup : Setup} {mtu : ℤ} {h : Hosts}

/-- One endpoint makes a call; what it reads is a datagram of the other one. -/
theorem orderly_set (ho : h.InOrder setup) (hh : Hosting setup mtu h)
    {t : Side → List PacketContent} (ht : LinkSound setup (linkOf setup h.node) t)
    (hcount : LinkBound (linkOf setup h.node))
    (hdistinct : ∀ side, (h.node side).endpoint.Distinct)
    (horderly : ∀ side ip, ((h.node side).node ip).Orderly) (side : Side) (call : EndpointCall)
    (hcall : ∀ now incoming, call = .tick now incoming →
      incoming = h.network.incoming (h.socket side).fd ∧
        ∀ datagram ∈ incoming, datagram.1 = setup.address side.other)
    (hpackets : ∀ ip, (((h.node side).next call).history ip).packets.length < 2 ^ 32)
    (x : Side) (ip : IpAddress) :
    ((Side.set h.node side ((h.node side).next call) x).node ip).Orderly := by
  by_cases hx : x = side
  · subst hx
    rw [Side.set_self]
    refine Observed.orderly_next (hdistinct x) (horderly x ip) ?_ (hpackets ip)
    intro now incoming htick payload hpayload
    obtain ⟨hincoming, hother⟩ := hcall now incoming htick
    cases incoming with
    | none => cases hpayload
    | some datagram =>
      obtain ⟨sender, bytes⟩ := datagram
      obtain rfl : sender = setup.address x.other := hother _ rfl
      rw [receivedFrom, Option.bind_some] at hpayload
      by_cases hip : setup.address x.other = ip
      · subst hip
        rw [if_pos rfl] at hpayload
        cases hpayload
        exact ho.incoming_new hh ht hcount hincoming.symm _
      · rw [if_neg hip] at hpayload
        cases hpayload
  · rw [Side.set, if_neg hx]
    exact horderly x ip

/-- All entries are orderly while the endpoints read nothing but each other's datagrams. -/
theorem orderly_of_reachable (hmtu : 1400 ≤ mtu) (hmtu' : mtu < 2 ^ 31)
    (hrobust : ∀ side, (setup.config side).limit.Robust)
    (hr : (hosts setup mtu).Reachable (Hosts.OnlyEachOther setup) h) (hbound : h.Bounded)
    (side : Side) (ip : IpAddress) : ((h.node side).node ip).Orderly := by
  have hvalid := fun side => (hrobust side).validLimit
  refine hr.invariant_of_bound (P := fun h => ∀ side ip, ((h.node side).node ip).Orderly)
    Hosts.Bounded (fun h call => Hosts.Bounded.of_next) (fun h hinit => ?_)
    (fun h call hr ih hen hok hbound => ?_) hbound side ip
  · obtain ⟨-, -, -, -, -, hnode⟩ := hinit
    intro side ip p hp
    rw [hnode] at hp
    cases hp
  have hany : (hosts setup mtu).Reachable System.anyAction h := hr.mono fun _ _ _ => trivial
  have hopen := hosts_simulate_openNetwork hmtu hmtu' hvalid hany
  have hcount : LinkBound (linkOf setup h.node) := fun side => hbound.of_next side _
  obtain ⟨t, ht⟩ := link_sound hrobust (openNetwork_simulates_link hopen) hcount
  have hset := @orderly_set setup mtu h (inOrder_of_reachable hmtu hmtu' hrobust hany hcount)
    (hosting_of_reachable hmtu hmtu' hvalid hany) t ht hcount
    (hosted_of_reachable hopen).distinct ih
  have hpackets : ∀ side c, (h.next call).node = Side.set h.node side ((h.node side).next c) →
      ∀ ip, (((h.node side).next c).history ip).packets.length < 2 ^ 32 := by
    intro side c hnode ip
    have hpackets : (((h.next call).node side).history ip).packets.length < 2 ^ 32 :=
      (hbound side ip).1
    rw [hnode, Side.set_self] at hpackets
    exact hpackets
  cases call with
  | connect side target now =>
    exact hset side (.connect target now) (fun _ _ => EndpointCall.noConfusion)
      (hpackets side _ rfl)
  | sendReliableTo side target fn now =>
    exact hset side (.sendReliableTo target fn now) (fun _ _ => EndpointCall.noConfusion)
      (hpackets side _ rfl)
  | sendUnreliableTo side target fn now =>
    exact hset side (.sendUnreliableTo target fn now) (fun _ _ => EndpointCall.noConfusion)
      (hpackets side _ rfl)
  | tick side now =>
    refine hset side (.tick now _) (fun now' incoming htick => ?_) (hpackets side _ rfl)
    cases htick
    exact ⟨rfl, hok⟩
  | other call => exact ih

/-- A datagram of the other endpoint at the socket is one of its packets. -/
theorem incoming_formed (ho : h.InOrder setup) (hh : Hosting setup mtu h)
    {t : Side → List PacketContent} (ht : LinkSound setup (linkOf setup h.node) t) {side : Side}
    {payload : List UInt8} (hincoming : h.network.incoming (h.socket side).fd
      = some (setup.address side.other, payload)) : ∃ (sent : List (List UInt8))
        (content : PacketContent), payload = content.bytes ∧
        content.Formed (setup.config side.other).limit sent := by
  obtain ⟨rest, -, hqueued⟩ := hh.incoming_queued side
  rw [hincoming, receivedFrom, Option.bind_some, if_pos rfl] at hqueued
  have hmem : payload ∈ ((h.node side.other).history (setup.address side)).packets := by
    refine List.mem_of_mem_drop ((ho.queued side).subset ?_)
    rw [hqueued]
    exact List.mem_cons_self
  have hsending := (ht side.other).sending 0
  have htrace := hsending.packets
  rw [linkOf, Side.other_other] at htrace
  rw [show ((h.node side.other).history (setup.address side)).packets = _ from htrace,
    List.mem_map] at hmem
  obtain ⟨content, hcontent, rfl⟩ := hmem
  exact ⟨_, content, rfl, hsending.formed content hcontent⟩

end

end Neptun
