/-
The formatter on the packets that `write_to_peer` builds.

* `StreamsSound` — the messages of both streams lie in their buffers, in every run
  of an endpoint, so that the length of each of them fits into its field;
* `Peer.formats_iff` — which packets the formatter reads as they were written;
* `format_agrees_iff` — the same for every packet of every run.
-/
import Neptun.Format
import Neptun.PacketSize
import Neptun.ReliableChannel
import Neptun.SharedBuffer
import Neptun.UnreliableBuffer

namespace Neptun

open PeerMap

/-! ### The streams of an entry -/

theorem Represents.expect {capacity k : ℕ} {s : ReliableStream} {sent : List (List UInt8)}
    (h : Represents capacity s k sent) (expected : UInt32) :
    Represents capacity { s with nextExpectedSequenceNumber := expected } k sent :=
  ⟨h.le, h.sizes, h.messages, h.nextOutgoing, h.endIndex, h.capacity_eq, h.endIndex_le, h.bytes⟩

theorem ReliableStream.read_state (s : ReliableStream) (b : Span) (mem : Memory) :
    ∃ expected, (s.read b mem).val.1 = { s with nextExpectedSequenceNumber := expected } := by
  rw [read]
  split
  · exact ⟨s.nextExpectedSequenceNumber, rfl⟩
  · simp only [Checked.val_bind, Checked.val_ite]
    split
    · exact ⟨s.nextExpectedSequenceNumber, rfl⟩
    · exact ⟨_, rfl⟩

namespace Peer

/-- The messages of both streams lie in their buffers. -/
structure StreamsSound (p : Peer) : Prop where
  reliable : ∃ k sent, Represents 3200 p.reliableStream k sent
  unreliable : p.unreliableStream.Sound 3200

variable {p : Peer}

theorem StreamsSound.processDeliveryStatuses (h : p.StreamsSound) (statuses : DeliveryStatuses) :
    (p.processDeliveryStatuses statuses).val.StreamsSound := by
  induction statuses generalizing p with
  | nil => exact h
  | cons s statuses ih =>
    obtain ⟨⟨k, sent, hk⟩, hunreliable⟩ := h
    simp only [Peer.processDeliveryStatuses, Checked.val_bind]
    exact ih ⟨⟨_, sent, (hk.status s.1 s.2).1⟩, hunreliable⟩

theorem StreamsSound.dropOldPackets (h : p.StreamsSound) (now : ℤ) :
    (p.dropOldPackets now).val.1.StreamsSound := by
  have hresolved : StreamsSound { p with
      packetDeliveryManager := (p.packetDeliveryManager.dropOldPackets now).1 } :=
    ⟨h.reliable, h.unreliable⟩
  rw [Peer.val_dropOldPackets]
  exact hresolved.processDeliveryStatuses _

theorem StreamsSound.readStreams (h : p.StreamsSound) (config : ConnectionManagerConfig)
    (limit : BandwidthLimit) (b : Span) (mem : Memory) (report : ReadReport) :
    (readStreams config p limit b mem report).val.1.StreamsSound := by
  have hrate : ∀ rate, (p.updateSendRate rate).StreamsSound := by
    intro rate
    rw [updateSendRate]
    split <;> exact ⟨h.reliable, h.unreliable⟩
  rw [Peer.readStreams]
  generalize hq : (if limit.maxReadPacketRate = 0 then _ else _ : Peer) = q
  have hsound : q.StreamsSound := by
    rw [← hq]
    split_ifs <;> exact hrate _
  obtain ⟨⟨k, sent, hk⟩, hunreliable⟩ := hsound
  obtain ⟨expected, hread⟩ := q.reliableStream.read_state b mem
  have hafter : StreamsSound { q with reliableStream := (q.reliableStream.read b mem).val.1 } := by
    rw [hread]
    exact ⟨⟨k, sent, hk.expect expected⟩, hunreliable⟩
  simp only [Checked.val_bind]
  split
  · exact hafter
  · simp only [Checked.val_bind]
    split <;> exact hafter

theorem StreamsSound.readConnection (h : p.StreamsSound) (config : ConnectionManagerConfig)
    (b : Span) (mem : Memory) (report : ReadReport) :
    (readConnection config p b mem report).val.1.StreamsSound := by
  have hafter : ∀ c, StreamsSound { p with connectionManager := c } := fun c =>
    ⟨h.reliable, h.unreliable⟩
  rw [Peer.readConnection]
  simp only [Checked.val_bind]
  split
  · exact hafter _
  · simp only [Checked.val_bind]
    split
    · exact hafter _
    · exact (hafter _).readStreams _ _ _ _ _

theorem StreamsSound.read (h : p.StreamsSound) (config : ConnectionManagerConfig) (b : Span)
    (mem : Memory) : (p.read config b mem).val.1.StreamsSound := by
  have hresolved : ∀ manager, StreamsSound { p with packetDeliveryManager := manager } :=
    fun manager => ⟨h.reliable, h.unreliable⟩
  rcases Peer.read_cases config p b mem with ⟨-, hval⟩ | ⟨-, hval⟩
  · rw [hval]
    exact hresolved _
  · rw [hval]
    exact ((hresolved _).processDeliveryStatuses _).readConnection _ _ _ _

theorem StreamsSound.write (h : p.StreamsSound) (config : ConnectionManagerConfig) (mem : Memory)
    (now : ℤ) : (p.write config mem now).val.1.StreamsSound := by
  obtain ⟨⟨k, sent, hk⟩, hunreliable⟩ := h
  rcases Peer.write_cases config p mem now with hval | ⟨-, hval⟩
  · rw [hval]
    exact ⟨⟨k, sent, hk⟩, hunreliable⟩
  · rw [hval]
    exact ⟨⟨k, sent, hk.write _ _ _⟩, hunreliable.write _ _⟩

end Peer

theorem Endpoint.streamsSound_new (n : Endpoint) (now : ℤ) : (n.createPeer 0 now).StreamsSound :=
  ⟨⟨0, [], Represents.start 3200⟩, UnreliableStream.Sound.start 3200⟩

/-- All entries have sound streams in every run. -/
theorem streamsSound_of_reachable {config : ConnectionManagerConfig} {packetTimeout : ℤ}
    {n : Endpoint} (h : (neptun config packetTimeout).Reachable System.anyAction n) :
    All (fun _ => Peer.StreamsSound) n.peers := by
  refine h.invariant (P := fun n => All (fun _ => Peer.StreamsSound) n.peers) (fun n hn => ?_)
    (fun n call _ ih _ _ => ?_)
  · rw [hn]
    exact all_nil
  · refine Endpoint.next_all (fun _ now => n.streamsSound_new now)
      (fun _ _ hp => ⟨hp.reliable, hp.unreliable⟩) (fun _ p fn hp => ?_) (fun _ p fn hp => ?_)
      (fun _ _ now hp => hp.dropOldPackets now) (fun _ _ b mem hp => hp.read _ b mem)
      (fun _ _ mem now hp => hp.write _ mem now) ih call
    · obtain ⟨⟨k, sent, hk⟩, hunreliable⟩ := hp
      exact ⟨⟨k, _, (hk.send fn).1⟩, hunreliable⟩
    · exact ⟨hp.reliable, hp.unreliable.send fn⟩

/-! ### Packets -/

namespace Peer

/-- The room behind the handshake. -/
def streamRoom (p : Peer) (size : UInt16) : ℕ :=
  usizeSub (usizeSub (min kJustBelowMtu size).toNat 12)
    (p.connectionManager.encodeHandshake 0).length

/-- The messages of the reliable stream in a packet. -/
def takenReliable (p : Peer) (size : UInt16) : List WireMessage :=
  (p.reliableStream.pendingMessages.take (p.reliableStream.fitCount (p.streamRoom size))).map
    (ReliableStream.toWire p.reliableStream.buffer)

/-- The messages of the unreliable stream in a packet. -/
def takenUnreliable (p : Peer) (size : UInt16) : List (List UInt8) :=
  p.unreliableStream.payloads.take (p.unreliableStream.fitCount
    (usizeSub (p.streamRoom size) (encodeSegment (p.takenReliable size)).length))

/-- The segments of a packet, with the limits that its handshake is said to carry. -/
def writtenSegments (p : Peer) (size : UInt16) (limit : BandwidthLimit) : List FormattedSegment :=
  (if 0 < p.connectionManager.numLetsConnectToSend then
    [.connectionManager 1
      (if p.connectionManager.isFail then .rejectLetsConnect else .letsConnect limit)]
  else []) ++ streamSegments (p.takenReliable size) (p.takenUnreliable size)

theorem encodePacket_payload (p : Peer) (now : ℤ) (size : UInt16) (gap : UInt8) :
    (p.encodePacket now size gap).payload
      = (p.packetDeliveryManager.nextHeader now).val.2.encode
        ++ (p.connectionManager.encodeHandshake gap ++ (encodeSegment (p.takenReliable size)
        ++ encodeUnreliable (p.takenUnreliable size))) := by
  rw [encodePacket, takenUnreliable, takenReliable, streamRoom,
    p.connectionManager.length_encodeHandshake 0 gap]
  dsimp only
  rw [List.append_assoc, List.append_assoc]

theorem StreamsSound.takenReliable_lt {p : Peer} (h : p.StreamsSound) (size : UInt16) :
    ∀ msg ∈ p.takenReliable size, msg.2.length < 2 ^ 16 := by
  obtain ⟨k, sent, hk⟩ := h.reliable
  intro msg hmsg
  obtain ⟨pending, hpending, rfl⟩ := List.mem_map.mp hmsg
  have hle := (hk.sizes _ (hk.bufferSpan_mem (List.mem_of_mem_take hpending))).2
  rw [ReliableStream.toWire]
  dsimp only
  omega

theorem StreamsSound.takenUnreliable_lt {p : Peer} (h : p.StreamsSound) (size : UInt16) :
    ∀ payload ∈ p.takenUnreliable size, payload.length < 2 ^ 16 := by
  intro payload hpayload
  obtain ⟨span, hspan, rfl⟩ := List.mem_map.mp (List.mem_of_mem_take hpayload)
  have hinside := h.unreliable.inside span hspan
  have hend := h.unreliable.endIndex
  rw [UnreliableStream.payloadAt, Memory.length_slice]
  omega

/-- Which packets the formatter reads as they were written, if the handshake is said to
carry the given limits. -/
theorem StreamsSound.formats_iff {p : Peer} (h : p.StreamsSound) (now : ℤ) (size : UInt16)
    (gap : UInt8) (limit : BandwidthLimit) {mem : Memory} {off : ℕ}
    (hmem : mem.slice off (p.encodePacket now size gap).payload.length
      = (p.encodePacket now size gap).payload) :
    (∃ fuel, formatNeptunPayload fuel ⟨off, (p.encodePacket now size gap).payload.length⟩ mem
        = pure ((p.packetDeliveryManager.nextHeader now).val.2, p.writtenSegments size limit,
          .done ⟨off + (p.encodePacket now size gap).payload.length, 0⟩)) ↔
      (0 < p.connectionManager.numLetsConnectToSend → p.connectionManager.isFail = false ∧
        ∃ low ∈ streamsHead (p.takenReliable size) (p.takenUnreliable size),
          ConnectionManager.withLowByte p.connectionManager.config.limit low = limit) ∧
      (p.takenReliable size).length ≤ 255 ∧ (p.takenUnreliable size).length ≤ 255 := by
  rw [encodePacket_payload] at hmem ⊢
  rw [writtenSegments]
  have hreliable := h.takenReliable_lt size
  have hunreliable := h.takenUnreliable_lt size
  generalize p.takenReliable size = msgs at *
  generalize p.takenUnreliable size = payloads at *
  rw [← head?_streams]
  obtain ⟨hheader, hrest⟩ := Memory.slice_eq_of_append hmem
  rw [formatNeptunPayload_iff (by simp) hheader]
  obtain ⟨-, hstreams⟩ := Memory.slice_eq_of_append hrest
  have hformats := formats_streams_iff hreliable hunreliable hstreams
  generalize encodeSegment msgs ++ encodeUnreliable payloads = streams at *
  rw [PacketHeader.length_encode] at hrest hformats
  rw [List.length_append, PacketHeader.length_encode, Nat.add_sub_cancel_left, ← Nat.add_assoc]
  by_cases hnum : 0 < p.connectionManager.numLetsConnectToSend
  · rw [if_pos hnum, List.singleton_append, formats_handshake_iff hnum hrest,
      List.length_append, ← Nat.add_assoc, hformats]
    constructor
    · rintro ⟨hfail, low, hlow, hlimit, hcounts⟩
      exact ⟨fun _ => ⟨hfail, low, hlow, hlimit⟩, hcounts⟩
    · rintro ⟨hhandshake, hcounts⟩
      obtain ⟨hfail, low, hlow, hlimit⟩ := hhandshake hnum
      exact ⟨hfail, low, hlow, hlimit, hcounts⟩
  · have hnil : p.connectionManager.encodeHandshake gap = [] := by
      rw [ConnectionManager.encodeHandshake, if_neg hnum]
    rw [hnil, List.length_nil, Nat.add_zero] at hformats
    rw [if_neg hnum, hnil, List.nil_append, List.nil_append, hformats]
    exact (and_iff_right fun h => absurd h hnum).symm

end Peer

/-- **The formatter agrees with the writer** on a packet of a run, exactly as far as the
code has it: no segment has more than 255 messages, and a handshake is no rejection and has
a stream behind it.  Its limits are then printed as they were written iff the first byte of
that stream happens to be the low byte of the largest packet size. -/
theorem format_agrees_iff {config : ConnectionManagerConfig} {packetTimeout : ℤ} {n : Endpoint}
    (h : (neptun config packetTimeout).Reachable System.anyAction n) {now : ℤ}
    {incoming : Option (IpAddress × List UInt8)} {ip : IpAddress} {p : Peer}
    (hp : (ip, p) ∈ (n.beforeWrite now incoming).peers) {old : Memory} {packet : Packet}
    (hpacket : (p.write config old now).val.2.2 = some packet) {mem : Memory} {off : ℕ}
    (hmem : mem.slice off packet.payload.length = packet.payload) :
    let header := (p.packetDeliveryManager.nextHeader now).val.2
    let size := p.maxPacketSize config
    let reliable := p.takenReliable size
    let unreliable := p.takenUnreliable size
    let own := p.connectionManager.config.limit
    let agrees := fun limit => ∃ fuel, formatNeptunPayload fuel ⟨off, packet.payload.length⟩ mem
      = pure (header, p.writtenSegments size limit, .done ⟨off + packet.payload.length, 0⟩)
    (agrees own ↔
      (0 < p.connectionManager.numLetsConnectToSend → p.connectionManager.isFail = false ∧
        ∃ low ∈ streamsHead reliable unreliable,
          low.toNat = own.maxReadPacketSize.toNat % 256) ∧
      reliable.length ≤ 255 ∧ unreliable.length ≤ 255) ∧
    ((∃ limit, agrees limit) ↔
      (0 < p.connectionManager.numLetsConnectToSend → p.connectionManager.isFail = false ∧
        (reliable ≠ [] ∨ unreliable ≠ [])) ∧
      reliable.length ≤ 255 ∧ unreliable.length ≤ 255) := by
  intro header size reliable unreliable own agrees
  have hsound : All (fun _ => Peer.StreamsSound) (n.beforeWrite now incoming).peers :=
    Endpoint.beforeWrite_all (fun _ now => n.streamsSound_new now)
      (fun _ _ now hp => hp.dropOldPackets now) (fun _ _ b mem hp => hp.read _ b mem)
      (streamsSound_of_reachable h) now incoming
  -- the ticker is not a part of the packet
  have hencode : packet = p.encodePacket now size (old 17) := by
    rw [Peer.write_encodePacket] at hpacket
    split at hpacket
    · exact (Option.some.inj hpacket).symm
    · cases hpacket
  rw [hencode] at hmem
  have hformats : ∀ limit, agrees limit ↔
      (0 < p.connectionManager.numLetsConnectToSend → p.connectionManager.isFail = false ∧
        ∃ low ∈ streamsHead reliable unreliable, ConnectionManager.withLowByte own low = limit) ∧
      reliable.length ≤ 255 ∧ unreliable.length ≤ 255 := by
    intro limit
    have hiff := (hsound _ hp).formats_iff now size (old 17) limit hmem
    rw [← hencode] at hiff
    exact hiff
  have hhead : (∃ low, low ∈ streamsHead reliable unreliable)
      ↔ reliable ≠ [] ∨ unreliable ≠ [] := by
    rw [streamsHead]
    by_cases hreliable : reliable = []
    · by_cases hunreliable : unreliable = []
      · simp [hreliable, hunreliable]
      · simp [hreliable, hunreliable]
    · simp [hreliable]
  constructor
  · rw [hformats]
    simp only [ConnectionManager.withLowByte_eq_iff]
  · rw [exists_congr hformats, ← hhead]
    constructor
    · rintro ⟨limit, hhandshake, hcounts⟩
      refine ⟨fun hnum => ?_, hcounts⟩
      obtain ⟨hfail, low, hlow, -⟩ := hhandshake hnum
      exact ⟨hfail, low, hlow⟩
    · rintro ⟨hhandshake, hcounts⟩
      by_cases hnum : 0 < p.connectionManager.numLetsConnectToSend
      · obtain ⟨hfail, low, hlow⟩ := hhandshake hnum
        exact ⟨_, fun _ => ⟨hfail, low, hlow, rfl⟩, hcounts⟩
      · exact ⟨own, fun h => absurd h hnum, hcounts⟩

/-- A handshake with a message behind it, for limits whose low byte is the type of the
segment of the message. -/
theorem format_agrees_low_byte :
    let config : ConnectionManagerConfig := ⟨1, ⟨0, 1283, 0, 1400⟩⟩
    let letsConnect : List UInt8 :=
      [0, 0, 0, 0, 0, 0, 0, 0, 0, 0, 0, 0, 0, 1, 0, 0, 0, 0, 5, 120, 5, 120]
    let start : Endpoint := { packetTimeout := 5000, connectionManagerConfig := config }
    let n := (neptun config 5000).runFrom start
      [.tick 0 (some (⟨2, 1⟩, letsConnect)), .sendReliableTo ⟨2, 1⟩ (.ofBytes [7]) 0]
    let packet : List UInt8 := [0, 0, 0, 1, 0, 0, 0, 0, 0, 0, 0, 0, 0, 1, 0, 0, 0, 0, 5, 120, 5,
      3, 1, 0, 0, 0, 0, 0, 1, 7]
    (n.tick 1 none).val.2.sent.map (fun sent => sent.2.payload) = [packet] ∧
      ∃ fuel, formatNeptunPayload fuel ⟨0, 30⟩ (Memory.storeList (fun _ => 0) 0 packet)
        = pure (⟨1, 0, 0⟩, [.connectionManager 1 (.letsConnect config.limit),
          .reliable 1 [⟨0, 1, [7]⟩]], .done ⟨30, 0⟩) := by
  intro config letsConnect start n packet
  refine ⟨by decide +kernel, ?_⟩
  obtain ⟨entry, hentry⟩ : ∃ entry,
      (n.beforeWrite 1 none).peers.headD (⟨2, 1⟩, n.createPeer 0 0) = entry := ⟨_, rfl⟩
  have hmem : entry ∈ (n.beforeWrite 1 none).peers := by
    have hne : (n.beforeWrite 1 none).peers ≠ [] := by
      rw [← List.length_pos_iff]
      decide +kernel
    rw [← hentry, List.headD_eq_head?_getD, List.head?_eq_some_head hne, Option.getD_some]
    exact List.head_mem hne
  -- what the entry writes, and what the formatter should find
  have hpacket : (entry.2.write config (fun _ => 0) 1).val.2.2 = some ⟨packet, 12, 9, 9, 0⟩ := by
    rw [← hentry]
    decide +kernel
  have hstreams : entry.2.connectionManager.isFail = false ∧
      entry.2.connectionManager.config.limit = config.limit ∧
      entry.2.takenReliable (entry.2.maxPacketSize config) = [(0, [7])] ∧
      entry.2.takenUnreliable (entry.2.maxPacketSize config) = [] := by
    rw [← hentry]
    decide +kernel
  have hwritten : ((entry.2.packetDeliveryManager.nextHeader 1).val.2,
      entry.2.writtenSegments (entry.2.maxPacketSize config) config.limit)
        = (⟨1, 0, 0⟩, [.connectionManager 1 (.letsConnect config.limit),
          .reliable 1 [⟨0, 1, [7]⟩]]) := by
    rw [← hentry]
    decide +kernel
  have hreachable : (neptun config 5000).Reachable System.anyAction n :=
    System.runFrom_reachable (.init rfl) ⟨trivial, trivial, trivial, trivial, trivial⟩
  obtain ⟨hheader, hsegments⟩ := Prod.mk.inj hwritten
  obtain ⟨hfail, hlimit, hreliable, hunreliable⟩ := hstreams
  have hagrees := (@format_agrees_iff config 5000 n hreachable 1 none entry.1 entry.2 hmem _ _
    hpacket _ 0 (Memory.slice_storeList_self (fun _ => 0) 0 packet)).1
  dsimp only at hagrees
  rw [hlimit, hreliable, hunreliable, hheader, hsegments] at hagrees
  exact hagrees.mpr ⟨fun _ => ⟨hfail, 3, rfl, by decide⟩, by decide, by decide⟩

/-- The first packet of an endpoint that connects: its limits are read beyond the end. -/
theorem format_reads_beyond_packet :
    let config : ConnectionManagerConfig := ⟨1, ⟨0, 1283, 0, 1400⟩⟩
    let start : Endpoint := { packetTimeout := 5000, connectionManagerConfig := config }
    let n := (neptun config 5000).runFrom start [.connect ⟨2, 2⟩ 0]
    let packet : List UInt8 := [0, 0, 0, 0, 0, 0, 0, 0, 0, 0, 0, 0, 0, 1, 0, 0, 0, 0, 5, 120, 5]
    let mem := Memory.storeList (fun _ => 0) 0 packet
    (n.tick 0 none).val.2.sent.map (fun sent => sent.2.payload) = [packet] ∧
      Fault.load ∈ (formatNeptunPayload 1 ⟨0, 21⟩ mem).faults ∧
      ¬ ∃ fuel limit, formatNeptunPayload fuel ⟨0, 21⟩ mem
        = pure (⟨0, 0, 0⟩, [.connectionManager 1 (.letsConnect limit)], .done ⟨21, 0⟩) := by
  intro config start n packet mem
  refine ⟨by decide +kernel, by decide +kernel, ?_⟩
  rintro ⟨fuel, limit, h⟩
  obtain ⟨rest, happend, -⟩ := (formats_cons_iff (by decide)).mp
    ((formatNeptunPayload_iff (by decide) (by decide +kernel)).mp ⟨fuel, h⟩)
  obtain ⟨hten, -⟩ := (appendSegment_handshake_iff (by decide +kernel)).mp happend
  exact absurd hten (by decide)

end Neptun
