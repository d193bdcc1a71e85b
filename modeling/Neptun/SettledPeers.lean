/-
An entry whose handshake is over.

An entry is settled when it knows the limits of the other side and has no handshake left
to write.  Then its packets carry messages only, and it takes the messages of every packet
that it accepts.

* `link_acks` — the sides of a link acknowledge packets of each other;
* `PeerNode.tick_late` — the packet that follows when everything is lost;
* `PeerNode.tick_receives` — a tick that receives a packet;
* `PeerNode.Answering.tick` — a tick that acknowledges packets;
* `PeerNode.tick_ack` — a tick to which a packet is acknowledged.
-/
import Neptun.HandshakeAgreement
import Neptun.Link
import Neptun.RateLimit
import Neptun.Recovery

namespace Neptun

/-! ### Tickers and timeouts -/

/-- A ticker fires if it is asked late enough. -/
theorem Ticker.exists_fires (t : Ticker) :
    ∃ start, ∀ now, start ≤ now → (t.tick now).val.2 = true := by
  cases hlast : t.lastKnownNow with
  | none =>
    refine ⟨0, fun now _ => ?_⟩
    rw [val_tick_of_none (Or.inl hlast)]
  | some last =>
    cases ht : t.tickInterval with
    | none =>
      refine ⟨0, fun now _ => ?_⟩
      rw [val_tick_of_none (Or.inr ht)]
    | some interval =>
      refine ⟨last + interval - t.timeSinceLastTick, fun now hnow => ?_⟩
      rw [val_tick ht hlast, if_pos (by omega)]

namespace Peer

variable {p : Peer} {now : ℤ}

/-- The ticker fires, and all packets in flight have timed out. -/
structure Late (p : Peer) (now : ℤ) : Prop where
  fires : (p.sendPacketTicker.tick now).val.2 = true
  timedOut : p.packetDeliveryManager.TimedOut now

theorem exists_late (p : Peer) : ∃ start, ∀ now, start ≤ now → p.Late now := by
  obtain ⟨start, hfires⟩ := p.sendPacketTicker.exists_fires
  obtain ⟨bound, hbound⟩ := p.packetDeliveryManager.exists_timedOut
  exact ⟨max start bound, fun now hnow =>
    ⟨hfires now (le_of_max_le_left hnow), hbound now (le_of_max_le_right hnow)⟩⟩

/-- Drops make all messages pending. -/
theorem processDeliveryStatuses_drops (p : Peer) {ids : List PacketId} (hne : ids ≠ []) :
    ∃ c, (p.processDeliveryStatuses (ids.map fun id => (id, .drop))).val = { p with
      connectionManager := c
      reliableStream := { p.reliableStream with
        inFlightMessages := []
        pendingMessages := p.reliableStream.messages } } := by
  induction ids generalizing p with
  | nil => exact absurd rfl hne
  | cons id ids ih =>
    simp only [List.map_cons, processDeliveryStatuses, Checked.val_bind, ReliableStream.val_drop]
    cases ids with
    | nil => exact ⟨_, rfl⟩
    | cons id' ids => exact ih _ (List.cons_ne_nil _ _)

/-- If everything has timed out, all messages are pending. -/
theorem Late.dropOldPackets (h : p.Late now)
    (hne : p.packetDeliveryManager.inFlightPackets ≠ []) :
    ∃ c, (p.dropOldPackets now).val.1 = { p with
      packetDeliveryManager := { p.packetDeliveryManager with inFlightPackets := [] }
      connectionManager := c
      reliableStream := { p.reliableStream with
        inFlightMessages := []
        pendingMessages := p.reliableStream.messages } } := by
  rw [val_dropOldPackets, h.timedOut.dropOldPackets]
  refine processDeliveryStatuses_drops { p with
    packetDeliveryManager := { p.packetDeliveryManager with inFlightPackets := [] } } ?_
  exact fun hnil => hne (List.map_eq_nil_iff.mp hnil)

/-- A timeout does not change which messages there are. -/
theorem messages_dropOldPackets (p : Peer) (now : ℤ) :
    (p.dropOldPackets now).val.1.reliableStream.messages = p.reliableStream.messages := by
  obtain ⟨ids, hids⟩ : ∃ ids : List PacketId,
      (p.packetDeliveryManager.dropOldPackets now).2 = ids.map fun id => (id, .drop) := by
    refine ⟨(p.packetDeliveryManager.inFlightPackets.takeWhile fun packet =>
      packet.timeDispatched + p.packetDeliveryManager.packetTimeout * 1000000 ≤ now).map (·.id), ?_⟩
    simp only [PacketDeliveryManager.dropOldPackets, PacketDeliveryManager.dropOldPacketsLoop_eq,
      List.map_map]
    rfl
  rw [val_dropOldPackets, hids]
  by_cases hnil : ids = []
  · rw [hnil]
    rfl
  · obtain ⟨c, hval⟩ := processDeliveryStatuses_drops { p with
      packetDeliveryManager := (p.packetDeliveryManager.dropOldPackets now).1 } hnil
    rw [hval]
    exact List.nil_append _

/-- Nothing has timed out. -/
theorem dropOldPackets_of_fresh {id : PacketId} {time : ℤ}
    (hflight : p.packetDeliveryManager.inFlightPackets = [⟨id, time⟩])
    (hfresh : now < time + p.packetDeliveryManager.packetTimeout * 1000000) :
    (p.dropOldPackets now).val.1 = p := by
  rw [val_dropOldPackets, PacketDeliveryManager.dropOldPackets,
    PacketDeliveryManager.dropOldPacketsLoop_eq, hflight,
    List.takeWhile_cons_of_neg (by simpa using hfresh),
    List.dropWhile_cons_of_neg (by simpa using hfresh), ← hflight]
  rfl

end Peer

/-! ### The handshake is over -/

/-- Statuses leave a connected entry no more handshakes to write. -/
theorem Peer.processDeliveryStatuses_connected {limit : BandwidthLimit} {p : Peer}
    (h : p.connectionManager.peerLimit = some limit) (statuses : DeliveryStatuses) :
    let c := (p.processDeliveryStatuses statuses).val.connectionManager
    c.peerLimit = some limit ∧
      c.numLetsConnectToSend ≤ p.connectionManager.numLetsConnectToSend := by
  refine Peer.processDeliveryStatuses_keeps (P := fun c => c.peerLimit = some limit ∧
    c.numLetsConnectToSend ≤ p.connectionManager.numLetsConnectToSend) (fun c id status hc => ?_)
    ⟨h, Nat.le_refl _⟩ statuses
  have hsome : c.peerBandwidthLimit.isSome = true := by
    rw [show c.peerBandwidthLimit = some limit from hc.1]
    rfl
  rcases c.status_cases id status with ⟨-, hval⟩ | ⟨-, -, hval⟩ | ⟨-, -, hval⟩
  · rw [hval]
    exact hc
  · rw [hval]
    exact ⟨hc.1, Nat.zero_le _⟩
  · rw [hval, if_pos hsome]
    exact hc

theorem Peer.dropOldPackets_connected {limit : BandwidthLimit} {p : Peer}
    (h : p.connectionManager.peerLimit = some limit) (now : ℤ) :
    let c := (p.dropOldPackets now).val.1.connectionManager
    c.peerLimit = some limit ∧
      c.numLetsConnectToSend ≤ p.connectionManager.numLetsConnectToSend := by
  rw [Peer.val_dropOldPackets]
  exact processDeliveryStatuses_connected (p := { p with
    packetDeliveryManager := (p.packetDeliveryManager.dropOldPackets now).1 }) h _

/-- The limits of the other side are known, and no handshake is left to write. -/
structure Peer.Settled (limit : BandwidthLimit) (p : Peer) : Prop where
  connected : p.connectionManager.peerLimit = some limit
  nothingLeft : p.connectionManager.numLetsConnectToSend = 0

namespace Peer.Settled

variable {limit : BandwidthLimit} {p : Peer}

theorem processDeliveryStatuses (h : p.Settled limit) (statuses : DeliveryStatuses) :
    (p.processDeliveryStatuses statuses).val.Settled limit := by
  obtain ⟨hconnected, hle⟩ := Peer.processDeliveryStatuses_connected h.connected statuses
  exact ⟨hconnected, Nat.le_zero.mp (h.nothingLeft ▸ hle)⟩

theorem dropOldPackets (h : p.Settled limit) (now : ℤ) :
    (p.dropOldPackets now).val.1.Settled limit := by
  obtain ⟨hconnected, hle⟩ := Peer.dropOldPackets_connected h.connected now
  exact ⟨hconnected, Nat.le_zero.mp (h.nothingLeft ▸ hle)⟩

theorem encodeHandshake (h : p.Settled limit) (gap : UInt8) :
    p.connectionManager.encodeHandshake gap = [] := by
  rw [ConnectionManager.encodeHandshake, h.nothingLeft]
  rfl

theorem maxPacketSize (h : p.Settled limit) (config : ConnectionManagerConfig) :
    p.maxPacketSize config = min limit.maxReadPacketSize config.limit.maxSendPacketSize := by
  rw [Peer.maxPacketSize, h.connected]

/-- The first message is written if it fits into the room behind the header. -/
theorem fitCount_ne_zero (h : p.Settled limit) {size : UInt16} {first : PendingMessage}
    (hfirst : first ∈ p.reliableStream.pendingMessages.head?)
    (hsmall : (p.reliableStream.buffer.bufferSpan first.range).length + 20
      ≤ (min kJustBelowMtu size).toNat) :
    p.reliableStream.fitCount (p.streamRoom size) ≠ 0 := by
  intro hzero
  have hlarge := (ReliableStream.fitCount_eq_zero_iff _ _).mp hzero first hfirst
  have hroom : p.streamRoom size = (min kJustBelowMtu size).toNat - 12 := by
    rw [Peer.streamRoom, h.encodeHandshake, List.length_nil, usizeSub_of_le (Nat.zero_le _),
      Nat.sub_zero, usizeSub_of_le (by omega)]
  rw [hroom] at hlarge
  omega

end Peer.Settled

namespace Peer

variable {limit : BandwidthLimit} {p : Peer}

/-- The state after a packet is written. -/
theorem Settled.writeToPeer (h : p.Settled limit) (mem : Memory) (now : ℤ) (size : UInt16) :
    let p' := (p.writeToPeer mem now size).val.1
    let count := p.reliableStream.fitCount (p.streamRoom size)
    p'.Settled limit ∧
      p'.packetDeliveryManager = (p.packetDeliveryManager.nextHeader now).val.1 ∧
      p'.reliableStream = { p.reliableStream with
        pendingMessages := p.reliableStream.pendingMessages.drop count
        inFlightMessages := p.reliableStream.inFlightMessages
          ++ (p.reliableStream.pendingMessages.take count).map (InFlightMessage.mk p.nextId) } := by
  intro p' count
  have hhandshake : ∀ (id : PacketId) (b : Span) (mem : Memory),
      (p.connectionManager.write id b mem).val.1 = p.connectionManager := by
    intro id b mem
    rw [ConnectionManager.write_state, if_neg (by rw [h.nothingLeft]; decide)]
  have hcount : ∀ (id : PacketId) (b : Span) (mem : Memory),
      (p.connectionManager.write id b mem).val.2.2
        = (p.connectionManager.encodeHandshake 0).length := by
    intro id b mem
    rw [(p.connectionManager.write_encodeHandshake id b mem).1]
    exact p.connectionManager.length_encodeHandshake _ _
  obtain ⟨b, mem', hconnection, -⟩ := writeToPeer_connection p mem now size
  rw [hhandshake] at hconnection
  refine ⟨⟨?_, ?_⟩, (p.writeToPeer_frame mem now size).1, ?_⟩
  · rw [hconnection]
    exact h.connected
  · rw [hconnection]
    exact h.nothingLeft
  · simp only [p', Peer.writeToPeer, Checked.val_bind, Checked.val_pure,
      PacketDeliveryManager.val_write, PacketHeader.readId_storeList,
      PacketDeliveryManager.nextHeader_id, val_advance, hcount, ReliableStream.write_state]
    rfl

end Peer

/-! ### Reading -/

namespace Peer

variable {limit : BandwidthLimit} {p : Peer}

/-- A settled entry reads the messages of every packet that it accepts. -/
theorem Settled.read (h : p.Settled limit) {sender : BandwidthLimit} {sent : List (List UInt8)}
    {content : PacketContent} (hformed : content.Formed sender sent)
    (hhandshake : content.handshake = [])
    (hnew : ¬ content.header.id < p.packetDeliveryManager.nextExpectedPacketId)
    (config : ConnectionManagerConfig) (mem : Memory) :
    let result := (p.read config ⟨0, content.bytes.length⟩ (mem.storeList 0 content.bytes)).val
    let received := (p.packetDeliveryManager.processRead content.header).val
    let resolved := (Peer.processDeliveryStatuses { p with packetDeliveryManager := received.1 }
      received.2.2.1).val
    let taken := receive p.reliableStream.nextExpectedSequenceNumber content.messages
    result.1.Settled limit ∧ result.1.packetDeliveryManager = received.1 ∧
      result.1.reliableStream
        = { resolved.reliableStream with nextExpectedSequenceNumber := taken.1 } ∧
      result.2.reliable = taken.2 := by
  intro result received resolved taken
  have hslice := Memory.slice_storeList_self mem 0 content.bytes
  simp only [result]
  generalize mem.storeList 0 content.bytes = mem' at hslice ⊢
  have hlength : content.bytes.length = 12 + (encodeSegment content.messages
      ++ encodeUnreliable content.chunk).length := by
    rw [PacketContent.bytes, hhandshake, List.nil_append, List.length_append,
      PacketHeader.length_encode]
  rw [PacketContent.bytes, hhandshake, List.nil_append] at hslice
  obtain ⟨hhead, htail⟩ := Memory.slice_eq_of_append hslice
  rw [PacketHeader.length_encode] at hhead htail
  have hheader : (PacketHeader.read ⟨0, content.bytes.length⟩ mem').val = content.header :=
    PacketHeader.val_read hhead
  refine (Peer.read_cases config p ⟨0, content.bytes.length⟩ mem').elim (fun hold => ?_)
    fun hread => ?_
  · rw [hheader] at hold
    exact absurd hold.1 hnew
  · obtain ⟨-, hval⟩ := hread
    rw [hheader] at hval
    have hsize : usizeSub content.bytes.length 12 = (encodeSegment content.messages
        ++ encodeUnreliable content.chunk).length := by
      rw [hlength, usizeSub_of_le (Nat.le_add_right _ _), Nat.add_sub_cancel_left]
    have hsettled : resolved.Settled limit := Settled.processDeliveryStatuses (p := { p with
      packetDeliveryManager := received.1 }) ⟨h.connected, h.nothingLeft⟩ _
    have hdelivery : resolved.packetDeliveryManager = received.1 :=
      (Peer.processDeliveryStatuses_frame _ _).1
    have hexpected : resolved.reliableStream.nextExpectedSequenceNumber
        = p.reliableStream.nextExpectedSequenceNumber :=
      (processDeliveryStatuses_keepsStreams (P := fun s => s.nextExpectedSequenceNumber
        = p.reliableStream.nextExpectedSequenceNumber) (fun s id status hs =>
          (ReliableStream.status_nextExpected s id status).trans hs)
        (p := { p with packetDeliveryManager := received.1 }) rfl _).1
    -- the connection manager passes everything on to the streams
    have hpassed := resolved.connectionManager.val_read_streams (b := ⟨0 + 12, _⟩) rfl htail
    rw [hval, hsize]
    change (readConnection config resolved _ mem' _).val.1.Settled limit ∧
      (readConnection config resolved _ mem' _).val.1.packetDeliveryManager = _ ∧
      (readConnection config resolved _ mem' _).val.1.reliableStream = _ ∧
      (readConnection config resolved _ mem' _).val.2.reliable = _
    rw [readConnection]
    simp only [Checked.val_bind, hpassed, hsettled.connected, val_advance, Nat.add_zero]
    rw [usizeSub_of_le (Nat.zero_le _), Nat.sub_zero]
    obtain ⟨⟨ticker, hticked⟩, hreliable, -⟩ := readStreams_content config resolved limit
      (b := ⟨0 + 12, _⟩) hformed.count_lt hformed.fits hformed.chunkFits rfl htail
      ⟨content.header.id, true, received.2.2.1, none, [], []⟩
    rw [hexpected] at hticked hreliable
    refine ⟨?_, ?_, ?_, hreliable⟩
    · rw [hticked]
      exact ⟨hsettled.connected, hsettled.nothingLeft⟩
    · rw [hticked]
      exact hdelivery
    · rw [hticked]

/-- The only packet in flight is acknowledged, with all messages in flight. -/
theorem processDeliveryStatuses_ack (p : Peer) {id : PacketId}
    (htags : ∀ msg ∈ p.reliableStream.inFlightMessages, msg.packetId = id) :
    (p.processDeliveryStatuses [(id, .ack)]).val.reliableStream.messages
      = p.reliableStream.pendingMessages := by
  have hall : ∀ msg ∈ p.reliableStream.inFlightMessages, decide (msg.packetId = id) = true :=
    fun msg hmsg => decide_eq_true (htags msg hmsg)
  show (p.reliableStream.onPacketDeliveryStatus id .ack).val.messages = _
  rw [ReliableStream.messages, ReliableStream.inFlightMessages_ack,
    List.dropWhile_eq_nil_iff.mpr hall]
  rfl

end Peer

/-! ### Acknowledgements of a link -/

/-- What the entry is going to acknowledge are packets of the other side, and it keeps its
timeout. -/
def PeerNode.AcksBelow (packetTimeout : ℤ) (count : ℕ) (x : PeerNode) : Prop :=
  ∀ p ∈ x.entry, p.packetDeliveryManager.AcksBelow count ∧
    p.packetDeliveryManager.packetTimeout = packetTimeout

namespace PeerNode.AcksBelow

variable {config : ConnectionManagerConfig} {packetTimeout : ℤ} {count : ℕ} {x : PeerNode}

theorem getD (h : x.AcksBelow packetTimeout count) (now : ℤ) :
    let p := x.entry.getD (.fresh config packetTimeout now)
    p.packetDeliveryManager.AcksBelow count ∧
      p.packetDeliveryManager.packetTimeout = packetTimeout := by
  cases hentry : x.entry with
  | none => exact ⟨(PacketDeliveryManager.AcksBelow.start packetTimeout).grow (Nat.zero_le _), rfl⟩
  | some p => exact h p hentry

theorem of_entry {p : Peer} (hentry : x.entry = some p)
    (h : p.packetDeliveryManager.AcksBelow count ∧
      p.packetDeliveryManager.packetTimeout = packetTimeout) :
    x.AcksBelow packetTimeout count := by
  intro q hq
  rw [hentry] at hq
  cases hq
  exact h

theorem dropOldPackets (h : x.AcksBelow packetTimeout count) (now : ℤ) :
    (x.dropOldPackets now).AcksBelow packetTimeout count := by
  intro q hq
  obtain ⟨p, hp, rfl⟩ := Option.map_eq_some_iff.mp hq
  obtain ⟨hacks, htimeout⟩ := h p hp
  rw [Peer.dropOldPackets_delivery]
  exact ⟨hacks.congr rfl rfl, htimeout⟩

theorem read (h : x.AcksBelow packetTimeout count) (hcount : count < 2 ^ 32)
    {limit : BandwidthLimit} {sent : List (List UInt8)} {content : PacketContent}
    (hformed : content.Formed limit sent) (hlimit : limit.Robust)
    (hid : content.header.id.toNat < count) (now : ℤ) (mem : Memory) :
    (x.read config packetTimeout now content.bytes mem).AcksBelow packetTimeout count := by
  refine of_entry rfl ?_
  rw [List.take_of_length_le hformed.short]
  obtain ⟨hdelivery, -⟩ := Peer.read_content hformed hlimit config
    (x.entry.getD (.fresh config packetTimeout now)) mem
  obtain ⟨hacks, htimeout⟩ := @getD config packetTimeout count x h now
  rw [hdelivery, PacketDeliveryManager.processRead_packetTimeout]
  exact ⟨hacks.processRead hcount hid, htimeout⟩

theorem write (h : x.AcksBelow packetTimeout count) (now : ℤ) (mem : Memory) :
    (x.write config now mem).AcksBelow packetTimeout count := by
  rw [PeerNode.write]
  cases hentry : x.entry with
  | none => exact h
  | some p =>
    refine of_entry rfl ?_
    obtain ⟨hacks, htimeout⟩ := h p hentry
    rcases Peer.write_delivery config p mem now with hdelivery | hdelivery
    · rw [hdelivery]
      exact ⟨hacks, htimeout⟩
    · rw [hdelivery]
      refine ⟨hacks.nextHeader now, ?_⟩
      rw [PacketDeliveryManager.nextHeader_frame]
      exact htimeout

theorem next (h : x.AcksBelow packetTimeout count) (hcount : count < 2 ^ 32)
    {limit : BandwidthLimit} (hlimit : limit.Robust) (sent : List (List UInt8)) (call : PeerCall)
    (hincoming : ∀ now packet readBuffer writeBuffer,
      call = .tick now (some packet) readBuffer writeBuffer → ∃ content : PacketContent,
        content.bytes = packet ∧ content.Formed limit sent ∧ content.header.id.toNat < count) :
    (x.next config packetTimeout call).AcksBelow packetTimeout count := by
  cases call with
  | connect now => exact of_entry rfl (h.getD now)
  | sendReliable fn now => exact of_entry rfl (h.getD now)
  | sendUnreliable fn now => exact of_entry rfl (h.getD now)
  | tick now incoming readBuffer writeBuffer =>
    cases incoming with
    | none => exact (h.dropOldPackets now).write now writeBuffer
    | some packet =>
      obtain ⟨content, rfl, hformed, hid⟩ := hincoming _ _ _ _ rfl
      exact ((h.dropOldPackets now).read hcount hformed hlimit hid now readBuffer).write now
        writeBuffer

end PeerNode.AcksBelow

theorem LinkSound.length_packets {setup : Setup} {s : Side → PeerNode}
    {t : Side → List PacketContent} (ht : LinkSound setup s t) (side : Side) :
    (t side).length = (s side).history.packets.length := by
  rw [((ht side).sending 0).packets, List.length_map]

/-- The packets of a side are well formed, and their ids count them. -/
theorem LinkSound.content_of_packet {setup : Setup} {s : Side → PeerNode}
    {t : Side → List PacketContent} (ht : LinkSound setup s t) (hbound : LinkBound s) {side : Side}
    {packet : List UInt8} (hpacket : packet ∈ (s side).history.packets) :
    ∃ content : PacketContent, content.bytes = packet ∧
      content.Formed (setup.config side).limit (s side).history.reliableSent ∧
      content.header.id.toNat < (s side).history.packets.length := by
  have hsending := (ht side).sending 0
  rw [hsending.packets] at hpacket
  obtain ⟨content, hcontent, rfl⟩ := List.mem_map.mp hpacket
  obtain ⟨i, hi, rfl⟩ := List.mem_iff_getElem.mp hcontent
  have hlength := ht.length_packets side
  have hcount := (hbound side).1
  refine ⟨_, rfl, hsending.formed _ hcontent, ?_⟩
  rw [hsending.ids i _ (List.getElem?_eq_getElem hi), UInt32.toNat_ofNat',
    Nat.mod_eq_of_lt (by omega)]
  omega

/-- The sides of a link acknowledge packets of each other. -/
theorem link_acks {setup : Setup} (hrobust : ∀ side, (setup.config side).limit.Robust)
    {s : Side → PeerNode} (h : (link setup).Reachable System.anyAction s) (hbound : LinkBound s) :
    (∃ t, LinkSound setup s t) ∧
      ∀ side, (s side).AcksBelow (setup.packetTimeout side)
        (s side.other).history.packets.length := by
  refine h.invariant_of_bound (P := fun s => (∃ t, LinkSound setup s t) ∧
    ∀ side, (s side).AcksBelow (setup.packetTimeout side)
      (s side.other).history.packets.length) LinkBound
    (fun s call hnext => hnext.of_next) (fun s hs => ?_) (fun s call _ hs hen _ hnext => ?_) hbound
  · rw [hs]
    refine ⟨⟨fun _ => [], fun side => ⟨fun now => Sending.fresh _ _ now,
      fun now => Receiving.fresh _ _ now⟩⟩, fun side p hp => ?_⟩
    cases hp
  · obtain ⟨side, call⟩ := call
    obtain ⟨⟨t, ht⟩, hacks⟩ := hs
    have hbefore : LinkBound s := hnext.of_next
    refine ⟨ht.next hrobust hbefore hen, fun x => ?_⟩
    -- what a side reads has an id below the number of packets
    have hself : ((s side).next (setup.config side) (setup.packetTimeout side) call).AcksBelow
        (setup.packetTimeout side) (s side.other).history.packets.length := by
      refine (hacks side).next (hbefore side.other).1 (hrobust side.other)
        (s side.other).history.reliableSent call ?_
      rintro now packet readBuffer writeBuffer rfl
      exact ht.content_of_packet hbefore hen
    show (side.set s _ x).AcksBelow _ (side.set s _ x.other).history.packets.length
    by_cases hx : x = side
    · subst hx
      rw [Side.set_self, Side.set_other]
      exact hself
    · rw [Side.eq_other_of_ne hx, Side.other_other, Side.set_self, Side.set_other]
      have hacks' := hacks side.other
      rw [Side.other_other] at hacks'
      exact fun p hp => ⟨(hacks' p hp).1.grow ((s side).lengths_le _ _ call).1, (hacks' p hp).2⟩

/-! ### Ticks of a settled entry -/

namespace PeerNode

variable {config : ConnectionManagerConfig} {packetTimeout : ℤ} {contents : List PacketContent}
  {limit : BandwidthLimit} {x : PeerNode} {p : Peer}

/-- The size of packets for the limits of both sides. -/
def packetSize (config : ConnectionManagerConfig) (limit : BandwidthLimit) : UInt16 :=
  min limit.maxReadPacketSize config.limit.maxSendPacketSize

/-- A settled entry writes a packet without a handshake, if its ticker fires. -/
theorem write_settled (hp : x.entry = some p) (h : p.Settled limit)
    (hs : Sending config contents x.history p) (hconfig : config.limit.Robust) (now : ℤ)
    (mem : Memory) :
    let y := x.write config now mem
    let count := p.reliableStream.fitCount (p.streamRoom (packetSize config limit))
    ∃ p', y.entry = some p' ∧ p'.Settled limit ∧
      p'.reliableStream.messages = p.reliableStream.messages ∧
      (((p.sendPacketTicker.tick now).val.2 = false ∧
          p'.packetDeliveryManager = p.packetDeliveryManager ∧ y.history = x.history) ∨
        p'.packetDeliveryManager = (p.packetDeliveryManager.nextHeader now).val.1 ∧
        p'.reliableStream = { p.reliableStream with
          pendingMessages := p.reliableStream.pendingMessages.drop count
          inFlightMessages := p.reliableStream.inFlightMessages
            ++ (p.reliableStream.pendingMessages.take count).map (InFlightMessage.mk p.nextId) } ∧
        ∃ content : PacketContent, content.Formed config.limit x.history.reliableSent ∧
          content.handshake = [] ∧
          content.header = (p.packetDeliveryManager.nextHeader now).val.2 ∧
          content.messages = p.takenReliable (packetSize config limit) ∧
          y.history = { x.history with packets := x.history.packets ++ [content.bytes] }) := by
  intro y count
  have hsize : p.maxPacketSize config = packetSize config limit := h.maxPacketSize config
  have hy : y = { entry := some (p.write config mem now).val.1
                  history := { x.history with
                    packets := x.history.packets
                      ++ (p.write config mem now).val.2.2.toList.map (·.payload) } } := by
    show x.write config now mem = _
    rw [PeerNode.write, hp]
  have hticked : Peer.Settled limit { p with
      sendPacketTicker := (p.sendPacketTicker.tick now).val.1 } := ⟨h.connected, h.nothingLeft⟩
  rw [hy]
  rcases Peer.write_cases config p mem now with hval | ⟨-, hval⟩
  · refine ⟨_, rfl, ?_⟩
    rw [hval]
    refine ⟨hticked, rfl, ?_⟩
    by_cases hfires : (p.sendPacketTicker.tick now).val.2 = true
    · -- a ticker that fires lets a packet pass
      have hpacket := congrArg (fun result => result.2.2) hval
      rw [Peer.write_encodePacket, if_pos (Or.inl hfires)] at hpacket
      cases hpacket
    · refine Or.inl ⟨Bool.not_eq_true _ ▸ hfires, rfl, ?_⟩
      simp
  · obtain ⟨hsettled, hdelivery, hstream⟩ := hticked.writeToPeer mem now (packetSize config limit)
    obtain ⟨k, hk⟩ := hs.reliable
    have hroom := @Peer.LimitsValid.le_maxPacketSize p hs.limits config hconfig.1
    rw [hsize] at hval hroom
    have hformed := Peer.nextContent_formed hk hs.unreliable hs.intact now
      (show 21 ≤ (min kJustBelowMtu (packetSize config limit)).toNat by omega) (mem 17)
    rw [hs.config] at hformed
    refine ⟨_, rfl, ?_⟩
    rw [hval]
    refine ⟨hsettled, ?_, Or.inr ⟨hdelivery, hstream, _, hformed, h.encodeHandshake _, rfl, rfl,
      ?_⟩⟩
    · rw [hstream]
      have hmessages := p.reliableStream.messages_write p.nextId
        ⟨0, p.streamRoom (packetSize config limit)⟩ mem
      rw [ReliableStream.write_state] at hmessages
      exact hmessages
    · have hpayload := congrArg Packet.payload (Peer.writeToPeer_encodePacket { p with
        sendPacketTicker := (p.sendPacketTicker.tick now).val.1 } mem now (packetSize config limit))
      rw [Peer.bytes_nextContent] at hpayload
      dsimp only
      rw [Option.toList_some, List.map_singleton, hpayload]
      rfl

/-- The messages of the next packet continue those in flight. -/
theorem takenReliable_eq {k : ℕ} {sent : List (List UInt8)}
    (hk : Represents 3200 p.reliableStream k sent) (size : UInt16) :
    p.takenReliable size = numberFrom (k + p.reliableStream.inFlightMessages.length)
      ((sent.drop (k + p.reliableStream.inFlightMessages.length)).take
        (p.reliableStream.fitCount (p.streamRoom size))) := by
  rw [Peer.takenReliable, List.map_take, hk.pending_toWire, numberFrom_take]

/-- **All packets are lost.**  The next one is the only packet in flight, and carries the
first messages that are not acknowledged. -/
theorem tick_late (hp : x.entry = some p) (h : p.Settled limit)
    (hs : Sending config contents x.history p) (hconfig : config.limit.Robust) {k : ℕ}
    (hk : Represents 3200 p.reliableStream k x.history.reliableSent) {now : ℤ}
    (hlate : p.Late now) (hne : p.packetDeliveryManager.inFlightPackets ≠ [])
    (readBuffer writeBuffer : Memory) :
    let y := x.tick config packetTimeout now none readBuffer writeBuffer
    ∃ p', y.entry = some p' ∧ p'.Settled limit ∧
      p'.packetDeliveryManager.inFlightPackets = [⟨p.nextId, now⟩] ∧
      (∀ msg ∈ p'.reliableStream.inFlightMessages, msg.packetId = p.nextId) ∧
      p'.reliableStream.messages = p.reliableStream.messages ∧
      ((∀ first ∈ p.reliableStream.messages.head?,
          (p.reliableStream.buffer.bufferSpan first.range).length + 20
            ≤ (min kJustBelowMtu (packetSize config limit)).toNat) →
        p.reliableStream.messages ≠ [] → p'.reliableStream.inFlightMessages ≠ []) ∧
      ∃ content : PacketContent, content.Formed config.limit x.history.reliableSent ∧
        content.handshake = [] ∧ content.header.id = p.nextId ∧
        content.messages = numberFrom k ((x.history.reliableSent.drop k).take
          p'.reliableStream.inFlightMessages.length) ∧
        y.history = { x.history with packets := x.history.packets ++ [content.bytes] } := by
  intro y
  obtain ⟨c, hdropped⟩ := hlate.dropOldPackets hne
  have hsettled := h.dropOldPackets now
  have hsending := hs.dropOldPackets now
  rw [hdropped] at hsettled hsending
  set q : Peer := { p with
    packetDeliveryManager := { p.packetDeliveryManager with inFlightPackets := [] }
    connectionManager := c
    reliableStream := { p.reliableStream with
      inFlightMessages := []
      pendingMessages := p.reliableStream.messages } } with hq
  have hx : x.dropOldPackets now = { entry := some q, history := x.history } := by
    rw [PeerNode.dropOldPackets, hp, Option.map_some, hdropped]
  have hk' : Represents 3200 q.reliableStream k x.history.reliableSent :=
    ⟨hk.le, hk.sizes, hk.messages, hk.nextOutgoing, hk.endIndex, hk.capacity_eq, hk.endIndex_le,
      hk.bytes⟩
  have hy : y = write config { entry := some q, history := x.history } now writeBuffer := by
    rw [← hx]
    rfl
  obtain ⟨p', hentry, hsettled', hmessages, hrest⟩ := write_settled
    (x := { entry := some q, history := x.history }) rfl hsettled hsending hconfig now writeBuffer
  rcases hrest with ⟨hfires, -⟩ | ⟨hdelivery, hstream, content, hformed, hhandshake, hheader,
    hcontent, hhistory⟩
  · have hticker : (p.sendPacketTicker.tick now).val.2 = false := hfires
    rw [hlate.fires] at hticker
    cases hticker
  · rw [← hy] at hentry hhistory
    have hid : q.nextId = p.nextId := rfl
    have hcount : q.reliableStream.fitCount (q.streamRoom (packetSize config limit))
        ≤ q.reliableStream.pendingMessages.length := ReliableStream.countMessages_le _ _ _ _
    have hlength : p'.reliableStream.inFlightMessages.length
        = q.reliableStream.fitCount (q.streamRoom (packetSize config limit)) := by
      rw [hstream]
      show ([] ++ _ : List InFlightMessage).length = _
      rw [List.nil_append, List.length_map, List.length_take, Nat.min_eq_left hcount]
    refine ⟨p', hentry, hsettled', ?_, ?_, hmessages, ?_, content, hformed, hhandshake, ?_, ?_,
      hhistory⟩
    · rw [hdelivery, PacketDeliveryManager.nextHeader_frame]
      rfl
    · intro msg hmsg
      rw [hstream] at hmsg
      obtain ⟨taken, -, rfl⟩ := List.mem_map.mp hmsg
      exact hid
    · intro hfits hmsgs hnil
      rw [hnil, List.length_nil] at hlength
      obtain ⟨first, hfirst⟩ := Option.ne_none_iff_exists'.mp
        fun hnone => hmsgs (List.head?_eq_none_iff.mp hnone)
      have hfirst' : first ∈ q.reliableStream.pendingMessages.head? := hfirst
      exact hsettled.fitCount_ne_zero hfirst' (hfits first hfirst) hlength.symm
    · rw [hheader, PacketDeliveryManager.nextHeader_id]
      rfl
    · rw [hcontent, takenReliable_eq hk', hlength]
      rfl

/-- **An acknowledgement arrives.**  The messages in flight went with the only packet in
flight, which is acknowledged by a packet that is new. -/
theorem tick_ack (hp : x.entry = some p) (h : p.Settled limit)
    (hs : Sending config contents x.history p) (hconfig : config.limit.Robust)
    {sender : BandwidthLimit} (hsender : sender.Robust) {sent : List (List UInt8)}
    {content : PacketContent} (hformed : content.Formed sender sent)
    (hhandshake : content.handshake = [])
    (hnew : p.packetDeliveryManager.nextExpectedPacketId ≤ content.header.id) {id : PacketId}
    {time : ℤ} (hflight : p.packetDeliveryManager.inFlightPackets = [⟨id, time⟩])
    (hfresh : time < time + p.packetDeliveryManager.packetTimeout * 1000000)
    (htags : ∀ msg ∈ p.reliableStream.inFlightMessages, msg.packetId = id)
    (hack : id.toNat ∈ content.header.ackedIds)
    (hlt : ∀ n ∈ content.header.ackedIds, n < 2 ^ 32) (readBuffer writeBuffer : Memory) :
    let y := x.tick config packetTimeout time (some content.bytes) readBuffer writeBuffer
    ∃ p', y.entry = some p' ∧ p'.Settled limit ∧
      p'.reliableStream.messages = p.reliableStream.pendingMessages ∧
      y.history.reliableSent = x.history.reliableSent ∧
      y.history.packets.length ≤ x.history.packets.length + 1 := by
  intro y
  have hnew' : ¬ content.header.id < p.packetDeliveryManager.nextExpectedPacketId :=
    UInt32.not_lt.mpr hnew
  obtain ⟨hsettled, hdelivery, hstream, -⟩ := h.read hformed hhandshake hnew' config readBuffer
  have hsending := hs.read hsender hformed readBuffer
  set result := (p.read config ⟨0, content.bytes.length⟩
    (readBuffer.storeList 0 content.bytes)).val with hresult
  have hx : x.dropOldPackets time = x := by
    rw [PeerNode.dropOldPackets, hp, Option.map_some, Peer.dropOldPackets_of_fresh hflight hfresh,
      ← hp]
  have hy : y = write config { entry := some result.1
                               history := { x.history with
                                 reliableReceived := x.history.reliableReceived
                                   ++ result.2.reliable
                                 unreliableReceived := x.history.unreliableReceived
                                   ++ result.2.unreliable } } time writeBuffer := by
    show (PeerNode.tick _ _ _ _ _ _ _) = _
    rw [PeerNode.tick, hx]
    dsimp only
    rw [PeerNode.read, hp, Option.getD_some, List.take_of_length_le hformed.short]
  have hmessages : result.1.reliableStream.messages = p.reliableStream.pendingMessages := by
    rw [hstream]
    have hacks := PacketDeliveryManager.processAcks_single hflight hack hlt
    rw [PacketDeliveryManager.processRead_statuses, hacks]
    exact Peer.processDeliveryStatuses_ack { p with packetDeliveryManager :=
      (p.packetDeliveryManager.processRead content.header).val.1 } htags
  obtain ⟨p', hentry, hsettled', hmessages', hrest⟩ := write_settled
    (x := { entry := some result.1
            history := { x.history with
              reliableReceived := x.history.reliableReceived ++ result.2.reliable
              unreliableReceived := x.history.unreliableReceived ++ result.2.unreliable } })
    rfl hsettled (hsending.congr_history _ _) hconfig time writeBuffer
  rw [← hy] at hentry hrest
  refine ⟨p', hentry, hsettled', hmessages'.trans hmessages, ?_⟩
  rcases hrest with ⟨-, -, hhistory⟩ | ⟨-, -, _, -, -, -, -, hhistory⟩
  · rw [hhistory]
    exact ⟨rfl, Nat.le_succ _⟩
  · rw [hhistory]
    refine ⟨rfl, ?_⟩
    rw [List.length_append]
    exact Nat.le_refl _

end PeerNode

/-! ### Answering -/

/-- The entry is going to acknowledge the packet, or has done so with a packet whose number
is at least `start`. -/
structure PeerNode.Answering (config : ConnectionManagerConfig) (limit : BandwidthLimit)
    (id : PacketId) (start bound : ℕ) (history : PeerHistory) (x : PeerNode) (p : Peer) :
    Prop where
  entry : x.entry = some p
  settled : p.Settled limit
  received : x.history.reliableReceived = history.reliableReceived
  sent : x.history.reliableSent = history.reliableSent
  start_le : start ≤ x.history.packets.length
  sorted : SortedIds UInt32.toNat p.packetDeliveryManager.pendingAcks
  room : x.history.packets.length + p.packetDeliveryManager.pendingAcks.length ≤ bound
  acks : id ∈ p.packetDeliveryManager.pendingAcks ∨ ∃ content : PacketContent,
    content.bytes ∈ x.history.packets ∧ content.Formed config.limit x.history.reliableSent ∧
      content.handshake = [] ∧ start ≤ content.header.id.toNat ∧
      id.toNat ∈ content.header.ackedIds ∧ ∀ n ∈ content.header.ackedIds, n < 2 ^ 32

namespace PeerNode.Answering

variable {config : ConnectionManagerConfig} {packetTimeout : ℤ} {contents : List PacketContent}
  {limit : BandwidthLimit} {id : PacketId} {start bound : ℕ} {history : PeerHistory}
  {x : PeerNode} {p : Peer}

theorem dropOldPackets (h : Answering config limit id start bound history x p) (now : ℤ) :
    Answering config limit id start bound history (x.dropOldPackets now)
      (p.dropOldPackets now).val.1 := by
  have hdelivery := Peer.dropOldPackets_delivery p now
  refine ⟨?_, h.settled.dropOldPackets now, h.received, h.sent, h.start_le, ?_, ?_, ?_⟩
  · rw [PeerNode.dropOldPackets, h.entry, Option.map_some]
  · rw [hdelivery]
    exact h.sorted
  · rw [hdelivery]
    exact h.room
  · rw [hdelivery]
    exact h.acks

/-- A packet takes acknowledgements from the front of what is pending. -/
theorem write (h : Answering config limit id start bound history x p)
    (hs : Sending config contents x.history p) (hconfig : config.limit.Robust)
    (hcount : contents.length < 2 ^ 32) (hne : p.packetDeliveryManager.pendingAcks ≠ []) (now : ℤ)
    (mem : Memory) :
    ∃ p', Answering config limit id start bound history (x.write config now mem) p' ∧
      ((p.sendPacketTicker.tick now).val.2 = true →
        p'.packetDeliveryManager.pendingAcks.length
          < p.packetDeliveryManager.pendingAcks.length) := by
  obtain ⟨p', hentry, hsettled, -, hrest⟩ := write_settled h.entry h.settled hs hconfig now mem
  refine ⟨p', ?_⟩
  rcases hrest with ⟨hfires, hdelivery, hhistory⟩ | ⟨hdelivery, -, content, hformed, hhandshake,
    hheader, -, hhistory⟩
  · refine ⟨⟨hentry, hsettled, ?_, ?_, ?_, ?_, ?_, ?_⟩, fun hfires' => ?_⟩
    · rw [hhistory]
      exact h.received
    · rw [hhistory]
      exact h.sent
    · rw [hhistory]
      exact h.start_le
    · rw [hdelivery]
      exact h.sorted
    · rw [hhistory, hdelivery]
      exact h.room
    · rw [hhistory, hdelivery]
      exact h.acks
    · rw [hfires] at hfires'
      cases hfires'
  · have hpackets : x.history.packets.length = contents.length := by
      rw [hs.packets, List.length_map]
    have hlt : p'.packetDeliveryManager.pendingAcks.length
        < p.packetDeliveryManager.pendingAcks.length := by
      rw [hdelivery]
      exact PacketDeliveryManager.nextHeader_pendingAcks_lt hne now
    refine ⟨⟨hentry, hsettled, ?_, ?_, ?_, ?_, ?_, ?_⟩, fun _ => hlt⟩
    · rw [hhistory]
      exact h.received
    · rw [hhistory]
      exact h.sent
    · rw [hhistory, List.length_append]
      exact Nat.le_trans h.start_le (Nat.le_add_right _ _)
    · rw [hdelivery]
      exact PacketDeliveryManager.nextHeader_pendingAcks_sorted h.sorted now
    · have hroom := h.room
      rw [hhistory, List.length_append, List.length_singleton]
      omega
    · rw [hhistory, hdelivery]
      rcases h.acks with hpending | ⟨content', hpacket, hrest⟩
      · rcases PacketDeliveryManager.nextHeader_takes h.sorted hpending now with hstill | hack
        · exact Or.inl hstill
        · refine Or.inr ⟨content, List.mem_append_right _ List.mem_cons_self, hformed, hhandshake,
            ?_, hheader ▸ hack,
            hheader ▸ PacketDeliveryManager.ackedIds_nextHeader_lt h.sorted now⟩
          have hid : content.header.id.toNat = x.history.packets.length := by
            rw [hheader, PacketDeliveryManager.nextHeader_id,
              show p.packetDeliveryManager.nextOutgoingPacketId = _ from hs.nextId,
              UInt32.toNat_ofNat', Nat.mod_eq_of_lt hcount, hpackets]
          rw [hid]
          exact h.start_le
      · exact Or.inr ⟨content', List.mem_append_left _ hpacket, hrest⟩

end PeerNode.Answering

namespace PeerNode

variable {config : ConnectionManagerConfig} {packetTimeout : ℤ} {contents : List PacketContent}
  {limit : BandwidthLimit} {x : PeerNode} {p : Peer} {now : ℤ}

/-- When the ticker fires a packet is written, with a handshake if there is one left. -/
theorem tick_fires (hp : x.entry = some p) (h : p.connectionManager.peerLimit = some limit)
    (hfires : (p.sendPacketTicker.tick now).val.2 = true) (readBuffer writeBuffer : Memory) :
    let y := x.tick config packetTimeout now none readBuffer writeBuffer
    ∃ p' payload, y.entry = some p' ∧ p'.connectionManager.peerLimit = some limit ∧
      p'.connectionManager.numLetsConnectToSend ≤ p.connectionManager.numLetsConnectToSend - 1 ∧
      p'.reliableStream.messages = p.reliableStream.messages ∧
      p'.packetDeliveryManager.inFlightPackets ≠ [] ∧
      p'.packetDeliveryManager.pendingAcks.length ≤ p.packetDeliveryManager.pendingAcks.length ∧
      y.history = { x.history with packets := x.history.packets ++ [payload] } := by
  intro y
  obtain ⟨hlimit, hleft⟩ := Peer.dropOldPackets_connected h now
  have hticker := p.dropOldPackets_ticker now
  have hdelivery := p.dropOldPackets_delivery now
  have hmessages := p.messages_dropOldPackets now
  have hy : y = write config { entry := some (p.dropOldPackets now).val.1, history := x.history }
      now writeBuffer := by
    show PeerNode.tick _ _ _ _ _ _ _ = _
    rw [PeerNode.tick, PeerNode.dropOldPackets, hp, Option.map_some]
  generalize (p.dropOldPackets now).val.1 = q at hy hlimit hleft hticker hdelivery hmessages
  have hwrite : y = { entry := some (q.write config writeBuffer now).val.1
                      history := { x.history with
                        packets := x.history.packets
                          ++ (q.write config writeBuffer now).val.2.2.toList.map (·.payload) } } :=
    hy
  rw [hwrite]
  rcases Peer.write_cases config q writeBuffer now with hval | ⟨-, hval⟩
  · -- a ticker that fires lets a packet pass
    have hpacket := congrArg (fun result => result.2.2) hval
    rw [Peer.write_encodePacket, if_pos (Or.inl (hticker ▸ hfires))] at hpacket
    cases hpacket
  · obtain ⟨b, mem, hconnection, -⟩ := Peer.writeToPeer_connection { q with
      sendPacketTicker := (q.sendPacketTicker.tick now).val.1 } writeBuffer now
      (q.maxPacketSize config)
    obtain ⟨-, ⟨id, b', mem', hstream⟩, -⟩ := Peer.writeToPeer_streams { q with
      sendPacketTicker := (q.sendPacketTicker.tick now).val.1 } writeBuffer now
      (q.maxPacketSize config)
    have hwritten := (Peer.writeToPeer_frame { q with
      sendPacketTicker := (q.sendPacketTicker.tick now).val.1 } writeBuffer now
      (q.maxPacketSize config)).1
    rw [hval]
    refine ⟨_, _, rfl, ?_, ?_, ?_, ?_, ?_, rfl⟩
    · rw [hconnection, ConnectionManager.peerLimit, ConnectionManager.write_peerLimit]
      exact hlimit
    · rw [hconnection, ConnectionManager.write_state]
      split
      · exact Nat.sub_le_sub_right hleft 1
      · next hzero =>
        have hnone : q.connectionManager.numLetsConnectToSend = 0 := Nat.le_zero.mp
          (Nat.not_lt.mp hzero)
        exact hnone ▸ Nat.zero_le _
    · rw [hstream, ReliableStream.messages_write]
      exact hmessages
    · rw [hwritten, PacketDeliveryManager.nextHeader_frame]
      exact List.append_ne_nil_of_right_ne_nil _ (List.cons_ne_nil _ _)
    · rw [hwritten]
      have hpending : q.packetDeliveryManager.pendingAcks
          = p.packetDeliveryManager.pendingAcks := by
        rw [hdelivery]
        rfl
      rw [← hpending]
      exact PacketDeliveryManager.length_pendingAcks_nextHeader_le _ now

theorem Answering.tick {id : PacketId} {start bound : ℕ} {history : PeerHistory}
    (h : Answering config limit id start bound history x p)
    (hs : Sending config contents x.history p) (hconfig : config.limit.Robust)
    (hcount : contents.length < 2 ^ 32) (hne : p.packetDeliveryManager.pendingAcks ≠ [])
    (hfires : (p.sendPacketTicker.tick now).val.2 = true) (readBuffer writeBuffer : Memory) :
    ∃ p', Answering config limit id start bound history
        (x.tick config packetTimeout now none readBuffer writeBuffer) p' ∧
      p'.packetDeliveryManager.pendingAcks.length < p.packetDeliveryManager.pendingAcks.length := by
  have hdelivery := Peer.dropOldPackets_delivery p now
  have hpending : (p.dropOldPackets now).val.1.packetDeliveryManager.pendingAcks
      = p.packetDeliveryManager.pendingAcks := by
    rw [hdelivery]
    rfl
  obtain ⟨p', hp', hlt⟩ := (h.dropOldPackets now).write (hs.dropOldPackets now) hconfig hcount
    (hpending ▸ hne) now writeBuffer
  rw [hpending, Peer.dropOldPackets_ticker] at hlt
  exact ⟨p', hp', hlt hfires⟩

/-- **A packet is received.**  Its messages are taken, and it is going to be acknowledged. -/
theorem tick_receives (hp : x.entry = some p) (h : p.Settled limit)
    (hs : Sending config contents x.history p) (hconfig : config.limit.Robust)
    (hcontents : contents.length < 2 ^ 32) {sender : BandwidthLimit} (hsender : sender.Robust)
    {sent : List (List UInt8)} {contents' : List PacketContent}
    (hr : Receiving sent contents' x.history p) {content : PacketContent}
    (hformed : content.Formed sender sent) (hhandshake : content.handshake = []) {count : ℕ}
    (hacks : p.packetDeliveryManager.AcksBelow count) (hcount : count < 2 ^ 32)
    (hid : content.header.id.toNat < count)
    (hnew : p.packetDeliveryManager.nextExpectedPacketId ≤ content.header.id)
    (readBuffer writeBuffer : Memory) :
    ∃ p', Answering config limit content.header.id x.history.packets.length
        (x.history.packets.length + p.packetDeliveryManager.pendingAcks.length + 1)
        { x.history with reliableReceived := x.history.reliableReceived
            ++ (receive (UInt32.ofNat x.history.reliableReceived.length) content.messages).2 }
        (x.tick config packetTimeout now (some content.bytes) readBuffer writeBuffer) p' := by
  have hdelivery := Peer.dropOldPackets_delivery p now
  have hexpected := (hr.dropOldPackets now).expected
  have hsettled := h.dropOldPackets now
  have hsending := hs.dropOldPackets now
  set q := (p.dropOldPackets now).val.1 with hq
  have hacks' : q.packetDeliveryManager.AcksBelow count := by
    rw [hdelivery]
    exact hacks.congr rfl rfl
  have hnew' : ¬ content.header.id < q.packetDeliveryManager.nextExpectedPacketId := by
    rw [hdelivery]
    exact UInt32.not_lt.mpr hnew
  have hpending : q.packetDeliveryManager.pendingAcks = p.packetDeliveryManager.pendingAcks := by
    rw [hdelivery]
    rfl
  obtain ⟨hsettled', hread, -, hreliable⟩ := hsettled.read hformed hhandshake hnew' config
    readBuffer
  have hsending' := hsending.read hsender hformed readBuffer
  set result := (q.read config ⟨0, content.bytes.length⟩
    (readBuffer.storeList 0 content.bytes)).val with hresult
  set y : PeerNode :=
    { entry := some result.1
      history := { x.history with
        reliableReceived := x.history.reliableReceived ++ result.2.reliable
        unreliableReceived := x.history.unreliableReceived ++ result.2.unreliable } } with hy
  have htick : x.tick config packetTimeout now (some content.bytes) readBuffer writeBuffer
      = y.write config now writeBuffer := by
    rw [PeerNode.tick, PeerNode.dropOldPackets, hp, Option.map_some, PeerNode.read,
      Option.getD_some, List.take_of_length_le hformed.short]
  -- the packet is the last one to be acknowledged
  have hafter : result.1.packetDeliveryManager.pendingAcks
      = p.packetDeliveryManager.pendingAcks ++ [content.header.id] := by
    rw [hread, ← hpending]
    rcases PacketDeliveryManager.processRead_cases q.packetDeliveryManager content.header with
      ⟨-, hlt, -⟩ | ⟨-, -, happend, -⟩
    · exact absurd hlt hnew'
    · exact happend
  have hanswering : Answering config limit content.header.id x.history.packets.length
      (x.history.packets.length + p.packetDeliveryManager.pendingAcks.length + 1)
      { x.history with reliableReceived := x.history.reliableReceived
          ++ (receive (UInt32.ofNat x.history.reliableReceived.length) content.messages).2 }
      y result.1 := by
    refine ⟨rfl, hsettled', ?_, rfl, Nat.le_refl _, ?_, ?_, Or.inl ?_⟩
    · show _ ++ result.2.reliable = _
      rw [hreliable, hexpected]
    · rw [hread]
      exact (hacks'.processRead hcount hid).sorted
    · rw [hafter, List.length_append, List.length_singleton, ← Nat.add_assoc]
    · rw [hafter]
      exact List.mem_append_right _ List.mem_cons_self
  obtain ⟨p', hp', -⟩ := hanswering.write (hsending'.congr_history _ _) hconfig hcontents
    (by rw [hafter]; exact List.append_ne_nil_of_right_ne_nil _ (List.cons_ne_nil _ _)) now
    writeBuffer
  rw [htick]
  exact ⟨p', hp'⟩

end PeerNode

end Neptun
