/-
What an acknowledgement says about the content of a packet.

`read` acknowledges a packet in its first stage, and hands the reliable segment
to the stream only in the third one.  In between it stops if the endpoint is not
connected to the sender yet, and it goes on behind nine bytes even if the
handshake of the packet has only three, as a rejection has.

* `Peer.read_handed_iff` — the exact condition for the reliable segment of an
  accepted packet to be handed to the stream;
* `processed_iff` — the same for whole runs of two endpoints, together with what
  follows for the sender: an ACK means that the segment was handed on.
-/
import Neptun.AckLog
import Neptun.PacketSize

namespace Neptun

namespace Peer

/-- The span that the later stages hand to the reliable stream. -/
theorem readConnection_span (config : ConnectionManagerConfig) (p : Peer) (b : Span)
    (mem : Memory) {report : ReadReport} (hreport : report.reliableSpan = none) :
    (readConnection config p b mem report).val.2.reliableSpan =
      match (p.connectionManager.read b mem).val.2 with
      | .error _ => none
      | .ok count => (p.connectionManager.read b mem).val.1.peerLimit.map
          fun _ => ⟨b.off + count, usizeSub b.size count⟩ := by
  rw [readConnection]
  simp only [Checked.val_bind]
  cases (p.connectionManager.read b mem).val.2 with
  | error e => exact hreport
  | ok count =>
    simp only [Checked.val_bind]
    cases hlimit : (p.connectionManager.read b mem).val.1.peerLimit with
    | none => exact hreport
    | some limit =>
      obtain ⟨reliable, unreliable, hspan⟩ := readStreams_report config
        { p with connectionManager := (p.connectionManager.read b mem).val.1 } limit
        (advance b count).val mem report
      rw [hspan]
      rfl

end Peer

/-- The limits of a `LetsConnect` that is followed by a reliable segment pass the
check iff `max_read_packet_size` has a high byte. -/
theorem validLimit_reliable {limit : BandwidthLimit} (h : ConnectionManager.ValidLimit limit) :
    ConnectionManager.ValidLimit (ConnectionManager.withLowByte limit
      ManagerType.reliableStream.toU8) ↔ 256 ≤ limit.maxReadPacketSize := by
  rw [ConnectionManager.validLimit_withLowByte h, UInt16.le_iff_toNat_le]
  show 100 ≤ limit.maxReadPacketSize.toNat / 256 * 256 + 3 ↔ 256 ≤ limit.maxReadPacketSize.toNat
  omega

namespace ConnectionManager

/-- What `read` makes of the bytes behind the header of a packet that carries a
reliable segment. -/
theorem read_packet {packet : Packet} {limit : BandwidthLimit} {header : PacketHeader}
    (hformed : packet.WellFormed limit header) (hreliable : 0 < packet.reliableStreamCount)
    (mem : Memory) (c : ConnectionManager) :
    let result := (c.read ⟨12, packet.payload.length - 12⟩ (mem.storeList 0 packet.payload)).val
    (packet.connectionManagerCount = 0 ∧ result = (c, .ok 0)) ∨
    (packet.connectionManagerCount = 3 ∧ result.2 = .ok 9) ∨
    (packet.connectionManagerCount = 9 ∧ result
      = (c.received (withLowByte limit ManagerType.reliableStream.toU8), .ok 9)) := by
  intro result
  obtain ⟨hcount, hbyte⟩ := hformed.reliable hreliable
  have hlength := hformed.length
  have hhandshake := hformed.handshake
  -- the handshake in the network buffer
  rw [← slice_storeList_eq mem packet.payload (by omega)] at hhandshake
  have hlen := Memory.length_slice (mem.storeList 0 packet.payload) 12
    packet.connectionManagerCount
  have hsegment : mem.storeList 0 packet.payload (12 + packet.connectionManagerCount)
      = ManagerType.reliableStream.toU8 := (storeList_eq_iff mem _ (by omega) _).mpr hbyte
  have hb : 2 ≤ packet.payload.length - 12 := by omega
  simp only [result]
  generalize mem.storeList 0 packet.payload = M at hhandshake hlen hsegment ⊢
  rcases hhandshake with hnone | hreject | ⟨gap, hletsConnect⟩
  · rw [hnone] at hlen
    rw [← hlen] at hsegment
    refine Or.inl ⟨hlen.symm, ?_⟩
    rw [val_read, if_pos (Or.inr _)]
    rw [show M 12 = ManagerType.reliableStream.toU8 from hsegment]
    decide
  · rw [hreject] at hlen
    rw [← hlen] at hreject
    exact Or.inr (Or.inl ⟨hlen.symm, congrArg Prod.snd (read_letsConnect c hb hreject)⟩)
  · have hnine : packet.connectionManagerCount = 9 := by
      rw [hletsConnect] at hlen
      simpa [letsConnectBytes] using hlen.symm
    rw [hnine] at hletsConnect hsegment
    have hlimit := limitAt_handshake hletsConnect
    rw [hsegment] at hlimit
    have hthree : M.slice 12 3 = [0, 1, 0] :=
      (HandshakeBytes.slice_three (Or.inr (Or.inr ⟨gap, hletsConnect⟩)) (by decide)).2
    refine Or.inr (Or.inr ⟨hnine, ?_⟩)
    rw [read_letsConnect c hb hthree, hlimit]

end ConnectionManager

/-- **The reliable segment of an accepted packet** is handed to the stream exactly
if the packet has no rejection in front of it and the endpoint is connected to
the sender, or gets connected by the `LetsConnect` in front of it. -/
theorem Peer.read_handed_iff {packet : Packet} {limit : BandwidthLimit} {header : PacketHeader}
    (hformed : packet.WellFormed limit header) (hlimit : ConnectionManager.ValidLimit limit)
    (hreliable : 0 < packet.reliableStreamCount) (config : ConnectionManagerConfig) (p : Peer)
    (mem : Memory)
    (haccepted : (read config p ⟨0, packet.payload.length⟩
      (mem.storeList 0 packet.payload)).val.2.accepted = true) :
    (read config p ⟨0, packet.payload.length⟩
        (mem.storeList 0 packet.payload)).val.2.reliableSpan
      = some ⟨12 + packet.connectionManagerCount,
          packet.reliableStreamCount + packet.unreliableStreamCount⟩ ↔
    packet.connectionManagerCount ≠ 3 ∧ (p.connectionManager.isPeerConnected = true ∨
      packet.connectionManagerCount = 9 ∧ 256 ≤ limit.maxReadPacketSize) := by
  have hlength := hformed.length
  have hsize : usizeSub packet.payload.length 12 = packet.payload.length - 12 :=
    usizeSub_of_le (by omega)
  rcases read_cases config p ⟨0, packet.payload.length⟩ (mem.storeList 0 packet.payload) with
    ⟨-, hval⟩ | ⟨-, hval⟩
  · rw [hval] at haccepted
    cases haccepted
  rw [hval, readConnection_span _ _ _ _ rfl, hsize]
  -- the statuses of the packet do not connect the peer
  generalize hp' : (Peer.processDeliveryStatuses _ _).val = p'
  have hpeer : p'.connectionManager.peerLimit = p.connectionManager.peerLimit := by
    rw [← hp']
    exact processDeliveryStatuses_connection _ ConnectionManager.status_peerLimit _ _
  have hconnected : p.connectionManager.isPeerConnected
      = p'.connectionManager.peerLimit.isSome := by
    rw [hpeer]
    rfl
  rw [hconnected]
  rcases ConnectionManager.read_packet hformed hreliable mem p'.connectionManager with
    ⟨hcount, hresult⟩ | ⟨hcount, hresult⟩ | ⟨hcount, hresult⟩
  · -- no handshake: nothing changes
    rw [hresult, hcount]
    cases p'.connectionManager.peerLimit with
    | none => simp
    | some peer =>
      have hrest : packet.payload.length - 12
          = packet.reliableStreamCount + packet.unreliableStreamCount := by omega
      simp [usizeSub, hrest]
  · -- a rejection: whatever is read, it is not read from the segment on
    rw [hresult, hcount]
    refine iff_of_false ?_ (fun h => h.1 rfl)
    intro hspan
    obtain ⟨-, -, heq⟩ := Option.map_eq_some_iff.mp hspan
    simp at heq
  · -- a `LetsConnect`: the first byte of the segment is part of the limits
    rw [hresult, hcount]
    have hrest : usizeSub (packet.payload.length - 12) 9
        = packet.reliableStreamCount + packet.unreliableStreamCount := by
      rw [usizeSub_of_le (by omega)]
      omega
    simp only [ConnectionManager.peerLimit_received, validLimit_reliable hlimit, hrest]
    by_cases hvalid : 256 ≤ limit.maxReadPacketSize
    · simp [hvalid]
    · rw [if_neg hvalid]
      cases p'.connectionManager.peerLimit with
      | none => simp [hvalid]
      | some peer => simp

/-! ### Runs -/

/-- The entry on which a tick reads is connected iff it was before. -/
theorem Endpoint.readEntry_isPeerConnected (n : Endpoint) (now : ℤ) (sender : IpAddress) :
    (n.readEntry now sender).connectionManager.isPeerConnected = n.isConnected sender := by
  rw [readEntry, isConnected]
  cases n.peers.find sender with
  | none => rfl
  | some p =>
    show Option.isSome _ = Option.isSome _
    rw [Peer.dropOldPackets_connection _ ConnectionManager.status_peerLimit]

/-- If the packet was accepted, and so put on the list of acknowledgements, the
reliable stream was given the packet from its reliable segment on. -/
def LogEntry.HandedOn (entry : LogEntry) : Prop :=
  ∀ dg ∈ entry.incoming, ∀ read ∈ entry.report.read, read.2.accepted = true →
    0 < dg.packet.reliableStreamCount → read.2.reliableSpan
      = some ⟨12 + dg.packet.connectionManagerCount,
          dg.packet.reliableStreamCount + dg.packet.unreliableStreamCount⟩

namespace World

variable {setup : Setup} {w : World}

/-- The reliable segments of all accepted packets have been handed on.  Whenever
an endpoint learns that a packet was acknowledged, the receiver has accepted a
packet of this id and handed it on. -/
structure Processed (setup : Setup) (w : World) : Prop where
  handedOn : ∀ entry ∈ w.log, entry.HandedOn
  acked : ∀ entry ∈ w.log, ∀ read ∈ entry.report.read, ∀ id, (id, .ack) ∈ read.2.statuses →
    ∃ accepting ∈ w.log, setup.address accepting.side = read.1 ∧ accepting.HandedOn ∧
      ∃ dg report, accepting.incoming = some dg ∧ dg.sender = setup.address entry.side ∧
        accepting.report.read = some (dg.sender, report) ∧ report.accepted = true ∧
        report.packetId = id

/-- The packet is ignored, has no reliable segment, or is read by an endpoint
that is connected to the sender or gets connected by it; and it is not a
rejection. -/
def HandsOn (setup : Setup) (w : World) (call : Side × Action) : Prop :=
  match call.2 with
  | .tick _ (some dg) =>
    ¬ datagramId dg.packet.payload < (w.endpoint call.1).expectedFrom dg.sender →
      0 < dg.packet.reliableStreamCount →
      dg.packet.connectionManagerCount ≠ 3 ∧
        ((w.endpoint call.1).isConnected dg.sender = true ∨
          dg.packet.connectionManagerCount = 9 ∧
            ∀ s, setup.address s = dg.sender → 256 ≤ (setup.config s).limit.maxReadPacketSize)
  | _ => True

/-- The acknowledgements of a run follow from what was handed on. -/
theorem processed_iff_handedOn (h : w.AckLinked setup) :
    w.Processed setup ↔ ∀ entry ∈ w.log, entry.HandedOn := by
  refine ⟨fun hprocessed => hprocessed.handedOn, fun hhanded => ⟨hhanded, ?_⟩⟩
  intro entry hentry read hread id hid
  obtain ⟨side, hside, dg, hsender, accepting, haccepting, hs, hincoming, report, haccepted⟩ :=
    h.acked entry hentry read hread id hid
  subst hs
  exact ⟨accepting, haccepting, hside, hhanded _ haccepting, dg, report, hincoming, hsender,
    haccepted⟩

/-- The invariant of the runs: acknowledgements are sound, and datagrams are not
cut off on their way into the network buffer. -/
structure Linked (setup : Setup) (w : World) : Prop where
  ackLinked : w.AckLinked setup
  reachable : w.EndpointsReachable setup
  length_le : ∀ dg ∈ w.sent, dg.packet.payload.length ≤ kJustAboveMtu

theorem linked_init (setup : Setup) : (init setup).Linked setup where
  ackLinked := ackLinked_init setup
  reachable := reachable_init setup
  length_le := by
    intro dg hdg
    cases hdg

theorem Linked.next (hlimit : ∀ side, ConnectionManager.ValidLimit (setup.config side).limit)
    (h : w.Linked setup) {call : Side × Action} (hen : Enabled setup w call) :
    (w.next setup call).Linked setup := by
  refine ⟨h.ackLinked.next hen, reachable_next h.reachable call, ?_⟩
  obtain ⟨side, action⟩ := call
  intro dg hdg
  cases action with
  | tick now incoming =>
    rcases List.mem_append.mp hdg with hdg | hdg
    · exact h.length_le dg hdg
    · obtain ⟨⟨ip, packet⟩, hsent, rfl⟩ := List.mem_map.mp hdg
      have hmtu := (Endpoint.sent_length_le (h.reachable side) (hlimit side) hsent).2.1
      exact hmtu.trans (by decide)
  | connect ip now =>
    exact h.length_le dg (by simpa [World.next, extend] using hdg)
  | sendReliableTo ip fn now =>
    exact h.length_le dg (by simpa [World.next, extend] using hdg)
  | sendUnreliableTo ip fn now =>
    exact h.length_le dg (by simpa [World.next, extend] using hdg)

/-- **A tick** hands the packet on iff its condition holds. -/
theorem tick_handedOn_iff (hlimit : ∀ side, ConnectionManager.ValidLimit (setup.config side).limit)
    (h : w.Linked setup) {side : Side} {now : ℤ} {incoming : Option Datagram}
    (hen : Enabled setup w (side, .tick now incoming)) (faults : List Fault) :
    LogEntry.HandedOn ⟨side, incoming, ((w.endpoint side).tick now
        (incoming.map fun dg => (dg.sender, dg.packet.payload))).val.2, faults⟩ ↔
      HandsOn setup w (side, .tick now incoming) := by
  cases incoming with
  | none =>
    refine iff_of_true ?_ trivial
    intro dg hdg
    cases hdg
  | some dg =>
    obtain ⟨s, header, hsender, hformed, -⟩ := h.ackLinked.sent dg (hen dg rfl).1
    have hwhole : dg.packet.payload.take kJustAboveMtu = dg.packet.payload :=
      List.take_of_length_le (h.length_le dg (hen dg rfl).1)
    have hconfigs : (∀ s', setup.address s' = dg.sender →
        256 ≤ (setup.config s').limit.maxReadPacketSize) ↔
          256 ≤ (setup.config s).limit.maxReadPacketSize := by
      refine ⟨fun hall => hall s hsender, fun hle s' hs' => ?_⟩
      rw [setup.address_injective (hs'.trans hsender.symm)]
      exact hle
    -- what the report says about the id
    obtain ⟨-, haccepted, -⟩ := Peer.read_report (w.endpoint side).connectionManagerConfig
      ((w.endpoint side).readEntry now dg.sender)
      ⟨0, (dg.packet.payload.take kJustAboveMtu).length⟩
      ((w.endpoint side).networkBuffer.storeList 0 (dg.packet.payload.take kJustAboveMtu))
    rw [val_read_datagram hformed.header _ rfl, Endpoint.readEntry_expected,
      ← datagramId_of_header hformed.header] at haccepted
    have hread := (w.endpoint side).tick_read_some now dg.sender dg.packet.payload
    rw [hwhole] at hread haccepted
    simp only [LogEntry.HandedOn, HandsOn, Option.map_some, hread, Option.mem_some_iff,
      forall_eq', hconfigs, ← haccepted]
    refine forall_congr' fun hacc => forall_congr' fun hreliable => ?_
    rw [Peer.read_handed_iff hformed (hlimit s) hreliable _ _ _ hacc,
      Endpoint.readEntry_isPeerConnected]

/-- **Every call** keeps what was processed iff its condition holds. -/
theorem next_processed_iff (hlimit : ∀ side, ConnectionManager.ValidLimit (setup.config side).limit)
    (h : w.Linked setup) (hprocessed : w.Processed setup) {call : Side × Action}
    (hen : Enabled setup w call) :
    (w.next setup call).Processed setup ↔ HandsOn setup w call := by
  rw [processed_iff_handedOn (h.ackLinked.next hen)]
  have hlog : ∀ n sent entry, (∀ e ∈ (w.extend call.1 n sent entry).log, e.HandedOn) ↔
      entry.HandedOn := by
    intro n sent entry
    show (∀ e ∈ w.log ++ [entry], e.HandedOn) ↔ _
    rw [List.forall_mem_append, and_iff_right hprocessed.handedOn, List.forall_mem_singleton]
  obtain ⟨side, action⟩ := call
  cases action with
  | tick now incoming => exact (hlog _ _ _).trans (tick_handedOn_iff hlimit h hen _)
  | connect ip now =>
    refine iff_of_true ((hlog _ _ _).mpr ?_) trivial
    intro dg hdg
    cases hdg
  | sendReliableTo ip fn now =>
    refine iff_of_true ((hlog _ _ _).mpr ?_) trivial
    intro dg hdg
    cases hdg
  | sendUnreliableTo ip fn now =>
    refine iff_of_true ((hlog _ _ _).mpr ?_) trivial
    intro dg hdg
    cases hdg

end World

/-- **An acknowledgement means that the content was processed**, all along a run of
two endpoints, iff none of its ticks skips the reliable segment of a packet that
it accepts: the packet is not a rejection, and the endpoint that reads it is
connected to the sender, or is connected by the `LetsConnect` in front of the
segment, whose `max_read_packet_size` then has to have a high byte. -/
theorem processed_iff (setup : Setup)
    (hlimit : ∀ side, ConnectionManager.ValidLimit (setup.config side).limit)
    {calls : List (Side × Action)}
    (h : (network setup).RunOk System.anyAction (World.init setup) calls) :
    (network setup).Along (World.Processed setup) (World.init setup) calls ↔
      (network setup).RunOk (World.HandsOn setup) (World.init setup) calls := by
  refine System.along_iff_runOk (World.Linked setup) (fun w call hw hen => hw.next hlimit hen)
    (fun w call hw hP hen => World.next_processed_iff hlimit hw hP hen)
    (World.linked_init setup) ?_ h
  constructor
  · intro entry hentry
    cases hentry
  · intro entry hentry
    cases hentry

/-- The answer of `b` connects `a`, and the message behind it is handed on. -/
theorem processed_after_handshake :
    let setup := Setup.alike ⟨0, ⟨0, 1400, 0, 1400⟩⟩ 5000
    let toA (payload : List UInt8) (handshake reliable : ℕ) : Option Datagram :=
      some ⟨⟨2, 1⟩, ⟨1, 1⟩, ⟨payload, 12, handshake, reliable, 0⟩⟩
    let toB (payload : List UInt8) (handshake : ℕ) : Option Datagram :=
      some ⟨⟨1, 1⟩, ⟨2, 1⟩, ⟨payload, 12, handshake, 0, 0⟩⟩
    let calls : List (Side × Action) :=
      [(.a, .connect ⟨2, 1⟩ 0), (.a, .tick 0 none),
        (.b, .tick 0 (toB [0, 0, 0, 0, 0, 0, 0, 0, 0, 0, 0, 0, 0, 1, 0, 0, 0, 0, 5, 120, 5] 9)),
        (.b, .sendReliableTo ⟨1, 1⟩ (.ofBytes [7]) 0),
        (.a, .tick 0 (toA [0, 0, 0, 0, 0, 0, 0, 0, 0, 0, 0, 1, 0, 1, 0, 0, 0, 0, 5, 120, 5] 9 0)),
        (.b, .tick 0 none),
        (.a, .tick 0 (toA [0, 0, 0, 1, 0, 0, 0, 0, 0, 0, 0, 0, 3, 1, 0, 0, 0, 0, 0, 1, 7] 0 9))]
    (network setup).RunOk System.anyAction (World.init setup) calls ∧
      (network setup).Along (World.Processed setup) (World.init setup) calls := by
  intro setup toA toB calls
  have hrun : (network setup).RunOk System.anyAction (World.init setup) calls := by decide +kernel
  have hlimit : ConnectionManager.ValidLimit ⟨0, 1400, 0, 1400⟩ := by decide
  refine ⟨hrun, (processed_iff setup (fun _ => hlimit) hrun).mpr ?_⟩
  obtain ⟨h1, -, h2, -, h3, -, h4, -, h5, -, h6, -, h7, -⟩ := hrun
  have hempty : ¬ 0 < 0 := Nat.lt_irrefl 0
  refine ⟨h1, trivial, h2, trivial, h3, fun _ h => absurd h hempty, h4, trivial, h5,
    fun _ h => absurd h hempty, h6, trivial, h7, fun _ _ => ⟨by decide, Or.inl ?_⟩, trivial⟩
  decide +kernel

/-- The request of `a` is answered by a `LetsConnect` with a small
`max_read_packet_size`, whose low byte is not in the datagram; `a` finds the low
byte of its own one there and does not get connected.  The message that `b` then
sends is accepted and skipped by `a`, and acknowledged: `b` forgets it. -/
theorem acknowledged_not_processed :
    let setup : Setup := { Setup.alike ⟨0, ⟨0, 1300, 0, 1400⟩⟩ 5000 with
      config := fun
        | .a => ⟨0, ⟨0, 1300, 0, 1400⟩⟩
        | .b => ⟨0, ⟨0, 200, 0, 1400⟩⟩ }
    let toA (payload : List UInt8) (handshake reliable : ℕ) : Option Datagram :=
      some ⟨⟨2, 1⟩, ⟨1, 1⟩, ⟨payload, 12, handshake, reliable, 0⟩⟩
    let toB (payload : List UInt8) (handshake : ℕ) : Option Datagram :=
      some ⟨⟨1, 1⟩, ⟨2, 1⟩, ⟨payload, 12, handshake, 0, 0⟩⟩
    let calls : List (Side × Action) :=
      [(.a, .connect ⟨2, 1⟩ 0), (.a, .tick 0 none),
        (.b, .tick 0 (toB [0, 0, 0, 0, 0, 0, 0, 0, 0, 0, 0, 0, 0, 1, 0, 0, 0, 0, 5, 120, 5] 9)),
        (.a, .tick 0 (toA [0, 0, 0, 0, 0, 0, 0, 0, 0, 0, 0, 1, 0, 1, 0, 0, 0, 0, 5, 120, 0] 9 0)),
        (.b, .sendReliableTo ⟨1, 1⟩ (.ofBytes [7]) 0),
        (.b, .tick 0 (toB [0, 0, 0, 1, 0, 0, 0, 0, 0, 0, 0, 1] 0)),
        (.a, .tick 0 (toA [0, 0, 0, 1, 0, 0, 0, 1, 0, 0, 0, 1, 3, 1, 0, 0, 0, 0, 0, 1, 7] 0 9)),
        (.b, .tick 0 (toB [0, 0, 0, 2, 0, 0, 0, 1, 0, 0, 0, 1] 0))]
    let w := (network setup).runFrom (World.init setup) calls
    (∀ side, ConnectionManager.ValidLimit (setup.config side).limit) ∧
      (network setup).RunOk System.anyAction (World.init setup) calls ∧
      (w.endpoint .b).peers.map (fun e => (e.2.reliableStream.pendingMessages.length,
        e.2.reliableStream.inFlightMessages.length)) = [(0, 0)] ∧
      w.log.flatMap (fun entry => entry.report.read.toList.flatMap (·.2.reliable)) = [] ∧
      ¬ (network setup).Along (World.Processed setup) (World.init setup) calls := by
  intro setup toA toB calls w
  refine ⟨?_, by decide +kernel, by decide +kernel, by decide +kernel, ?_⟩
  · intro side
    cases side <;> decide
  · rintro ⟨-, -, -, -, -, -, -, -, hlast⟩
    -- the last tick of `a` has accepted the packet and handed nothing on
    have hskipped : ∃ entry ∈ w.log, ∃ dg ∈ entry.incoming, ∃ read ∈ entry.report.read,
        read.2.accepted = true ∧ 0 < dg.packet.reliableStreamCount ∧
          read.2.reliableSpan = none := by
      decide +kernel
    obtain ⟨entry, hentry, dg, hdg, read, hread, haccepted, hreliable, hspan⟩ := hskipped
    have hhanded := hlast.handedOn entry hentry dg hdg read hread haccepted hreliable
    rw [hspan] at hhanded
    cases hhanded

end Neptun
