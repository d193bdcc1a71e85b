/-
The network buffer, which all peers share.

Reading stores a datagram at the beginning of the buffer, writing builds every
packet there, and nothing ever clears it.  What a tick does may depend on the
old contents in two ways: `LetsConnect` leaves a byte between its fields out, so
that a packet carries whatever the buffer holds there; and a datagram that is
cut off is read past its end (`DatagramEnd.lean`).

* `Peer.write_sealed_iff` — a packet consists of own bytes only, unless it
  carries a `LetsConnect`;
* `Endpoint.tick_isolated_iff` — reading and writing together, for a whole tick.
-/
import Neptun.DatagramEnd
import Neptun.EndpointRuns
import Neptun.UnreliableSegment

namespace Neptun

/-! ### Writing -/

namespace Peer

/-- The packet that the stages build, given the byte in the gap. -/
def encodePacket (p : Peer) (now : ℤ) (size : UInt16) (gap : UInt8) : Packet :=
  let bufferSize := (min kJustBelowMtu size).toNat
  let header := (p.packetDeliveryManager.nextHeader now).val.2
  let handshake := p.connectionManager.encodeHandshake gap
  let room := usizeSub (usizeSub bufferSize 12) handshake.length
  let reliable := encodeSegment ((p.reliableStream.pendingMessages.take
    (p.reliableStream.fitCount room)).map (ReliableStream.toWire p.reliableStream.buffer))
  let unreliable := encodeUnreliable (p.unreliableStream.payloads.take
    (p.unreliableStream.fitCount (usizeSub room reliable.length)))
  ⟨header.encode ++ handshake ++ reliable ++ unreliable, 12, handshake.length, reliable.length,
    unreliable.length⟩

/-- A packet depends on the buffer in the gap only. -/
theorem writeToPeer_encodePacket (p : Peer) (mem : Memory) (now : ℤ) (size : UInt16) :
    (p.writeToPeer mem now size).val.2.2 = p.encodePacket now size (mem 17) := by
  rw [writeToPeer_packet, encodePacket]
  dsimp only
  generalize (p.packetDeliveryManager.nextHeader now).val.2 = header
  generalize usizeSub (min kJustBelowMtu size).toNat 12 = room
  obtain ⟨hcount, hbytes⟩ := p.connectionManager.write_encodeHandshake header.id ⟨12, room⟩
    (mem.storeList 0 header.encode)
  have hgap : mem.storeList 0 header.encode (12 + 5) = mem 17 :=
    Memory.storeList_apply_of_ge (by simp)
  -- the handshake leaves the header alone
  have hheader : (p.connectionManager.write header.id ⟨12, room⟩
      (mem.storeList 0 header.encode)).val.2.1.slice 0 12 = header.encode := by
    have hslice := Memory.slice_storeList_self mem 0 header.encode
    rw [PacketHeader.length_encode] at hslice
    rw [← hslice]
    refine Memory.slice_congr fun i hi => ?_
    exact p.connectionManager.write_apply_of_lt header.id _ _ (by dsimp only; omega)
  dsimp only at hcount hbytes
  rw [hgap] at hcount hbytes
  simp only [UnreliableStream.val_write, ReliableStream.val_write, hcount]
  rw [Memory.slice_storeList_behind, Memory.slice_storeList_behind, Memory.slice_add, hheader,
    Nat.zero_add, hbytes]

/-- The state after a packet does not depend on the buffer. -/
theorem writeToPeer_state_congr (p : Peer) (mem mem' : Memory) (now : ℤ) (size : UInt16) :
    (p.writeToPeer mem now size).val.1 = (p.writeToPeer mem' now size).val.1 := by
  -- the room that is left for the streams does not depend on the byte in the gap
  have hcount : ∀ (id : PacketId) (b : Span) (mem : Memory),
      (p.connectionManager.write id b mem).val.2.2
        = (p.connectionManager.encodeHandshake 0).length := by
    intro id b mem
    rw [(p.connectionManager.write_encodeHandshake id b mem).1]
    exact p.connectionManager.length_encodeHandshake _ _
  simp only [writeToPeer, Checked.val_bind, Checked.val_pure, PacketDeliveryManager.val_write,
    PacketHeader.readId_storeList, val_advance, hcount, ConnectionManager.write_state,
    ReliableStream.write_state, ReliableStream.val_write, UnreliableStream.val_write]

/-- A packet with a `LetsConnect` is written. -/
def WritesLetsConnect (p : Peer) (now : ℤ) : Prop :=
  0 < p.connectionManager.numLetsConnectToSend ∧ p.connectionManager.isFail = false ∧
    ((p.sendPacketTicker.tick now).val.2 = true ∨ p.connectionManager.isFullyConnected = false)

instance (p : Peer) (now : ℤ) : Decidable (p.WritesLetsConnect now) :=
  inferInstanceAs (Decidable (_ ∧ _))

theorem write_state_congr (config : ConnectionManagerConfig) (p : Peer) (mem mem' : Memory)
    (now : ℤ) : (p.write config mem now).val.1 = (p.write config mem' now).val.1 := by
  simp only [write, Checked.val_bind, Checked.val_ite]
  split
  · simp only [Checked.val_pure]
    exact writeToPeer_state_congr _ mem mem' now _
  · rfl

/-- The byte in the gap is sent. -/
theorem encodePacket_gap {p : Peer} (hnum : 0 < p.connectionManager.numLetsConnectToSend)
    (hfail : p.connectionManager.isFail = false) (now : ℤ) (size : UInt16) (gap : UInt8) :
    (p.encodePacket now size gap).payload[17]? = some gap := by
  have hhandshake : p.connectionManager.encodeHandshake gap
      = letsConnectBytes p.connectionManager.config.limit gap := by
    rw [ConnectionManager.encodeHandshake, if_pos hnum, hfail]
    rfl
  rw [encodePacket]
  dsimp only
  rw [hhandshake, List.append_assoc, List.append_assoc, List.getElem?_append_right (by simp),
    List.getElem?_append_left (by simp [letsConnectBytes])]
  rfl

theorem write_encodePacket (config : ConnectionManagerConfig) (p : Peer) (mem : Memory) (now : ℤ) :
    (p.write config mem now).val.2.2 =
      if (p.sendPacketTicker.tick now).val.2 = true ∨ p.connectionManager.isFullyConnected = false
      then some (encodePacket { p with sendPacketTicker := (p.sendPacketTicker.tick now).val.1 }
        now (p.maxPacketSize config) (mem 17))
      else none := by
  simp only [write, Checked.val_bind, Checked.val_ite]
  by_cases hsend : (p.sendPacketTicker.tick now).val.2 = true ∨
      p.connectionManager.isFullyConnected = false
  · rw [if_pos (by simpa using hsend), if_pos hsend]
    exact congrArg some (writeToPeer_encodePacket _ mem now _)
  · rw [if_neg (by simpa using hsend), if_neg hsend]
    rfl

/-- **A packet consists of own bytes only** iff it does not carry a `LetsConnect`. -/
theorem write_sealed_iff (config : ConnectionManagerConfig) (p : Peer) (now : ℤ) :
    (∀ mem mem', (p.write config mem now).val.2.2 = (p.write config mem' now).val.2.2) ↔
      ¬ p.WritesLetsConnect now := by
  simp only [write_encodePacket]
  constructor
  · -- two buffers with different bytes in the gap
    rintro hsealed ⟨hnum, hfail, hsend⟩
    have hpackets := hsealed (fun _ => 0) (fun _ => 1)
    rw [if_pos hsend, if_pos hsend, Option.some_inj] at hpackets
    have hbyte := encodePacket_gap (p := { p with
      sendPacketTicker := (p.sendPacketTicker.tick now).val.1 }) hnum hfail now
      (p.maxPacketSize config)
    have hgap : some (0 : UInt8) = some 1 := by
      rw [← hbyte 0, hpackets, hbyte 1]
    cases hgap
  · intro hnot mem mem'
    split
    · next hsend =>
      have hhandshake : p.connectionManager.encodeHandshake (mem 17)
          = p.connectionManager.encodeHandshake (mem' 17) := by
        rw [ConnectionManager.encodeHandshake, ConnectionManager.encodeHandshake]
        by_cases hnum : 0 < p.connectionManager.numLetsConnectToSend
        · cases hfail : p.connectionManager.isFail with
          | true => rfl
          | false => exact absurd ⟨hnum, hfail, hsend⟩ hnot
        · rw [if_neg hnum, if_neg hnum]
      rw [encodePacket, encodePacket, hhandshake]
    · rfl

end Peer

/-! ### A whole tick -/

namespace Endpoint

open PeerMap

variable {n : Endpoint} {now : ℤ}

/-- The endpoint with other bytes in its network buffer. -/
def withBuffer (n : Endpoint) (mem : Memory) : Endpoint := { n with networkBuffer := mem }

/-- The network buffer carries nothing into a tick. -/
structure Isolated (n : Endpoint) (now : ℤ) (incoming : Option (IpAddress × List UInt8)) :
    Prop where
  /-- The entries after the tick. -/
  peers : ∀ mem mem', ((n.withBuffer mem).tick now incoming).val.1.peers
    = ((n.withBuffer mem').tick now incoming).val.1.peers
  /-- The datagrams that are sent. -/
  sent : ∀ mem mem', ((n.withBuffer mem).tick now incoming).val.2.sent
    = ((n.withBuffer mem').tick now incoming).val.2.sent
  /-- Nothing beyond the end of the received datagram influences an entry. -/
  read : ∀ mem mem', ((n.withBuffer mem).beforeWrite now incoming).peers
    = ((n.withBuffer mem').beforeWrite now incoming).peers
  /-- Every byte of a packet is written by its own stages. -/
  packets : ∀ mem, ∀ e ∈ ((n.withBuffer mem).beforeWrite now incoming).peers, ∀ old old',
    (e.2.write n.connectionManagerConfig old now).val.2.2
      = (e.2.write n.connectionManagerConfig old' now).val.2.2

/-- The second loop, if every packet consists of its own bytes. -/
theorem write_congr {config : ConnectionManagerConfig} {peers : PeerMap}
    (h : ∀ e ∈ peers, ∀ old old', (e.2.write config old now).val.2.2
      = (e.2.write config old' now).val.2.2) (mem mem' : Memory) :
    (write config now peers mem).val.1 = (write config now peers mem').val.1 ∧
      (write config now peers mem).val.2.2 = (write config now peers mem').val.2.2 := by
  induction peers generalizing mem mem' with
  | nil => exact ⟨rfl, rfl⟩
  | cons e peers ih =>
    obtain ⟨ip, p⟩ := e
    obtain ⟨hp, hpeers⟩ := List.forall_mem_cons.mp h
    -- the rest starts from two buffers that this packet has left different
    obtain ⟨hstate, hsent⟩ := ih hpeers (p.write config mem now).val.2.1
      (p.write config mem' now).val.2.1
    simp only [write, Checked.val_bind, Checked.val_pure, hstate, hsent, hp mem mem',
      p.write_state_congr config mem mem' now, and_self]

/-- Reading a datagram changes the entry of its sender in the same way, whatever is in the
buffer, iff the datagram is sealed. -/
theorem beforeWrite_sealed_iff (n : Endpoint) (now : ℤ) (sender : IpAddress)
    (payload : List UInt8) :
    (∀ mem mem', ((n.withBuffer mem).beforeWrite now (some (sender, payload))).peers
      = ((n.withBuffer mem').beforeWrite now (some (sender, payload))).peers)
      ↔ (n.readEntry now sender).Seals (payload.take kJustAboveMtu) := by
  rw [← Peer.read_sealed_iff n.connectionManagerConfig]
  constructor
  · intro h mem mem'
    have hfind := congrArg (fun peers => PeerMap.find peers sender) (h mem mem')
    simp only [find_beforeWrite_sender, Option.some_inj] at hfind
    exact hfind
  · intro h mem mem'
    have hpeers : ∀ mem : Memory,
        ((n.withBuffer mem).beforeWrite now (some (sender, payload))).peers
          = (findOrCreatePeer { n with peers := (dropOldPackets now n.peers).val.1 } 0 sender
              now).1.peers.update sender ((n.readEntry now sender).read n.connectionManagerConfig
                ⟨0, (payload.take kJustAboveMtu).length⟩
                (mem.storeList 0 (payload.take kJustAboveMtu))).val.1 := by
      intro mem
      rw [beforeWrite, (read_some _ now sender payload).1, ← findOrCreatePeer_dropOldPackets]
      simp only [findOrCreatePeer, withBuffer]
      cases PeerMap.find (dropOldPackets now n.peers).val.1 sender <;> rfl
    rw [hpeers, hpeers, h mem mem']

/-- **The shared buffer carries nothing from one peer to another**, exactly as far as the
code has it: the datagram that is read is sealed, and no packet with a `LetsConnect` is
written. -/
theorem tick_isolated_iff (n : Endpoint) (now : ℤ) (incoming : Option (IpAddress × List UInt8)) :
    n.Isolated now incoming ↔
      (∀ sender payload, incoming = some (sender, payload) →
        (n.readEntry now sender).Seals (payload.take kJustAboveMtu)) ∧
      ∀ e ∈ (n.beforeWrite now incoming).peers, ¬ e.2.WritesLetsConnect now := by
  constructor
  · intro h
    constructor
    · rintro sender payload rfl
      exact (n.beforeWrite_sealed_iff now sender payload).mp h.read
    · intro e he
      exact (e.2.write_sealed_iff n.connectionManagerConfig now).mp (h.packets n.networkBuffer e he)
  · rintro ⟨hincoming, hwrites⟩
    have hread : ∀ mem mem', ((n.withBuffer mem).beforeWrite now incoming).peers
        = ((n.withBuffer mem').beforeWrite now incoming).peers := by
      cases incoming with
      | none => exact fun mem mem' => rfl
      | some datagram =>
        exact (n.beforeWrite_sealed_iff now datagram.1 datagram.2).mpr (hincoming _ _ rfl)
    have hpackets : ∀ mem, ∀ e ∈ ((n.withBuffer mem).beforeWrite now incoming).peers,
        ∀ old old', (e.2.write n.connectionManagerConfig old now).val.2.2
          = (e.2.write n.connectionManagerConfig old' now).val.2.2 := by
      intro mem e he
      rw [hread mem n.networkBuffer] at he
      exact (e.2.write_sealed_iff n.connectionManagerConfig now).mpr (hwrites e he)
    -- the second loop starts from the same entries, but from different buffers
    have hwritten : ∀ mem mem',
        ((n.withBuffer mem).written now incoming).1 = ((n.withBuffer mem').written now incoming).1
          ∧ ((n.withBuffer mem).written now incoming).2.2
            = ((n.withBuffer mem').written now incoming).2.2 := by
      intro mem mem'
      rw [written, written, hread mem mem']
      exact write_congr (hpackets mem') _ _
    refine ⟨fun mem mem' => ?_, fun mem mem' => ?_, hread, hpackets⟩
    · rw [(tick_written _ now incoming).1, (tick_written _ now incoming).1]
      exact (hwritten mem mem').1
    · rw [(tick_written _ now incoming).2, (tick_written _ now incoming).2]
      exact (hwritten mem mem').2

/-- The first packet to a new peer carries a byte of the old buffer, and the handshake of 21
bytes that it consists of is read with the byte behind it as part of the limits. -/
theorem tick_not_isolated :
    let empty : Endpoint := {
      packetTimeout := 5000
      connectionManagerConfig := ⟨0, ⟨0, 1400, 0, 1400⟩⟩ }
    let client := empty.connect ⟨2, 2⟩ 0
    let handshake : List UInt8 := List.replicate 12 0 ++ [0, 1, 0, 0, 0, 0, 5, 120, 5]
    ((client.withBuffer fun _ => 0).tick 0 none).val.2.sent
        ≠ ((client.withBuffer fun _ => 1).tick 0 none).val.2.sent ∧
      ((empty.withBuffer fun _ => 0).tick 0 (some (⟨1, 1⟩, handshake))).val.1.peers
        ≠ ((empty.withBuffer fun _ => 1).tick 0 (some (⟨1, 1⟩, handshake))).val.1.peers := by
  intro empty client handshake
  constructor
  · decide +kernel
  · intro h
    have hlimits := congrArg (List.map fun e => e.2.connectionManager.peerBandwidthLimit) h
    revert hlimits
    decide +kernel

end Endpoint

end Neptun
