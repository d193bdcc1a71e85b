/-
The size of packets.

The stages of `write_to_peer` trust the counts of the ones before, and the
handshake does not look at the size of its buffer at all.  What keeps every
stage inside its span is that both limits are at least 100: the own one by
configuration, the stored one of the peer because `read` validates it.

* `Peer.write_avoids_build` — building a packet breaks no obligation, if the
  buffer has room for the header and the handshake;
* `packet_size` — the same for every tick of every run, with the size of each
  packet.
-/
import Neptun.AckLog
import Neptun.EndpointRuns
import Neptun.UnreliableSegment

namespace Neptun

/-- The obligations of building a packet: its stages stay inside their spans, and
their assertions on sizes hold. -/
def BuildFault (f : Fault) : Prop :=
  f = .load ∨ f = .store ∨ f = .advance ∨ f = .assertion .headerSize ∨
    f = .assertion .handshakeSize ∨ f = .assertion .messageSize ∨ f = .assertion .totalSize

/-! ### The stages -/

theorem PacketDeliveryManager.write_avoids_build (m : PacketDeliveryManager) {b : Span}
    (hb : 12 ≤ b.size) (mem : Memory) (now : ℤ) : (m.write b mem now).Avoids BuildFault := by
  refine avoids_write (avoids_nextHeader ?_ m now) (fun _ => hb) mem
  simp [BuildFault]

/-- The handshake has nine bytes; its message is written one byte further. -/
theorem ConnectionManager.write_avoids_build (c : ConnectionManager) (id : PacketId) {b : Span}
    (hb : 10 ≤ b.size) (mem : Memory) : (c.write id b mem).Avoids BuildFault := by
  simp only [write, writeMessage, Segment.write, MessageHeader.write, LetsConnect.write,
    RejectLetsConnect.write, writeU8, writeU16, Checked.avoids_ite, Checked.avoids_bind,
    Checked.avoids_pure, Checked.avoids_check, Checked.val_bind, Checked.val_pure,
    Checked.val_ite, avoids_writeUnsigned_iff, avoids_advance, val_advance,
    Segment.kManagerTypeOffset, Segment.kMessageCountOffset, MessageHeader.kMessageTypeOffset,
    MessageHeader.kSerializedSize, LetsConnect.kMaxSendPacketRate,
    LetsConnect.kMaxReadPacketRate, LetsConnect.kMaxSendPacketSize,
    LetsConnect.kMaxReadPacketSize, LetsConnect.kSerializedSize,
    RejectLetsConnect.kSerializedSize, usizeSub_of_le (by omega : 1 + 1 ≤ b.size),
    usizeSub_of_le (by omega : 1 + 1 + 1 ≤ b.size), implies_true, and_true]
  cases c.isFail <;> simp <;> omega

/-- The writing loop stays inside the span if the messages it writes fit, and
ends behind them. -/
theorem ReliableStream.writeLoop_avoids_build (f : FlipBuffer) (packetId : PacketId) {b : Span}
    {n idx : ℕ} {pending : List PendingMessage} (inFlight : List InFlightMessage) (mem : Memory)
    (hfits : idx + (encodeMessages ((pending.take n).map (toWire f))).length ≤ b.size) :
    (writeLoop f packetId b n idx pending inFlight mem).Avoids BuildFault ∧
      (writeLoop f packetId b n idx pending inFlight mem).val.2.2.2
        = idx + (encodeMessages ((pending.take n).map (toWire f))).length := by
  induction n generalizing idx pending inFlight mem with
  | zero => exact ⟨Checked.avoids_pure _, rfl⟩
  | succ n ih =>
    cases pending with
    | nil => exact ⟨Checked.avoids_pure _, rfl⟩
    | cons msg pending =>
      rw [List.take_succ_cons, List.map_cons, encodeMessages_cons, List.length_append,
        ReliableMessage.length_encode] at hfits ⊢
      have hpayload : (toWire f msg).2 = f.bufferSpan msg.range := rfl
      rw [hpayload] at hfits ⊢
      obtain ⟨hrest, hidx⟩ := @ih (idx + (6 + (f.bufferSpan msg.range).length)) pending
        (inFlight ++ [⟨packetId, msg⟩]) (mem.storeList (b.off + idx)
          (ReliableMessage.encode msg.sequenceNumber (f.bufferSpan msg.range))) (by omega)
      simp only [writeLoop, Checked.avoids_bind, Checked.avoids_check, avoids_advance,
        Checked.val_bind, val_advance, ReliableMessage.val_write, hrest, hidx,
        usizeSub_of_le (by omega : idx ≤ b.size)]
      refine ⟨⟨fun _ => by omega, ?_, fun _ => by omega, trivial⟩, by omega⟩
      simp only [ReliableMessage.write, writeU32, writeU16, Checked.avoids_bind,
        Checked.avoids_pure, avoids_writeUnsigned_iff, avoids_writeByteArray_iff,
        ReliableMessage.kSequenceNumberOffset, ReliableMessage.kLengthOffset,
        ReliableMessage.kPayloadOffset, and_true]
      exact ⟨fun _ _ => by omega, fun _ _ => by omega, fun _ _ => by omega⟩

theorem ReliableStream.write_avoids_build (s : ReliableStream) (packetId : PacketId) (b : Span)
    (mem : Memory) : (s.write packetId b mem).Avoids BuildFault := by
  obtain ⟨hsize, hle⟩ := countMessages_size s.buffer b.size Segment.kSerializedSize
    s.pendingMessages
  rw [write]
  dsimp only
  split
  · exact Checked.avoids_pure _
  · next hzero =>
    -- the sizing loop has made sure that there is room for the taken messages
    have hfits := hle hzero
    rw [hsize] at hfits
    obtain ⟨hloop, hidx⟩ := writeLoop_avoids_build s.buffer packetId s.inFlightMessages
      (mem.storeList b.off [ManagerType.reliableStream.toU8, UInt8.ofNat (countMessages s.buffer
        b.size Segment.kSerializedSize s.pendingMessages).1]) hfits
    have hsegment : Segment.kSerializedSize = 2 := rfl
    simp only [Checked.avoids_bind, Checked.avoids_check, Segment.val_write]
    refine ⟨?_, hloop, fun _ => hidx.trans hsize.symm, Checked.avoids_pure _⟩
    simp only [Segment.write, writeU8, Checked.avoids_bind, Checked.avoids_pure,
      avoids_writeUnsigned_iff, Segment.kManagerTypeOffset, Segment.kMessageCountOffset, and_true]
    exact ⟨fun _ _ => by omega, fun _ _ => by omega⟩

theorem UnreliableStream.writeLoop_avoids_build {b : Span} {n idx : ℕ} (f : FlipBuffer)
    {pending : List Span} (mem : Memory)
    (hfits : idx + messageSizes (pending.take n) ≤ b.size) :
    (writeLoop b n idx f pending mem).Avoids BuildFault ∧
      (writeLoop b n idx f pending mem).val.2.2 = idx + messageSizes (pending.take n) := by
  -- the room for the messages left over is kept from one to the next
  induction n generalizing idx f pending mem with
  | zero => exact ⟨Checked.avoids_pure _, rfl⟩
  | succ n ih =>
    cases pending with
    | nil => exact ⟨Checked.avoids_pure _, rfl⟩
    | cons span pending =>
      have hserialized : UnreliableMessage.serializedSize span.size = 2 + span.size := rfl
      rw [List.take_succ_cons, messageSizes_cons, hserialized] at hfits ⊢
      have hmessage := UnreliableMessage.val_write ⟨b.off + idx, usizeSub b.size idx⟩ mem
        ((f.consume span.size).buffer.slice span.off span.size)
      rw [Memory.length_slice] at hmessage
      obtain ⟨hrest, hidx⟩ := @ih (idx + (2 + span.size)) (f.consume span.size) pending
        (mem.storeList (b.off + idx)
          (UnreliableMessage.encode (payloadAt (f.consume span.size) span))) (by omega)
      simp only [writeLoop, Checked.avoids_bind, Checked.avoids_check, avoids_advance,
        Checked.val_bind, val_advance, hmessage]
      refine ⟨⟨fun _ => by omega, ?_, fun _ => ?_, hrest⟩, ?_⟩
      · simp only [UnreliableMessage.write, writeU16, Checked.avoids_bind, Checked.avoids_pure,
          avoids_writeUnsigned_iff, avoids_writeByteArray_iff, UnreliableMessage.kLengthOffset,
          UnreliableMessage.kPayloadOffset, Memory.length_slice, and_true,
          usizeSub_of_le (by omega : idx ≤ b.size)]
        exact ⟨fun _ _ => by omega, fun _ _ => by omega⟩
      · rw [usizeSub_of_le (by omega : idx ≤ b.size)]
        omega
      · exact hidx.trans (Nat.add_assoc _ _ _)

theorem UnreliableStream.write_avoids_build (s : UnreliableStream) (b : Span) (mem : Memory) :
    (s.write b mem).Avoids BuildFault := by
  obtain ⟨hsize, -, hle, -⟩ := countMessages_spec b.size Segment.kSerializedSize
    s.pendingMessages
  rw [write]
  dsimp only
  split
  · exact Checked.avoids_pure _
  · next hzero =>
    have hfits := hle hzero
    obtain ⟨hloop, hidx⟩ := writeLoop_avoids_build s.buffer (mem.storeList b.off
      [ManagerType.unreliableStream.toU8, UInt8.ofNat (countMessages b.size
        Segment.kSerializedSize s.pendingMessages).1]) hfits
    have hsegment : Segment.kSerializedSize = 2 := rfl
    simp only [Checked.avoids_bind, Checked.avoids_check, Segment.val_write]
    refine ⟨?_, hloop, fun _ => hidx.trans hsize.symm, Checked.avoids_pure _⟩
    simp only [Segment.write, writeU8, Checked.avoids_bind, Checked.avoids_pure,
      avoids_writeUnsigned_iff, Segment.kManagerTypeOffset, Segment.kMessageCountOffset, and_true]
    exact ⟨fun _ _ => by omega, fun _ _ => by omega⟩

/-! ### One packet -/

theorem le_toNat_min_iff {n : ℕ} {x y : UInt16} :
    n ≤ (min x y).toNat ↔ n ≤ x.toNat ∧ n ≤ y.toNat := by
  have hmin : min x y = if x ≤ y then x else y := rfl
  rw [hmin]
  split
  · next hle =>
    have := UInt16.le_iff_toNat_le.mp hle
    omega
  · next hlt =>
    have := UInt16.lt_iff_toNat_lt.mp (UInt16.not_le.mp hlt)
    omega

namespace Peer

theorem le_maxPacketSize_iff {config : ConnectionManagerConfig} {p : Peer} {n : ℕ} :
    n ≤ (p.maxPacketSize config).toNat ↔ n ≤ config.limit.maxSendPacketSize.toNat ∧
      ∀ limit ∈ p.connectionManager.peerLimit, n ≤ limit.maxReadPacketSize.toNat := by
  rw [maxPacketSize]
  cases p.connectionManager.peerLimit with
  | none => simp
  | some limit =>
    rw [le_toNat_min_iff, and_comm]
    simp

/-- Building a packet breaks no obligation, if the buffer has room for the header
and the handshake, with the byte behind it. -/
theorem writeToPeer_avoids_build (p : Peer) (mem : Memory) (now : ℤ) {size : UInt16}
    (hsize : 22 ≤ (min kJustBelowMtu size).toNat) :
    (p.writeToPeer mem now size).Avoids BuildFault := by
  rw [writeToPeer]
  generalize (min kJustBelowMtu size).toNat = bufferSize at hsize
  have hheader := p.packetDeliveryManager.write_avoids_build (b := ⟨0, bufferSize⟩)
    (by dsimp only; omega) mem now
  simp only [Checked.avoids_bind, Checked.avoids_pure, PacketDeliveryManager.val_write,
    val_advance, avoids_advance, PacketHeader.readId, avoids_readU32,
    PacketHeader.kIdOffset, hheader, Nat.zero_add, true_and, and_true, Nat.reduceLeDiff,
    implies_true]
  rw [usizeSub_of_le (by omega)]
  generalize (readU32 ⟨0, 12⟩ _ 0).val = packetId
  -- the handshake takes at most nine bytes
  have hcount := (p.connectionManager.write_handshake packetId ⟨12, bufferSize - 12⟩
    (mem.storeList 0 (p.packetDeliveryManager.nextHeader now).val.2.encode)).length_le
  rw [Memory.length_slice] at hcount
  have hhandshake := p.connectionManager.write_avoids_build packetId
    (b := ⟨12, bufferSize - 12⟩) (by dsimp only; omega)
    (mem.storeList 0 (p.packetDeliveryManager.nextHeader now).val.2.encode)
  generalize p.connectionManager.write packetId ⟨12, bufferSize - 12⟩ _ = handshake
    at hcount hhandshake ⊢
  obtain ⟨⟨c, mem₂, count⟩, faults⟩ := handshake
  dsimp only at hcount ⊢
  rw [usizeSub_of_le (by omega)]
  -- the segments of the streams fit by construction
  have hlength : (p.reliableStream.write packetId ⟨12 + count, bufferSize - 12 - count⟩
      mem₂).val.2.2 ≤ bufferSize - 12 - count := by
    rw [ReliableStream.val_write]
    exact p.reliableStream.length_encodeSegment_le _
  have hreliable := p.reliableStream.write_avoids_build packetId
    ⟨12 + count, bufferSize - 12 - count⟩ mem₂
  generalize p.reliableStream.write packetId ⟨12 + count, bufferSize - 12 - count⟩ mem₂
    = reliable at hlength hreliable ⊢
  obtain ⟨⟨stream, mem₃, count'⟩, faults'⟩ := reliable
  refine ⟨fun _ => by omega, hhandshake, fun _ => by omega, hreliable, fun _ => hlength,
    UnreliableStream.write_avoids_build _ _ _, fun _ => UnreliableStream.write_count_le _ _ _⟩

theorem write_avoids_build {config : ConnectionManagerConfig} {p : Peer}
    (hsize : 22 ≤ (min kJustBelowMtu (p.maxPacketSize config)).toNat) (mem : Memory) (now : ℤ) :
    (write config p mem now).Avoids BuildFault := by
  -- the ticker has an obligation of its own, but not one of these
  have hmodulo : ¬ BuildFault .moduloZero := by simp [BuildFault]
  have htick : (p.sendPacketTicker.tick now).Avoids BuildFault := by
    rw [Ticker.tick]
    split
    · simp only [Checked.avoids_ite, Checked.avoids_bind, Checked.avoids_check,
        Checked.avoids_pure, hmodulo, false_imp_iff, implies_true, and_self]
    · exact Checked.avoids_pure _
  simp only [write, Checked.avoids_bind, Checked.avoids_ite, Checked.avoids_pure, htick,
    implies_true, and_true, true_and]
  intro _
  exact writeToPeer_avoids_build _ mem now hsize

/-- A packet is not larger than the limits allow, and its length is the sum of the
counts. -/
theorem write_length_le {config : ConnectionManagerConfig} {p : Peer} {mem : Memory} {now : ℤ}
    {packet : Packet} (hsize : 21 ≤ (min kJustBelowMtu (p.maxPacketSize config)).toNat)
    (h : (write config p mem now).val.2.2 = some packet) :
    packet.payload.length = packet.packetHeaderCount + packet.connectionManagerCount
        + packet.reliableStreamCount + packet.unreliableStreamCount ∧
      packet.payload.length ≤ (min kJustBelowMtu (p.maxPacketSize config)).toNat := by
  rcases write_cases config p mem now with hval | ⟨-, hval⟩
  · rw [hval] at h
    cases h
  · rw [hval] at h
    rw [← Option.some_inj.mp h]
    refine ⟨?_, writeToPeer_length_le _ mem now hsize⟩
    rw [writeToPeer_packet, Memory.length_slice]

end Peer

/-! ### Runs -/

open PeerMap

/-- The limits that the entry has for its peer have passed `validate`. -/
def Peer.LimitsValid (p : Peer) : Prop :=
  ∀ limit ∈ p.connectionManager.peerLimit, ConnectionManager.ValidLimit limit

/-- `read` stores valid limits only. -/
theorem ConnectionManager.read_validLimit {c : ConnectionManager}
    (h : ∀ limit ∈ c.peerLimit, ValidLimit limit) (b : Span) (mem : Memory) :
    ∀ limit ∈ (c.read b mem).val.1.peerLimit, ValidLimit limit := by
  rcases read_cases c b mem with ⟨hholds, hread⟩ | ⟨-, isFail, hread⟩
  · rw [hread]
    intro limit hlimit
    cases hlimit
    exact hholds.2.2.2.2
  · rw [hread]
    exact h

namespace Peer.LimitsValid

variable {p : Peer}

theorem dropOldPackets (h : p.LimitsValid) (now : ℤ) :
    (p.dropOldPackets now).val.1.LimitsValid := by
  intro limit hlimit
  rw [ConnectionManager.peerLimit,
    Peer.dropOldPackets_connection _ ConnectionManager.status_peerLimit] at hlimit
  exact h limit hlimit

theorem read (h : p.LimitsValid) (config : ConnectionManagerConfig) (b : Span) (mem : Memory) :
    (p.read config b mem).val.1.LimitsValid := by
  refine Peer.read_keeps (P := fun c => ∀ limit ∈ c.peerLimit, ConnectionManager.ValidLimit limit)
    (fun c id status hc => ?_) (fun c b mem hc => ConnectionManager.read_validLimit hc b mem)
    config h b mem
  rw [ConnectionManager.peerLimit, ConnectionManager.status_peerLimit]
  exact hc

theorem write (h : p.LimitsValid) (config : ConnectionManagerConfig) (mem : Memory) (now : ℤ) :
    (p.write config mem now).val.1.LimitsValid := by
  intro limit hlimit
  rw [ConnectionManager.peerLimit,
    Peer.write_connection _ ConnectionManager.write_peerLimit] at hlimit
  exact h limit hlimit

/-- There is room for the header and the handshake. -/
theorem le_maxPacketSize (h : p.LimitsValid) {config : ConnectionManagerConfig}
    (hsend : 100 ≤ config.limit.maxSendPacketSize) :
    100 ≤ (min kJustBelowMtu (p.maxPacketSize config)).toNat := by
  rw [le_toNat_min_iff, Peer.le_maxPacketSize_iff]
  refine ⟨by decide, UInt16.le_iff_toNat_le.mp hsend, ?_⟩
  intro limit hlimit
  exact UInt16.le_iff_toNat_le.mp (h limit hlimit).2

end Peer.LimitsValid

/-- All entries have valid limits in every run. -/
theorem limitsValid_of_reachable {config : ConnectionManagerConfig} {packetTimeout : ℤ}
    {n : Endpoint} (h : (neptun config packetTimeout).Reachable System.anyAction n) :
    n.connectionManagerConfig = config ∧ n.Distinct ∧ All (fun _ => Peer.LimitsValid) n.peers := by
  refine h.invariant (P := fun n => n.connectionManagerConfig = config ∧ n.Distinct ∧
    All (fun _ => Peer.LimitsValid) n.peers) (fun n hn => ?_) (fun n call _ ih _ _ => ?_)
  · rw [hn]
    exact ⟨rfl, List.nodup_nil, all_nil⟩
  · obtain ⟨hconfig, hdistinct, hall⟩ := ih
    refine ⟨(n.next_config call).trans hconfig, hdistinct.next call, ?_⟩
    refine Endpoint.next_all ?_ (fun _ _ hp => hp) (fun _ _ _ hp => hp) (fun _ _ _ hp => hp)
      (fun _ _ now hp => hp.dropOldPackets now) (fun _ _ b mem hp => hp.read _ b mem)
      (fun _ _ mem now hp => hp.write _ mem now) hall call
    intro ip now limit hlimit
    cases hlimit

theorem limitsValid_beforeWrite {n : Endpoint} (h : All (fun _ => Peer.LimitsValid) n.peers)
    (now : ℤ) (incoming : Option (IpAddress × List UInt8)) :
    All (fun _ => Peer.LimitsValid) (n.beforeWrite now incoming).peers := by
  refine Endpoint.beforeWrite_all ?_ (fun _ _ now hp => hp.dropOldPackets now)
    (fun _ _ b mem hp => hp.read _ b mem) h now incoming
  intro ip now limit hlimit
  cases hlimit

theorem Endpoint.write_avoids_build {config : ConnectionManagerConfig}
    (hsend : 100 ≤ config.limit.maxSendPacketSize) (now : ℤ) {peers : PeerMap}
    (h : All (fun _ => Peer.LimitsValid) peers) (mem : Memory) :
    (Endpoint.write config now peers mem).Avoids BuildFault := by
  induction peers generalizing mem with
  | nil => exact Checked.avoids_pure _
  | cons e peers ih =>
    obtain ⟨hp, hpeers⟩ := all_cons.mp h
    have hroom := hp.le_maxPacketSize hsend
    rw [Endpoint.write, Checked.avoids_bind, Checked.avoids_bind]
    exact ⟨Peer.write_avoids_build (by omega) _ _, ih hpeers _, Checked.avoids_pure _⟩

/-- A packet is not larger than the own limit or the stored limit of its receiver
allows. -/
theorem Endpoint.sent_length_le {config : ConnectionManagerConfig} {packetTimeout : ℤ}
    {n : Endpoint} (h : (neptun config packetTimeout).Reachable System.anyAction n)
    (hconfig : ConnectionManager.ValidLimit config.limit) {now : ℤ}
    {incoming : Option (IpAddress × List UInt8)} {ip : IpAddress} {packet : Packet}
    (hpacket : (ip, packet) ∈ (n.tick now incoming).val.2.sent) :
    packet.payload.length = packet.packetHeaderCount + packet.connectionManagerCount
        + packet.reliableStreamCount + packet.unreliableStreamCount ∧
      packet.payload.length ≤ 1400 ∧
      packet.payload.length ≤ config.limit.maxSendPacketSize.toNat ∧
      ∃ p, (n.tick now incoming).val.1.peers.find ip = some p ∧
        ∀ limit ∈ p.connectionManager.peerLimit,
          packet.payload.length ≤ limit.maxReadPacketSize.toNat := by
  obtain ⟨hn, hdistinct, hall⟩ := limitsValid_of_reachable h
  have hbefore := limitsValid_beforeWrite hall now incoming
  obtain ⟨p, mem, hp, hafter, hwrite⟩ := hdistinct.tick_sent hpacket
  rw [hn] at hafter hwrite
  have hroom : 100 ≤ (min kJustBelowMtu (p.maxPacketSize config)).toNat :=
    (hbefore.find hp).le_maxPacketSize hconfig.1
  obtain ⟨hlength, hle⟩ := Peer.write_length_le (by omega) hwrite
  obtain ⟨hmtu, hsize⟩ := le_toNat_min_iff.mp hle
  obtain ⟨hown, hpeer⟩ := Peer.le_maxPacketSize_iff.mp hsize
  refine ⟨hlength, hmtu, hown, _, hafter, ?_⟩
  rw [ConnectionManager.peerLimit, Peer.write_connection _ ConnectionManager.write_peerLimit]
  exact hpeer

/-- **The size of packets.**  Whatever an endpoint has read so far, every tick
builds its packets inside the spans of the stages, with all assertions on sizes
holding, and no packet is larger than the own limit or the stored limit of its
receiver allows. -/
theorem packet_size {config : ConnectionManagerConfig} {packetTimeout : ℤ} {n : Endpoint}
    (h : (neptun config packetTimeout).Reachable System.anyAction n)
    (hconfig : ConnectionManager.ValidLimit config.limit) (now : ℤ)
    (incoming : Option (IpAddress × List UInt8)) :
    (Endpoint.write n.connectionManagerConfig now (n.beforeWrite now incoming).peers
        (n.beforeWrite now incoming).networkBuffer).Avoids BuildFault ∧
    ∀ ip packet, (ip, packet) ∈ (n.tick now incoming).val.2.sent →
      packet.payload.length = packet.packetHeaderCount + packet.connectionManagerCount
          + packet.reliableStreamCount + packet.unreliableStreamCount ∧
        packet.payload.length ≤ 1400 ∧
        packet.payload.length ≤ config.limit.maxSendPacketSize.toNat ∧
        ∃ p, (n.tick now incoming).val.1.peers.find ip = some p ∧
          ∀ limit ∈ p.connectionManager.peerLimit,
            packet.payload.length ≤ limit.maxReadPacketSize.toNat := by
  obtain ⟨hn, -, hall⟩ := limitsValid_of_reachable h
  have hbefore := limitsValid_beforeWrite hall now incoming
  rw [hn]
  exact ⟨Endpoint.write_avoids_build hconfig.1 now hbefore _,
    fun ip packet hpacket => Endpoint.sent_length_le h hconfig hpacket⟩

/-- A peer that reads at most 120 bytes: the second message has to wait. -/
theorem packet_size_second_message_waits :
    let config : ConnectionManagerConfig := ⟨1, ⟨0, 1400, 0, 1400⟩⟩
    let letsConnect : List UInt8 :=
      [0, 0, 0, 0, 0, 0, 0, 0, 0, 0, 0, 0, 0, 1, 0, 0, 0, 0, 5, 120, 0, 120]
    let n := (neptun config 10).runFrom { packetTimeout := 10, connectionManagerConfig := config }
      [.tick 0 (some (⟨2, 1⟩, letsConnect)),
        .sendReliableTo ⟨2, 1⟩ (.ofBytes (List.replicate 50 7)) 0,
        .sendReliableTo ⟨2, 1⟩ (.ofBytes (List.replicate 50 8)) 0]
    (n.tick 1 none).val.2.sent.map (fun sent => sent.2.payload.length) = [79] ∧
      ∀ ip packet, (ip, packet) ∈ (n.tick 1 none).val.2.sent →
        ∃ p, (n.tick 1 none).val.1.peers.find ip = some p ∧
          ∀ limit ∈ p.connectionManager.peerLimit,
            packet.payload.length ≤ limit.maxReadPacketSize.toNat := by
  refine ⟨by decide +kernel, ?_⟩
  intro ip packet hpacket
  refine ((@packet_size ⟨1, ⟨0, 1400, 0, 1400⟩⟩ 10 _ (System.runFrom_reachable (.init rfl) ?_)
    (by decide) 1 none).2 ip packet hpacket).2.2.2
  exact ⟨trivial, trivial, trivial, trivial, trivial, trivial, trivial⟩

end Neptun
