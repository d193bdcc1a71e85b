/-
What `write_to_peer` puts into a packet.

The four stages write one behind the other into the network buffer, and each of
them leaves alone what the stages before it have written.  So every packet is
`WellFormed`: its length is the sum of the four counts, and the header, the
handshake and the reliable segment are where the counts say.

* `Peer.write_wellFormed` — every packet is well formed, and begins with the
  header that the delivery manager has chosen;
* `Peer.writeToPeer_length_le` — a packet fits into a buffer that has room for
  the header and the handshake.
-/
import Neptun.Handshake
import Neptun.Peers
import Neptun.ReliableSegment

namespace Neptun

/-- The counted bytes of a `LetsConnect`: the third byte of the message is a gap,
and the low byte of `max_read_packet_size` is missing. -/
def letsConnectBytes (limit : BandwidthLimit) (gap : UInt8) : List UInt8 :=
  [0, 1, 0, limit.maxSendPacketRate, limit.maxReadPacketRate, gap]
    ++ beEncode 2 limit.maxSendPacketSize.toNat
    ++ [UInt8.ofNat (limit.maxReadPacketSize.toNat / 256)]

/-- The bytes of a handshake segment of `count` bytes: none, a rejection or a
`LetsConnect` with the given limits. -/
def HandshakeBytes (limit : BandwidthLimit) (bytes : List UInt8) : Prop :=
  bytes = [] ∨ bytes = [0, 1, 0] ∨ ∃ gap, bytes = letsConnectBytes limit gap

/-- A packet whose parts are where its counts say. -/
structure Packet.WellFormed (limit : BandwidthLimit) (header : PacketHeader)
    (packet : Packet) : Prop where
  length : packet.payload.length = 12 + packet.connectionManagerCount
    + packet.reliableStreamCount + packet.unreliableStreamCount
  header : packet.payload.take 12 = header.encode
  handshake : HandshakeBytes limit
    ((packet.payload.drop 12).take packet.connectionManagerCount)
  reliable : 0 < packet.reliableStreamCount → 2 ≤ packet.reliableStreamCount ∧
    packet.payload[12 + packet.connectionManagerCount]? = some ManagerType.reliableStream.toU8

/-! ### The handshake segment -/

namespace ConnectionManager

/-- The handshake segment, given the byte in the gap of the `LetsConnect`. -/
def encodeHandshake (c : ConnectionManager) (gap : UInt8) : List UInt8 :=
  if 0 < c.numLetsConnectToSend then
    if c.isFail then [0, 1, 0] else letsConnectBytes c.config.limit gap
  else []

/-- The gap is not written. -/
theorem write_encodeHandshake (c : ConnectionManager) (id : PacketId) (b : Span) (mem : Memory) :
    (c.write id b mem).val.2.2 = (c.encodeHandshake (mem (b.off + 5))).length ∧
      (c.write id b mem).val.2.1.slice b.off (c.encodeHandshake (mem (b.off + 5))).length
        = c.encodeHandshake (mem (b.off + 5)) := by
  rw [encodeHandshake]
  by_cases hnum : 0 < c.numLetsConnectToSend
  · rw [if_pos hnum]
    cases hfail : c.isFail with
    | false =>
      exact write_bytes hfail hnum id b mem
    | true =>
      rw [write, if_pos hnum]
      simp [writeMessage, hfail, Segment.write, MessageHeader.write, RejectLetsConnect.write,
        writeU8, beEncode, Memory.storeList, Memory.slice, Memory.store,
        Segment.kManagerTypeOffset, Segment.kMessageCountOffset,
        MessageHeader.kMessageTypeOffset, MessageHeader.kSerializedSize, LetsConnect.kId,
        RejectLetsConnect.kSerializedSize, ManagerType.toU8, Nat.add_assoc]
  · rw [if_neg hnum, write, if_neg hnum]
    exact ⟨rfl, rfl⟩

theorem length_encodeHandshake (c : ConnectionManager) (gap gap' : UInt8) :
    (c.encodeHandshake gap).length = (c.encodeHandshake gap').length := by
  rw [encodeHandshake, encodeHandshake]
  split
  · split <;> rfl
  · rfl

end ConnectionManager

/-! ### The stages leave the bytes in front of them alone -/

theorem ConnectionManager.write_apply_of_lt (c : ConnectionManager) (id : PacketId) (b : Span)
    (mem : Memory) {x : ℕ} (hx : x < b.off) : (c.write id b mem).val.2.1 x = mem x := by
  by_cases hnum : 0 < c.numLetsConnectToSend
  · rw [write, if_pos hnum]
    cases hfail : c.isFail <;>
      simp (disch := omega) only [writeMessage, hfail, Segment.write, MessageHeader.write,
        LetsConnect.write, RejectLetsConnect.write, writeU8, writeU16, Checked.val_bind,
        Checked.val_pure, val_writeUnsigned, val_advance, Memory.storeList_apply_of_lt,
        if_true, if_false, Bool.false_eq_true]
  · rw [write, if_neg hnum]
    rfl

theorem UnreliableStream.write_apply_of_lt (s : UnreliableStream) (b : Span) (mem : Memory)
    {x : ℕ} (hx : x < b.off) : (s.write b mem).val.2.1 x = mem x := by
  have hloop : ∀ (n idx : ℕ) (buffer : FlipBuffer) (pending : List Span) (mem : Memory),
      (writeLoop b n idx buffer pending mem).val.2.1 x = mem x := by
    intro n
    induction n with
    | zero => exact fun _ _ _ _ => rfl
    | succ n ih =>
      intro idx buffer pending mem
      cases pending with
      | nil => rfl
      | cons payload pending =>
        simp (disch := omega) only [writeLoop, UnreliableMessage.write, writeU16,
          Checked.val_bind, Checked.val_pure, val_writeUnsigned, val_writeByteArray,
          val_advance, ih, Memory.storeList_apply_of_lt]
  rw [write]
  dsimp only
  split
  · rfl
  · simp (disch := omega) only [Segment.val_write, Checked.val_bind, Checked.val_pure, hloop,
      Memory.storeList_apply_of_lt]

/-- The counted bytes of the handshake. -/
theorem ConnectionManager.write_handshake (c : ConnectionManager) (id : PacketId) (b : Span)
    (mem : Memory) : HandshakeBytes c.config.limit
      ((c.write id b mem).val.2.1.slice b.off (c.write id b mem).val.2.2) := by
  by_cases hnum : 0 < c.numLetsConnectToSend
  · cases hfail : c.isFail with
    | false =>
      obtain ⟨hcount, hbytes⟩ := write_bytes hfail hnum id b mem
      rw [hcount, hbytes]
      exact Or.inr (Or.inr ⟨_, rfl⟩)
    | true =>
      refine Or.inr (Or.inl ?_)
      rw [write, if_pos hnum]
      simp [writeMessage, hfail, Segment.write, MessageHeader.write, RejectLetsConnect.write,
        writeU8, beEncode, Memory.storeList, Memory.slice, Memory.store,
        Segment.kManagerTypeOffset, Segment.kMessageCountOffset,
        MessageHeader.kMessageTypeOffset, MessageHeader.kSerializedSize, LetsConnect.kId,
        RejectLetsConnect.kSerializedSize, ManagerType.toU8, Nat.add_assoc]
  · refine Or.inl ?_
    rw [write, if_neg hnum]
    rfl

theorem HandshakeBytes.length_le {limit : BandwidthLimit} {bytes : List UInt8}
    (h : HandshakeBytes limit bytes) : bytes.length ≤ 9 := by
  rcases h with rfl | rfl | ⟨gap, rfl⟩
  · simp
  · simp
  · simp [letsConnectBytes]

/-- Rejections too begin like a `LetsConnect`. -/
theorem HandshakeBytes.take_three {limit : BandwidthLimit} {bytes : List UInt8}
    (h : HandshakeBytes limit bytes) (hne : bytes.length ≠ 0) :
    3 ≤ bytes.length ∧ bytes.take 3 = [0, 1, 0] := by
  rcases h with rfl | rfl | ⟨gap, rfl⟩
  · exact absurd rfl hne
  · exact ⟨Nat.le_refl 3, rfl⟩
  · exact ⟨by simp [letsConnectBytes], rfl⟩

theorem HandshakeBytes.slice_three {limit : BandwidthLimit} {mem : Memory} {a k : ℕ}
    (h : HandshakeBytes limit (mem.slice a k)) (hk : k ≠ 0) :
    3 ≤ k ∧ mem.slice a 3 = [0, 1, 0] := by
  obtain ⟨hle, htake⟩ := h.take_three (by rw [Memory.length_slice]; exact hk)
  rw [Memory.length_slice] at hle
  have hslice := Memory.take_drop_slice mem a (show 0 + 3 ≤ k by omega)
  rw [List.drop_zero, Nat.add_zero] at hslice
  exact ⟨hle, hslice.symm.trans htake⟩

theorem UnreliableStream.countMessages_le {bufferSize totalSize : ℕ} (h : totalSize ≤ bufferSize)
    (payloads : List Span) : (countMessages bufferSize totalSize payloads).2 ≤ bufferSize := by
  induction payloads generalizing totalSize with
  | nil => exact h
  | cons payload payloads ih =>
    rw [countMessages]
    dsimp only
    split
    · exact h
    · next hfits => exact ih (Nat.not_lt.mp hfits)

theorem UnreliableStream.write_count_le (s : UnreliableStream) (b : Span) (mem : Memory) :
    (s.write b mem).val.2.2 ≤ b.size := by
  rw [write]
  dsimp only
  split
  · exact Nat.zero_le _
  · next hcount =>
    -- at least one message fits behind the segment header
    have hsize : Segment.kSerializedSize ≤ b.size := by
      by_contra hlt
      refine hcount ?_
      cases s.pendingMessages with
      | nil => rfl
      | cons payload payloads => rw [countMessages, if_pos (by omega)]
    exact countMessages_le hsize _

/-- The first bytes of a reliable segment. -/
theorem encodeSegment_head {msgs : List WireMessage} (h : 0 < (encodeSegment msgs).length) :
    2 ≤ (encodeSegment msgs).length ∧
      (encodeSegment msgs).head? = some ManagerType.reliableStream.toU8 := by
  rw [encodeSegment] at h ⊢
  split at h
  · simp at h
  · next hne =>
    rw [if_neg hne]
    simp

/-- The stages one behind the other: `m₁` holds the header, `m₂` is the memory
after the handshake, and `m₄` after both streams. -/
theorem Packet.wellFormed_of_stages {limit : BandwidthLimit} {header : PacketHeader}
    {m₁ m₂ m₄ : Memory} {k u : ℕ} {segment : List UInt8}
    (hheader : m₁.slice 0 12 = header.encode) (hfront : ∀ x < 12, m₂ x = m₁ x)
    (hhandshake : HandshakeBytes limit (m₂.slice 12 k))
    (hstreams : ∀ x < 12 + k + segment.length, m₄ x = m₂.storeList (12 + k) segment x)
    (hsegment : 0 < segment.length → 2 ≤ segment.length ∧
      segment.head? = some ManagerType.reliableStream.toU8) :
    (Packet.mk (m₄.slice 0 (12 + k + segment.length + u)) 12 k segment.length u).WellFormed
      limit header := by
  -- in front of the segment nothing has changed since the handshake
  have hsame : ∀ x < 12 + k, m₄ x = m₂ x := by
    intro x hx
    rw [hstreams x (by omega), Memory.storeList_apply_of_lt hx]
  constructor
  · exact Memory.length_slice _ _ _
  · have htake := Memory.take_drop_slice m₄ 0 (show 0 + 12 ≤ 12 + k + segment.length + u by omega)
    rw [List.drop_zero] at htake
    rw [htake, ← hheader]
    refine Memory.slice_congr fun i hi => ?_
    rw [Nat.add_zero, Nat.zero_add, hsame i (by omega), hfront i hi]
  · show HandshakeBytes limit (((m₄.slice 0 (12 + k + segment.length + u)).drop 12).take k)
    rw [Memory.take_drop_slice _ _ (by omega)]
    have hslice : m₄.slice (0 + 12) k = m₂.slice 12 k := by
      refine Memory.slice_congr fun i hi => ?_
      rw [Nat.zero_add, hsame _ (by omega)]
    rw [hslice]
    exact hhandshake
  · intro hpos
    obtain ⟨h2, hhead⟩ := hsegment hpos
    refine ⟨h2, ?_⟩
    show (m₄.slice 0 (12 + k + segment.length + u))[12 + k]? = _
    rw [Memory.getElem?_slice (by omega), Nat.zero_add, hstreams _ (by omega)]
    cases segment with
    | nil => simp at hhead
    | cons byte segment =>
      rw [Memory.storeList, Memory.storeList_apply_of_lt (by omega), Memory.store, if_pos rfl]
      exact hhead

namespace Peer

/-- The packet that the four stages build. -/
theorem writeToPeer_packet (p : Peer) (mem : Memory) (now : ℤ) (size : UInt16) :
    let bufferSize := (min kJustBelowMtu size).toNat
    let header := (p.packetDeliveryManager.nextHeader now).val.2
    let handshake := (p.connectionManager.write header.id ⟨12, usizeSub bufferSize 12⟩
      (mem.storeList 0 header.encode)).val
    let b : Span := ⟨12 + handshake.2.2, usizeSub (usizeSub bufferSize 12) handshake.2.2⟩
    let reliable := (p.reliableStream.write header.id b handshake.2.1).val
    let b' : Span := ⟨b.off + reliable.2.2, usizeSub b.size reliable.2.2⟩
    let unreliable := (p.unreliableStream.write b' reliable.2.1).val
    (p.writeToPeer mem now size).val.2.2 =
      ⟨unreliable.2.1.slice 0 (12 + handshake.2.2 + reliable.2.2 + unreliable.2.2), 12,
        handshake.2.2, reliable.2.2, unreliable.2.2⟩ := by
  intro bufferSize header handshake b reliable b' unreliable
  simp only [writeToPeer, Checked.val_bind, Checked.val_pure, PacketDeliveryManager.val_write,
    val_advance, PacketHeader.readId_storeList, Nat.zero_add]
  rfl

theorem writeToPeer_wellFormed (p : Peer) (mem : Memory) (now : ℤ) (size : UInt16) :
    (p.writeToPeer mem now size).val.2.2.WellFormed p.connectionManager.config.limit
      (p.packetDeliveryManager.nextHeader now).val.2 := by
  rw [writeToPeer_packet]
  generalize (min kJustBelowMtu size).toNat = bufferSize
  generalize (p.packetDeliveryManager.nextHeader now).val.2 = header
  rw [ReliableStream.val_write]
  refine Packet.wellFormed_of_stages ?_
    (fun x hx => p.connectionManager.write_apply_of_lt header.id _ _ hx)
    (p.connectionManager.write_handshake header.id _ _)
    (fun x hx => p.unreliableStream.write_apply_of_lt _ _ hx) encodeSegment_head
  have hslice := Memory.slice_storeList_self mem 0 header.encode
  rwa [PacketHeader.length_encode] at hslice

/-- A packet is not larger than its buffer.  Only the handshake does not look at
the size of the buffer. -/
theorem writeToPeer_length_le (p : Peer) (mem : Memory) (now : ℤ) {size : UInt16}
    (hsize : 21 ≤ (min kJustBelowMtu size).toNat) :
    (p.writeToPeer mem now size).val.2.2.payload.length ≤ (min kJustBelowMtu size).toNat := by
  rw [writeToPeer_packet]
  generalize (min kJustBelowMtu size).toNat = bufferSize at hsize ⊢
  generalize (p.packetDeliveryManager.nextHeader now).val.2 = header
  rw [usizeSub_of_le (by omega)]
  have hhandshake := (p.connectionManager.write_handshake header.id ⟨12, bufferSize - 12⟩
    (mem.storeList 0 header.encode)).length_le
  rw [Memory.length_slice] at hhandshake
  generalize (p.connectionManager.write header.id ⟨12, bufferSize - 12⟩
    (mem.storeList 0 header.encode)).val.2 = handshake at hhandshake ⊢
  rw [usizeSub_of_le (by omega), ReliableStream.val_write]
  have hreliable := p.reliableStream.length_encodeSegment_le (bufferSize - 12 - handshake.2)
  dsimp only
  generalize encodeSegment _ = segment at hreliable ⊢
  rw [usizeSub_of_le hreliable, Memory.length_slice]
  have hunreliable := p.unreliableStream.write_count_le
    ⟨12 + handshake.2 + segment.length, bufferSize - 12 - handshake.2 - segment.length⟩
    (handshake.1.storeList (12 + handshake.2) segment)
  dsimp only at hunreliable
  omega

/-- **Every packet is well formed.** -/
theorem write_wellFormed {config : ConnectionManagerConfig} {p : Peer} {mem : Memory} {now : ℤ}
    {packet : Packet} (h : (write config p mem now).val.2.2 = some packet) :
    packet.WellFormed p.connectionManager.config.limit
      (p.packetDeliveryManager.nextHeader now).val.2 := by
  rcases write_cases config p mem now with hval | ⟨-, hval⟩
  · rw [hval] at h
    cases h
  · rw [hval] at h
    rw [← Option.some_inj.mp h]
    exact writeToPeer_wellFormed { p with
      sendPacketTicker := (p.sendPacketTicker.tick now).val.1 } mem now _

end Peer

end Neptun
