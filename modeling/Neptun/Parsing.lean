/-
Which bytes `Neptun::read` touches.

The datagram is arbitrary, and so is the state of the endpoint.  A byte outside
the datagram is read, or a span is advanced past its end, in two places only:
the packet header is read without a look at the size of the datagram, and so is
the body of a `LetsConnect`.  The streams check the size of every message.

* `Peer.readStreams_avoids` — the stream stages stay inside their span, whatever
  the bytes are;
* `read_inside_datagram_iff` — the exact condition on a datagram for all four
  stages to stay inside it.
-/
import Neptun.Endpoint

namespace Neptun

/-- A byte outside a span is read, or a span is advanced past its end. -/
def MemoryFault (f : Fault) : Prop := f = .load ∨ f = .advance

@[simp] theorem memoryFault_load : MemoryFault .load := Or.inl rfl

@[simp] theorem memoryFault_advance : MemoryFault .advance := Or.inr rfl

@[simp] theorem not_memoryFault_assertion (a : Assertion) : ¬ MemoryFault (.assertion a) := by
  simp [MemoryFault]

/-! ### Calls that read no datagram -/

theorem ConnectionManager.status_inside (c : ConnectionManager) (id : PacketId)
    (status : PacketDeliveryStatus) :
    (c.onPacketStatusDelivery id status).Avoids MemoryFault :=
  avoids_status (by simp [MemoryFault]) c id status

theorem ReliableStream.status_inside (s : ReliableStream) (id : PacketId)
    (status : PacketDeliveryStatus) :
    (s.onPacketDeliveryStatus id status).Avoids MemoryFault := by
  cases status <;>
    simp [onPacketDeliveryStatus, Checked.avoids_bind, Checked.avoids_check,
      Checked.avoids_pure, avoids_ackLoop]

theorem Peer.processDeliveryStatuses_avoids (p : Peer) (statuses : DeliveryStatuses) :
    (p.processDeliveryStatuses statuses).Avoids MemoryFault := by
  induction statuses generalizing p with
  | nil => exact Checked.avoids_pure _
  | cons s statuses ih =>
    rw [processDeliveryStatuses, Checked.avoids_bind, Checked.avoids_bind]
    exact ⟨ConnectionManager.status_inside _ _ _, ReliableStream.status_inside _ _ _, ih _⟩

/-! ### The streams -/

/-- A message is validated without leaving the span, and lies in the span if it
is valid. -/
theorem validateSize_inside {minimumSize lengthOffset : ℕ} (h : lengthOffset + 2 ≤ minimumSize)
    (b : Span) (mem : Memory) :
    (validateSize minimumSize lengthOffset b mem).Avoids MemoryFault ∧
    ∀ size, (validateSize minimumSize lengthOffset b mem).val = .ok size →
      minimumSize ≤ size ∧ size ≤ b.size := by
  rw [validateSize]
  split
  · exact ⟨Checked.avoids_pure _, by simp⟩
  · next hsize =>
    constructor
    · rw [Checked.avoids_bind, avoids_readU16]
      refine ⟨fun _ => by omega, ?_⟩
      dsimp only
      split <;> exact Checked.avoids_pure _
    · simp only [Checked.val_bind, Checked.val_ite, Checked.val_pure]
      split
      · simp
      · next htotal =>
        push Not at htotal
        intro size heq
        rw [← Except.ok.inj heq]
        exact ⟨Nat.le_add_right _ _, htotal.1⟩

/-- The loop of `ReliableStream::read` never leaves the span, and neither does
the count it returns. -/
theorem ReliableStream.readLoop_inside (b : Span) (mem : Memory) (n idx : ℕ) (expected : UInt32)
    (hidx : idx ≤ b.size) :
    (readLoop b mem n idx expected).Avoids MemoryFault ∧
    ∀ count, (readLoop b mem n idx expected).val.2.2 = .ok count → count ≤ b.size := by
  -- by induction on the messages that the segment header announces; `idx ≤ b.size` is kept
  -- because `validate_size` compares the length of a message with what is left
  induction n generalizing idx expected with
  | zero =>
    refine ⟨Checked.avoids_pure _, fun count hcount => ?_⟩
    rw [← Except.ok.inj hcount]
    exact hidx
  | succ n ih =>
    obtain ⟨hvalidate, hok⟩ := validateSize_inside (by decide : 4 + 2 ≤ 4 + 2)
      ⟨b.off + idx, usizeSub b.size idx⟩ mem
    rw [usizeSub_of_le hidx] at hvalidate hok
    rw [readLoop]
    simp only [Checked.avoids_bind, avoids_advance, Checked.val_bind, val_advance,
      usizeSub_of_le hidx, ReliableMessage.validateSize, ReliableMessage.kLengthOffset,
      ReliableMessage.kSequenceNumberOffset, Nat.zero_add]
    cases hval : (validateSize (4 + 2) 4 ⟨b.off + idx, b.size - idx⟩ mem).val with
    | error e =>
      exact ⟨⟨fun _ => hidx, hvalidate, Checked.avoids_pure _⟩, by simp⟩
    | ok size =>
      obtain ⟨hmin, hmax⟩ := hok size hval
      dsimp only at hmax
      have hnext : idx + size ≤ b.size := by omega
      obtain ⟨hrest, hcount⟩ := ih (idx + size) expected hnext
      obtain ⟨hrest', hcount'⟩ := ih (idx + size) (expected + 1) hnext
      simp only [Checked.avoids_bind, Checked.avoids_ite, Checked.val_bind,
        ReliableMessage.sequenceNumber, ReliableMessage.payload, ReliableMessage.length,
        ReliableMessage.kLengthOffset, ReliableMessage.kSequenceNumberOffset, avoids_readU32,
        avoids_readU16, Checked.avoids_pure]
      -- a message out of order is skipped, but its bytes count all the same
      refine ⟨⟨fun _ => hidx, hvalidate, fun _ => by omega,
        fun _ => ⟨⟨fun _ => by omega, trivial⟩, hrest', trivial⟩, fun _ => hrest⟩,
        fun count h => ?_⟩
      split at h
      · exact hcount' count h
      · exact hcount count h

theorem ReliableStream.read_inside (s : ReliableStream) (b : Span) (mem : Memory) :
    (s.read b mem).Avoids MemoryFault ∧
    ∀ count, (s.read b mem).val.2.2 = .ok count → count ≤ b.size := by
  rw [read]
  by_cases hsize : Segment.kSerializedSize > b.size
  · rw [if_pos hsize]
    exact ⟨Checked.avoids_pure _, fun count h => Except.ok.inj h ▸ Nat.zero_le _⟩
  · rw [if_neg hsize]
    -- the segment header fits, and the loop starts behind it
    have h2 : 2 ≤ b.size := Nat.not_lt.mp hsize
    simp only [Checked.avoids_bind, Checked.avoids_ite, Checked.val_bind, Checked.val_ite,
      Segment.managerType, Segment.messageCount, avoids_readU8, Segment.kManagerTypeOffset,
      Segment.kMessageCountOffset, Checked.avoids_pure]
    obtain ⟨hloop, hcount⟩ := readLoop_inside b mem (readU8 b mem (0 + 1)).val.toNat
      Segment.kSerializedSize s.nextExpectedSequenceNumber h2
    refine ⟨⟨fun _ => by omega, fun _ => trivial, fun _ => ⟨fun _ => by omega, hloop, trivial⟩⟩,
      fun count h => ?_⟩
    split at h
    · exact Except.ok.inj h ▸ Nat.zero_le _
    · exact hcount count h

/-- The loop of `UnreliableStream::read`. -/
theorem UnreliableStream.readLoop_inside (b : Span) (mem : Memory) (n idx : ℕ)
    (hidx : idx ≤ b.size) :
    (readLoop b mem n idx).Avoids MemoryFault ∧
    ∀ count, (readLoop b mem n idx).val.2 = .ok count → count ≤ b.size := by
  induction n generalizing idx with
  | zero =>
    refine ⟨Checked.avoids_pure _, fun count hcount => ?_⟩
    rw [← Except.ok.inj hcount]
    exact hidx
  | succ n ih =>
    obtain ⟨hvalidate, hok⟩ := validateSize_inside (by decide : 0 + 2 ≤ 2)
      ⟨b.off + idx, usizeSub b.size idx⟩ mem
    rw [usizeSub_of_le hidx] at hvalidate hok
    rw [readLoop]
    simp only [Checked.avoids_bind, avoids_advance, Checked.val_bind, val_advance,
      usizeSub_of_le hidx, UnreliableMessage.validateSize, UnreliableMessage.kLengthOffset]
    cases hval : (validateSize 2 0 ⟨b.off + idx, b.size - idx⟩ mem).val with
    | error e =>
      exact ⟨⟨fun _ => hidx, hvalidate, Checked.avoids_pure _⟩, by simp⟩
    | ok size =>
      obtain ⟨hmin, hmax⟩ := hok size hval
      dsimp only at hmax
      have hnext : idx + size ≤ b.size := by omega
      obtain ⟨hrest, hcount⟩ := ih (idx + size) hnext
      simp only [Checked.avoids_bind, Checked.val_bind, UnreliableMessage.payload,
        UnreliableMessage.length, UnreliableMessage.kLengthOffset, avoids_readU16,
        Checked.avoids_pure]
      exact ⟨⟨fun _ => hidx, hvalidate, ⟨fun _ => by omega, trivial⟩, hrest, trivial⟩, hcount⟩

theorem UnreliableStream.read_inside (b : Span) (mem : Memory) :
    (UnreliableStream.read b mem).Avoids MemoryFault ∧
    ∀ count, (UnreliableStream.read b mem).val.2 = .ok count → count ≤ b.size := by
  rw [UnreliableStream.read]
  by_cases hsize : Segment.kSerializedSize > b.size
  · rw [if_pos hsize]
    exact ⟨Checked.avoids_pure _, fun count h => Except.ok.inj h ▸ Nat.zero_le _⟩
  · rw [if_neg hsize]
    have h2 : 2 ≤ b.size := Nat.not_lt.mp hsize
    simp only [Checked.avoids_bind, Checked.avoids_ite, Checked.val_bind, Checked.val_ite,
      Segment.managerType, Segment.messageCount, avoids_readU8, Segment.kManagerTypeOffset,
      Segment.kMessageCountOffset, Checked.avoids_pure]
    obtain ⟨hloop, hcount⟩ := readLoop_inside b mem (readU8 b mem (0 + 1)).val.toNat
      Segment.kSerializedSize h2
    refine ⟨⟨fun _ => by omega, fun _ => trivial, fun _ => ⟨fun _ => by omega, hloop⟩⟩,
      fun count h => ?_⟩
    split at h
    · exact Except.ok.inj h ▸ Nat.zero_le _
    · exact hcount count h

namespace Peer

/-- The stream stages stay inside their span, whatever the bytes are. -/
theorem readStreams_avoids (config : ConnectionManagerConfig) (p : Peer)
    (limit : BandwidthLimit) (b : Span) (mem : Memory) (report : ReadReport) :
    (readStreams config p limit b mem report).Avoids MemoryFault := by
  rw [readStreams]
  -- the ticker is set before the streams read, and is no part of the span
  generalize (if limit.maxReadPacketRate = 0 then _ else _ : Peer) = p
  obtain ⟨hreliable, hcount⟩ := p.reliableStream.read_inside b mem
  rw [Checked.avoids_bind]
  refine ⟨hreliable, ?_⟩
  dsimp only
  cases hval : (p.reliableStream.read b mem).val.2.2 with
  | error e => exact Checked.avoids_pure _
  | ok count =>
    have hle := hcount count hval
    obtain ⟨hunreliable, hcount'⟩ := UnreliableStream.read_inside
      ⟨b.off + count, b.size - count⟩ mem
    simp only [Checked.avoids_bind, avoids_advance, val_advance, usizeSub_of_le hle]
    refine ⟨fun _ => hle, hunreliable, ?_⟩
    cases hval' : (UnreliableStream.read ⟨b.off + count, b.size - count⟩ mem).val.2 with
    | error e => exact Checked.avoids_pure _
    | ok count' =>
      simp only [Checked.avoids_bind, avoids_advance]
      exact ⟨fun _ => hcount' count' hval', Checked.avoids_pure _⟩

/-- The connection manager stage, and the streams behind it. -/
theorem readConnection_avoids_iff (config : ConnectionManagerConfig) (p : Peer) (b : Span)
    (mem : Memory) (report : ReadReport) :
    (readConnection config p b mem report).Avoids MemoryFault ↔
      (2 ≤ b.size → mem b.off = 0 → mem (b.off + 1) = 1 → 3 ≤ b.size ∧
        (mem (b.off + 2) = 0 → 9 ≤ b.size ∧
          ((ConnectionManager.limitAt mem (b.off + 3)).maxSendPacketSize ≥ 100
            → 10 ≤ b.size))) := by
  rw [readConnection, Checked.avoids_bind, ConnectionManager.avoids_read memoryFault_load,
    ConnectionManager.val_read]
  by_cases hnone : b.size < 2 ∨ mem b.off ≠ 0
  · -- no handshake
    rw [if_pos hnone]
    dsimp only
    rw [Checked.avoids_bind, avoids_advance]
    have hno : 2 ≤ b.size → mem b.off = 0 → False := by
      intro hsize hzero
      rcases hnone with h | h
      · omega
      · exact h hzero
    refine iff_of_true
      ⟨fun hsize hzero => (hno hsize hzero).elim, fun _ => Nat.zero_le _, ?_⟩
      fun hsize hzero => (hno hsize hzero).elim
    split
    · exact Checked.avoids_pure _
    · exact readStreams_avoids _ _ _ _ _ _
  rw [if_neg hnone]
  by_cases hone : mem (b.off + 1) = 1
  · rw [if_neg (not_not.mpr hone)]
    push Not at hnone
    by_cases hzero : mem (b.off + 2) = 0
    · rw [if_pos hzero]
      dsimp only
      rw [Checked.avoids_bind, avoids_advance]
      constructor
      · rintro ⟨hmanager, h9, -⟩ hsize h0 h1
        obtain ⟨h3, hbody⟩ := hmanager hsize h0 h1
        exact ⟨h3, fun _ => ⟨h9 memoryFault_advance, (hbody hzero).2⟩⟩
      · intro h
        obtain ⟨h3, hbody⟩ := h hnone.1 hnone.2 hone
        obtain ⟨h9, h10⟩ := hbody hzero
        refine ⟨fun _ _ _ => ⟨h3, fun _ => ⟨by omega, h10⟩⟩, fun _ => h9, ?_⟩
        -- the streams are safe behind any result of the connection manager
        split
        · exact Checked.avoids_pure _
        · exact readStreams_avoids _ _ _ _ _ _
    -- an answer, or a type that is none: nothing behind it is read
    · rw [if_neg hzero]
      simp only [hzero, false_imp_iff, and_true]
      refine and_iff_left ?_
      by_cases hreject : mem (b.off + 2) = 1
      · rw [if_pos hreject]
        exact Checked.avoids_pure _
      · rw [if_neg hreject]
        exact Checked.avoids_pure _
  -- the segment announces another number of messages than one, and is rejected
  · rw [if_pos hone]
    refine iff_of_true ⟨fun _ _ h => absurd h hone, Checked.avoids_pure _⟩ ?_
    exact fun _ _ h => absurd h hone

/-- All four stages, for a span that holds the whole datagram. -/
theorem read_avoids_iff (config : ConnectionManagerConfig) (p : Peer) (b : Span)
    (mem : Memory) :
    (read config p b mem).Avoids MemoryFault ↔
      12 ≤ b.size ∧
      (¬ (PacketHeader.readId b mem).val < p.packetDeliveryManager.nextExpectedPacketId →
        14 ≤ b.size → mem (b.off + 12) = 0 → mem (b.off + 13) = 1 → 15 ≤ b.size ∧
        (mem (b.off + 14) = 0 → 21 ≤ b.size ∧
          ((ConnectionManager.limitAt mem (b.off + 15)).maxSendPacketSize ≥ 100
            → 22 ≤ b.size))) := by
  -- the header is read without any check
  have hheader : (PacketHeader.read b mem).Avoids MemoryFault ↔ 12 ≤ b.size := by
    simp only [PacketHeader.read, PacketHeader.readAckSequenceNumber,
      PacketHeader.readAckBitmask, PacketHeader.readId, PacketHeader.kIdOffset,
      PacketHeader.kAckSequenceNumberOffset, PacketHeader.kAckBitmaskOffset,
      Checked.avoids_bind, avoids_readU32, memoryFault_load, forall_const, Checked.avoids_pure,
      and_true]
    omega
  rw [read, Checked.avoids_bind, hheader]
  refine and_congr_right fun h12 => ?_
  rw [Checked.avoids_bind, and_iff_right (PacketDeliveryManager.avoids_processRead (by simp)
    (by simp) _ _)]
  have hid : (PacketHeader.read b mem).val.id = (PacketHeader.readId b mem).val := rfl
  rcases PacketDeliveryManager.processRead_cases p.packetDeliveryManager
    (PacketHeader.read b mem).val with ⟨hcount, hlt, -⟩ | ⟨hcount, hge, -⟩
  · -- the packet is ignored
    rw [hid] at hlt
    simp only [hcount, ite_true]
    exact iff_of_true (Checked.avoids_pure _) fun h => absurd hlt h
  -- the span behind the header, with the offsets of the datagram
  · rw [hid] at hge
    simp only [hcount, OfNat.ofNat_ne_zero, ite_false]
    rw [Checked.avoids_bind, avoids_advance, Checked.avoids_bind,
      and_iff_right (processDeliveryStatuses_avoids _ _), readConnection_avoids_iff, val_advance,
      usizeSub_of_le h12, and_iff_right fun _ => h12]
    simp only [hge, not_false_eq_true, forall_const, Nat.add_assoc, Nat.reduceAdd,
      (by omega : 2 ≤ b.size - 12 ↔ 14 ≤ b.size), (by omega : 3 ≤ b.size - 12 ↔ 15 ≤ b.size),
      (by omega : 9 ≤ b.size - 12 ↔ 21 ≤ b.size), (by omega : 10 ≤ b.size - 12 ↔ 22 ≤ b.size)]

end Peer

/-! ### Datagrams -/

/-- The packet id in the header of a datagram. -/
def datagramId (payload : List UInt8) : PacketId := UInt32.ofNat (beDecode (payload.take 4))

/-- The packet id that an endpoint expects next from a sender. -/
def Endpoint.expectedFrom (n : Endpoint) (sender : IpAddress) : PacketId :=
  match n.peers.find sender with
  | some p => p.packetDeliveryManager.nextExpectedPacketId
  | none => 0

/-- The bytes behind the header of a datagram are not a handshake that is cut
off: behind a segment header of the connection manager there is a message type,
and behind the type of a `LetsConnect` all the bytes that are read of it.  The
last one is only read if `max_send_packet_size` passes the check. -/
def CompleteHandshake (rest : List UInt8) : Prop :=
  rest[0]? = some 0 → rest[1]? = some 1 → 3 ≤ rest.length ∧
    (rest[2]? = some 0 → 9 ≤ rest.length ∧
      (100 ≤ beDecode ((rest.drop 6).take 2) → 10 ≤ rest.length))

theorem Endpoint.findOrCreatePeer_expected (n : Endpoint) (sender : IpAddress) (now : ℤ) :
    (n.findOrCreatePeer 0 sender now).2.packetDeliveryManager.nextExpectedPacketId
      = n.expectedFrom sender := by
  rw [findOrCreatePeer, expectedFrom]
  cases n.peers.find sender <;> rfl

theorem Endpoint.findOrCreatePeer_networkBuffer (n : Endpoint) (id : PacketId)
    (sender : IpAddress) (now : ℤ) :
    (n.findOrCreatePeer id sender now).1.networkBuffer = n.networkBuffer := by
  rw [findOrCreatePeer]
  cases n.peers.find sender <;> rfl

/-- The bytes of a datagram in the network buffer. -/
theorem storeList_eq_iff (mem : Memory) (payload : List UInt8) {i : ℕ} (hi : i < payload.length)
    (byte : UInt8) : mem.storeList 0 payload i = byte ↔ payload[i]? = some byte := by
  have hslice := Memory.slice_storeList_self mem 0 payload
  have hget : payload[i]? = some (mem.storeList 0 payload i) := by
    conv_lhs => rw [← hslice]
    rw [Memory.getElem?_slice hi, Nat.zero_add]
  rw [hget, Option.some_inj]

theorem slice_storeList_eq (mem : Memory) (payload : List UInt8) {i k : ℕ}
    (h : i + k ≤ payload.length) :
    (mem.storeList 0 payload).slice i k = (payload.drop i).take k := by
  have hslice := Memory.slice_storeList_self mem 0 payload
  rw [show payload.length = i + (k + (payload.length - (i + k))) by omega, Memory.slice_add,
    Memory.slice_add, Nat.zero_add] at hslice
  conv_rhs => rw [← hslice]
  rw [List.drop_left' (by simp), List.take_left' (by simp)]

/-- The size that is checked first, if it is in the datagram. -/
theorem maxSendPacketSize_storeList {payload : List UInt8} (h20 : 20 ≤ payload.length)
    (mem : Memory) :
    (ConnectionManager.limitAt (mem.storeList 0 payload) 15).maxSendPacketSize ≥ 100
      ↔ ¬ beDecode ((payload.drop 18).take 2) < 100 := by
  have hlt := beDecode_lt ((payload.drop 18).take 2)
  have htwo : ((payload.drop 18).take 2).length = 2 := by
    rw [List.length_take, List.length_drop]
    omega
  rw [htwo] at hlt
  rw [ge_iff_le, UInt16.le_iff_toNat_le, ConnectionManager.limitAt]
  dsimp only
  rw [slice_storeList_eq _ _ (by omega), UInt16.toNat_ofNat_of_lt' hlt, Nat.not_lt]
  rfl

/-- **Memory-bounded parsing**, exactly as far as the code has it: reading a
datagram stays inside of it iff it has a whole header and, unless it is ignored
as too old, no handshake that is cut off. -/
theorem read_inside_datagram_iff (n : Endpoint) (now : ℤ) (sender : IpAddress)
    (payload : List UInt8) (hlength : payload.length ≤ kJustAboveMtu) :
    (n.read now (some (sender, payload))).Avoids MemoryFault ↔
      12 ≤ payload.length ∧
      (¬ datagramId payload < n.expectedFrom sender → CompleteHandshake (payload.drop 12)) := by
  rw [Endpoint.read, List.take_of_length_le hlength]
  dsimp only
  rw [Checked.avoids_bind, and_iff_left (Checked.avoids_pure _), Peer.read_avoids_iff,
    Endpoint.findOrCreatePeer_expected, Endpoint.findOrCreatePeer_networkBuffer]
  refine and_congr_right fun (h12 : 12 ≤ payload.length) => ?_
  set mem := n.networkBuffer.storeList 0 payload with hmem
  have hid : (PacketHeader.readId ⟨0, payload.length⟩ mem).val = datagramId payload := by
    rw [PacketHeader.readId, val_readU32, datagramId]
    simp only [PacketHeader.kIdOffset, Nat.add_zero]
    rw [slice_storeList_eq _ _ (by omega), List.drop_zero]
  have hexpected : Endpoint.expectedFrom { n with networkBuffer := mem } sender
      = n.expectedFrom sender := rfl
  have hbyte : ∀ i < payload.length, ∀ byte, mem i = byte ↔ payload[i]? = some byte :=
    fun i hi byte => storeList_eq_iff _ _ hi byte
  rw [hid, hexpected]
  simp only [CompleteHandshake, List.getElem?_drop, List.length_drop, List.drop_drop,
    Nat.add_zero, Nat.zero_add, Nat.reduceAdd]
  refine forall_congr' fun _ => ⟨fun h h0 h1 => ?_, fun h h14 h0 h1 => ?_⟩
  · have h14 : 13 < payload.length := (List.getElem?_eq_some_iff.mp h1).1
    obtain ⟨h15, hbody⟩ := h h14 ((hbyte 12 (by omega) 0).mpr h0) ((hbyte 13 h14 1).mpr h1)
    refine ⟨by omega, fun h2 => ?_⟩
    obtain ⟨h21, hlast⟩ := hbody ((hbyte 14 h15 0).mpr h2)
    refine ⟨by omega, fun h100 => ?_⟩
    have := hlast ((maxSendPacketSize_storeList (by omega) _).mpr (Nat.not_lt.mpr h100))
    omega
  · obtain ⟨h15, hbody⟩ := h ((hbyte 12 (by omega) 0).mp h0) ((hbyte 13 h14 1).mp h1)
    refine ⟨by omega, fun h2 => ?_⟩
    obtain ⟨h21, hlast⟩ := hbody ((hbyte 14 (by omega) 0).mp h2)
    refine ⟨by omega, fun h100 => ?_⟩
    have := hlast (Nat.not_lt.mp ((maxSendPacketSize_storeList (by omega) _).mp h100))
    omega

/-- A header alone is read without leaving the datagram. -/
theorem read_inside_datagram_header :
    let n : Endpoint := {
      packetTimeout := 5000
      connectionManagerConfig := ⟨0, ⟨0, 1400, 0, 1400⟩⟩ }
    (n.read 0 (some (⟨1, 1⟩, List.replicate 12 0))).Avoids MemoryFault := by
  intro n
  refine (read_inside_datagram_iff n 0 ⟨1, 1⟩ (List.replicate 12 0) (by decide)).mpr
    ⟨by decide, fun _ => ?_⟩
  intro h
  exact absurd h (by decide)

/-- A datagram of one byte, and the packet that an endpoint sends when it
connects: a header and a handshake of nine bytes. -/
theorem read_outside_datagram :
    let n : Endpoint := {
      packetTimeout := 5000
      connectionManagerConfig := ⟨0, ⟨0, 1400, 0, 1400⟩⟩ }
    let handshake : List UInt8 := List.replicate 12 0 ++ [0, 1, 0, 0, 0, 0, 5, 120, 5]
    ¬ (n.read 0 (some (⟨1, 1⟩, [0]))).Avoids MemoryFault ∧
      ¬ (n.read 0 (some (⟨1, 1⟩, handshake))).Avoids MemoryFault := by
  intro n handshake
  constructor
  · intro h
    exact h .load (by decide +kernel) memoryFault_load
  · intro h
    exact h .load (by decide +kernel) memoryFault_load

end Neptun
