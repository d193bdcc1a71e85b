/-
Two reliable streams over an unreliable network.

A `ChannelNode` is a `PacketDeliveryManager` and a `ReliableStream`, wired as in
`write_to_peer` and `read`, except that the statuses of every header are handed
to the stream.  Packets are byte lists; the network may lose, duplicate, delay
and reorder them.

`Direction` is the invariant of one direction of the channel.  It combines what
the parts guarantee (`AckLink`, `Numbered`, `Represents`) with the `Window`
between the sender and the receiver; a trace records what the packets were when
they were written, and which of them the other side has accepted.

* `reliable_fifo` — what has been received is a prefix of what was sent, what an
  acknowledgement consumes has been received, and the sender still holds
  everything else.
-/
import Neptun.AckSoundness
import Neptun.ReliableBuffer
import Neptun.ReliableSegment
import Neptun.Library.Window

namespace Neptun

/-- One end of a channel and its past: the payloads given to `send`, the number
of messages consumed because of ACKs, the payloads given to the callback and the
packets written. -/
structure ChannelNode where
  delivery : PacketDeliveryManager
  stream : ReliableStream := {}
  networkBuffer : Memory := fun _ => 0
  sent : List (List UInt8) := []
  consumed : ℕ := 0
  received : List (List UInt8) := []
  packets : List (List UInt8) := []

inductive ChannelCall
  | send (fn : WriteToBufferFn)
  | write (now : ℤ) (size : ℕ)
  | dropOldPackets (now : ℤ)
  | read (packet : List UInt8)

namespace ChannelNode

def send (n : ChannelNode) (fn : WriteToBufferFn) : ChannelNode :=
  { n with stream := (n.stream.send fn).val, sent := n.stream.sentAfter fn n.sent }

/-- A packet of at most `size` bytes. -/
def write (n : ChannelNode) (now : ℤ) (size : ℕ) : Checked Fault ChannelNode := do
  let buffer : Span := ⟨0, size⟩
  let (delivery, mem, packetHeaderCount) ← n.delivery.write buffer n.networkBuffer now
  let packetId ← PacketHeader.readId ⟨buffer.off, packetHeaderCount⟩ mem
  let buffer ← advance buffer packetHeaderCount
  let (stream, mem, reliableStreamCount) ← n.stream.write packetId buffer mem
  let payload := mem.slice 0 (packetHeaderCount + reliableStreamCount)
  pure { n with
    delivery := delivery
    stream := stream
    networkBuffer := mem
    packets := n.packets ++ [payload] }

def processDeliveryStatuses : ChannelNode → DeliveryStatuses → ChannelNode
  | n, [] => n
  | n, (packetId, status) :: statuses =>
    processDeliveryStatuses { n with
      stream := (n.stream.onPacketDeliveryStatus packetId status).val
      consumed := n.stream.ackedAfter packetId status n.consumed } statuses

def dropOldPackets (n : ChannelNode) (now : ℤ) : ChannelNode :=
  let (delivery, statuses) := n.delivery.dropOldPackets now
  processDeliveryStatuses { n with delivery := delivery } statuses

def read (n : ChannelNode) (packet : List UInt8) : Checked Fault ChannelNode := do
  let payload := packet.take kJustAboveMtu
  let mem := n.networkBuffer.storeList 0 payload
  let b : Span := ⟨0, payload.length⟩
  let header ← PacketHeader.read b mem
  let (delivery, readCount, statuses, _) ← n.delivery.processRead header
  let n := processDeliveryStatuses { n with delivery := delivery, networkBuffer := mem } statuses
  if readCount = 0 then
    pure n
  else
    let b ← advance b readCount
    let (stream, payloads, _) ← n.stream.read b mem
    pure { n with stream := stream, received := n.received ++ payloads }

def next (n : ChannelNode) : ChannelCall → ChannelNode
  | .send fn => n.send fn
  | .write now size => (n.write now size).val
  | .dropOldPackets now => n.dropOldPackets now
  | .read packet => (n.read packet).val

/-- The packets that the messages in flight went with. -/
def tags (n : ChannelNode) : List PacketId := n.stream.inFlightMessages.map (·.packetId)

/-- What a write does: the packet has the next header and the messages that fit
behind it. -/
theorem val_write (n : ChannelNode) (now : ℤ) {size : ℕ} (hsize : 12 ≤ size) :
    let header := (n.delivery.nextHeader now).val.2
    let taken := n.stream.pendingMessages.take (n.stream.fitCount (size - 12))
    ∃ mem, (n.write now size).val = { n with
      delivery := (n.delivery.nextHeader now).val.1
      stream := { n.stream with
        pendingMessages := n.stream.pendingMessages.drop (n.stream.fitCount (size - 12))
        inFlightMessages := n.stream.inFlightMessages
          ++ taken.map (InFlightMessage.mk header.id) }
      networkBuffer := mem
      packets := n.packets ++ [header.encode
        ++ encodeSegment (taken.map (ReliableStream.toWire n.stream.buffer))] } := by
  intro header taken
  have hheader : (n.networkBuffer.storeList 0 header.encode).slice 0 12 = header.encode := by
    have := Memory.slice_storeList_self n.networkBuffer 0 header.encode
    rwa [PacketHeader.length_encode] at this
  have hid : (PacketHeader.readId ⟨0, 12⟩ (n.networkBuffer.storeList 0
      (n.delivery.nextHeader now).val.2.encode)).val = header.id := PacketHeader.val_readId hheader
  refine ⟨(n.networkBuffer.storeList 0 header.encode).storeList 12
    (encodeSegment (taken.map (ReliableStream.toWire n.stream.buffer))), ?_⟩
  rw [write]
  simp only [Checked.val_bind, Checked.val_pure, PacketDeliveryManager.val_write, val_advance,
    usizeSub_of_le hsize, ReliableStream.val_write,
    ReliableStream.write_state, Nat.zero_add]
  rw [Memory.slice_add, Memory.slice_storeList_of_disjoint (Or.inl (by omega)), hheader,
    Nat.zero_add, Memory.slice_storeList_self, hid]

/-- Statuses change the stream only, and not what it expects to receive. -/
theorem processDeliveryStatuses_frame (n : ChannelNode) (statuses : DeliveryStatuses) :
    ∃ stream consumed, n.processDeliveryStatuses statuses
        = { n with stream := stream, consumed := consumed } ∧
      stream.nextExpectedSequenceNumber = n.stream.nextExpectedSequenceNumber := by
  induction statuses generalizing n with
  | nil => exact ⟨n.stream, n.consumed, rfl, rfl⟩
  | cons s statuses ih =>
    obtain ⟨p, status⟩ := s
    obtain ⟨stream, consumed, hval, hexpected⟩ := ih { n with
      stream := (n.stream.onPacketDeliveryStatus p status).val
      consumed := n.stream.ackedAfter p status n.consumed }
    exact ⟨stream, consumed, hval,
      hexpected.trans (ReliableStream.status_nextExpected n.stream p status)⟩

theorem dropOldPackets_frame (n : ChannelNode) (now : ℤ) :
    ∃ stream consumed, n.dropOldPackets now = { n with
        delivery := (n.delivery.dropOldPackets now).1
        stream := stream
        consumed := consumed } ∧
      stream.nextExpectedSequenceNumber = n.stream.nextExpectedSequenceNumber :=
  processDeliveryStatuses_frame _ _

/-- What has been sent, and the packets, only grow. -/
theorem lengths_le (n : ChannelNode) (call : ChannelCall) :
    n.sent.length ≤ (n.next call).sent.length ∧
      n.packets.length ≤ (n.next call).packets.length := by
  cases call with
  | send fn =>
    refine ⟨?_, Nat.le_refl _⟩
    show _ ≤ (n.stream.sentAfter fn n.sent).length
    rw [ReliableStream.sentAfter]
    split
    · exact Nat.le_refl _
    · rw [List.length_append]
      exact Nat.le_add_right _ _
  | write now size =>
    refine ⟨Nat.le_refl _, ?_⟩
    show _ ≤ (n.packets ++ [_]).length
    rw [List.length_append]
    exact Nat.le_add_right _ _
  | dropOldPackets now =>
    obtain ⟨stream, consumed, hframe, -⟩ := n.dropOldPackets_frame now
    rw [next, hframe]
    exact ⟨Nat.le_refl _, Nat.le_refl _⟩
  | read packet =>
    rw [next, read]
    simp only [Checked.val_bind]
    set header := (PacketHeader.read _ _).val with hheader
    obtain ⟨stream, consumed, hframe, -⟩ := processDeliveryStatuses_frame { n with
      delivery := (n.delivery.processRead header).val.1
      networkBuffer := n.networkBuffer.storeList 0 (packet.take kJustAboveMtu) }
      (n.delivery.processRead header).val.2.2.1
    rw [hframe]
    split <;> exact ⟨Nat.le_refl _, Nat.le_refl _⟩

/-- The node after the header of a packet has been processed. -/
def readHeader (n : ChannelNode) (header : PacketHeader) (mem : Memory) : ChannelNode :=
  processDeliveryStatuses { n with
    delivery := (n.delivery.processRead header).val.1
    networkBuffer := mem } (n.delivery.processRead header).val.2.2.1

theorem readHeader_frame (n : ChannelNode) (header : PacketHeader) (mem : Memory) :
    ∃ stream consumed, n.readHeader header mem = { n with
        delivery := (n.delivery.processRead header).val.1
        networkBuffer := mem
        stream := stream
        consumed := consumed } ∧
      stream.nextExpectedSequenceNumber = n.stream.nextExpectedSequenceNumber :=
  processDeliveryStatuses_frame _ _

/-- What a read does with a packet that consists of a header and a segment. -/
theorem val_read (n : ChannelNode) {header : PacketHeader} {msgs : List WireMessage}
    (hcount : msgs.length < 2 ^ 8) (hfits : ∀ msg ∈ msgs, msg.Fits)
    (hshort : (header.encode ++ encodeSegment msgs).length ≤ kJustAboveMtu) :
    ∃ mem, (n.read (header.encode ++ encodeSegment msgs)).val =
      if (n.delivery.processRead header).val.2.1 = 0 then n.readHeader header mem
      else { n.readHeader header mem with
        stream := { (n.readHeader header mem).stream with
          nextExpectedSequenceNumber := (receive n.stream.nextExpectedSequenceNumber msgs).1 }
        received := n.received ++ (receive n.stream.nextExpectedSequenceNumber msgs).2 } := by
  set packet := header.encode ++ encodeSegment msgs with hpacket
  set mem := n.networkBuffer.storeList 0 packet with hmem
  have hslice := Memory.slice_storeList_self n.networkBuffer 0 packet
  rw [← hmem, hpacket] at hslice
  -- the header lies in the first twelve bytes, the segment behind it
  obtain ⟨hhead, htail⟩ := Memory.slice_eq_of_append hslice
  rw [PacketHeader.length_encode] at hhead htail
  have hheader : (PacketHeader.read ⟨0, packet.length⟩ mem).val = header :=
    PacketHeader.val_read hhead
  have hlength : packet.length = 12 + (encodeSegment msgs).length := by
    rw [hpacket, List.length_append, PacketHeader.length_encode]
  obtain ⟨stream, consumed, hframe, hexpected⟩ := n.readHeader_frame header mem
  refine ⟨mem, ?_⟩
  rw [read, List.take_of_length_le hshort]
  simp only [Checked.val_bind, ← hmem, hheader]
  rw [readHeader] at hframe ⊢
  by_cases hcount0 : (n.delivery.processRead header).val.2.1 = 0
  · rw [if_pos hcount0, if_pos hcount0]
    rfl
  · have hcount12 : (n.delivery.processRead header).val.2.1 = 12 := by
      rcases PacketDeliveryManager.processRead_cases n.delivery header with ⟨h, -⟩ | ⟨h, -⟩
      · exact absurd h hcount0
      · exact h
    rw [if_neg hcount0, if_neg hcount0, hcount12, hframe]
    have hread := stream.val_read_exact (b := ⟨0 + 12, (encodeSegment msgs).length⟩) hcount hfits
      rfl htail
    rw [hexpected] at hread
    simp only [Checked.val_bind, Checked.val_pure, val_advance, hlength,
      usizeSub_of_le (Nat.le_add_right 12 _), Nat.add_sub_cancel_left, hread]

end ChannelNode

/-- The runs of a channel.  A packet has room for its header and stays below the
MTU; a side reads what the other side has written, in any order and any number
of times. -/
def channel (nextExpectedPacketId : Side → PacketId) (packetTimeout : Side → ℤ) :
    System (Side → ChannelNode) (Side × ChannelCall) where
  init s := s = fun side => { delivery := {
    packetTimeout := packetTimeout side
    nextExpectedPacketId := nextExpectedPacketId side } }
  enabled s call := match call.2 with
    | .write _ size => PacketHeader.kSerializedSize ≤ size ∧ size ≤ kJustBelowMtu.toNat
    | .read packet => packet ∈ (s call.1.other).packets
    | _ => True
  next s call := Side.set s call.1 ((s call.1).next call.2)

/-! ### Numbered messages -/

/-- The payloads with their sequence numbers. -/
def numberFrom : ℕ → List (List UInt8) → List WireMessage
  | _, [] => []
  | seq, payload :: payloads => (UInt32.ofNat seq, payload) :: numberFrom (seq + 1) payloads

@[simp] theorem length_numberFrom (seq : ℕ) (payloads : List (List UInt8)) :
    (numberFrom seq payloads).length = payloads.length := by
  induction payloads generalizing seq with
  | nil => rfl
  | cons payload payloads ih => rw [numberFrom, List.length_cons, ih, List.length_cons]

theorem mem_of_mem_numberFrom {seq : ℕ} {payloads : List (List UInt8)} {msg : WireMessage}
    (h : msg ∈ numberFrom seq payloads) : msg.2 ∈ payloads := by
  induction payloads generalizing seq with
  | nil => simp [numberFrom] at h
  | cons payload payloads ih =>
    rcases List.mem_cons.mp h with rfl | h
    · exact List.mem_cons_self
    · exact List.mem_cons_of_mem _ (ih h)

theorem numberFrom_drop (seq : ℕ) (payloads : List (List UInt8)) (j : ℕ) :
    (numberFrom seq payloads).drop j = numberFrom (seq + j) (payloads.drop j) := by
  induction payloads generalizing seq j with
  | nil => simp [numberFrom]
  | cons payload payloads ih =>
    cases j with
    | zero => rfl
    | succ j =>
      rw [numberFrom, List.drop_succ_cons, List.drop_succ_cons, ih, Nat.add_right_comm,
        Nat.add_assoc]

theorem numberFrom_take (seq : ℕ) (payloads : List (List UInt8)) (n : ℕ) :
    (numberFrom seq payloads).take n = numberFrom seq (payloads.take n) := by
  induction payloads generalizing seq n with
  | nil => simp [numberFrom]
  | cons payload payloads ih =>
    cases n with
    | zero => rfl
    | succ n => rw [numberFrom, List.take_succ_cons, List.take_succ_cons, numberFrom, ih]

/-- A layout goes into packets as its payloads, numbered. -/
theorem map_toWire_layout {f : FlipBuffer} {start seq : ℕ} {payloads : List (List UInt8)}
    (h : (layout start seq payloads).map (fun msg => f.bufferSpan msg.range) = payloads) :
    (layout start seq payloads).map (ReliableStream.toWire f) = numberFrom seq payloads := by
  induction payloads generalizing start seq with
  | nil => rfl
  | cons payload payloads ih =>
    rw [layout, List.map_cons, List.cons.injEq] at h
    rw [layout, List.map_cons, ih h.2, numberFrom, ReliableStream.toWire, h.1]

/-- The messages of a stream are the payloads that are not acknowledged yet. -/
theorem Represents.toWire {capacity k : ℕ} {s : ReliableStream} {sent : List (List UInt8)}
    (h : Represents capacity s k sent) :
    s.messages.map (ReliableStream.toWire s.buffer) = numberFrom k (sent.drop k) := by
  rw [h.messages]
  exact map_toWire_layout (bufferSpan_layout k h.bytes)

/-- The pending messages continue the numbers of those in flight. -/
theorem Represents.pending_toWire {capacity k : ℕ} {s : ReliableStream} {sent : List (List UInt8)}
    (h : Represents capacity s k sent) :
    s.pendingMessages.map (ReliableStream.toWire s.buffer)
      = numberFrom (k + s.inFlightMessages.length) (sent.drop (k + s.inFlightMessages.length)) := by
  have hlength : (s.inFlightMessages.map (·.message)).length = s.inFlightMessages.length :=
    List.length_map _
  have hwire := congrArg (List.drop s.inFlightMessages.length) h.toWire
  rwa [← List.map_drop, ReliableStream.messages, List.drop_left' hlength, numberFrom_drop,
    List.drop_drop] at hwire

/-- The pending messages are among those that were sent. -/
theorem Represents.bufferSpan_mem {capacity k : ℕ} {s : ReliableStream} {sent : List (List UInt8)}
    (h : Represents capacity s k sent) {msg : PendingMessage} (hmsg : msg ∈ s.pendingMessages) :
    s.buffer.bufferSpan msg.range ∈ sent := by
  have hwire : ReliableStream.toWire s.buffer msg ∈ numberFrom (k + s.inFlightMessages.length)
      (sent.drop (k + s.inFlightMessages.length)) := by
    rw [← h.pending_toWire]
    exact List.mem_map_of_mem hmsg
  exact List.mem_of_mem_drop (mem_of_mem_numberFrom hwire)

/-- The receiver takes from consecutive messages those that continue what it has
taken. -/
theorem receive_numberFrom {seq taken : ℕ} {payloads : List (List UInt8)}
    (hseq : seq + payloads.length < 2 ^ 32) (htaken : taken < 2 ^ 32) :
    receive (UInt32.ofNat taken) (numberFrom seq payloads)
      = (UInt32.ofNat (takenAfter (seq, seq + payloads.length) taken),
          if seq ≤ taken then payloads.drop (taken - seq) else []) := by
  induction payloads generalizing seq taken with
  | nil =>
    have htake : takenAfter (seq, seq + 0) taken = taken := by
      rw [takenAfter]
      split
      · exact Nat.max_eq_left ‹_›
      · rfl
    rw [numberFrom, receive, List.length_nil, htake, List.drop_nil, ite_self]
  | cons payload payloads ih =>
    rw [List.length_cons] at hseq
    rw [numberFrom, receive, List.length_cons]
    -- the numbers do not wrap around, so they are compared as they are
    have hiff : UInt32.ofNat seq = UInt32.ofNat taken ↔ seq = taken := by
      rw [← UInt32.toNat_inj, UInt32.toNat_ofNat', UInt32.toNat_ofNat',
        Nat.mod_eq_of_lt (by omega), Nat.mod_eq_of_lt htaken]
    rcases Nat.lt_trichotomy seq taken with hlt | heq | hgt
    · -- an old message
      have hsucc : taken - seq = taken - (seq + 1) + 1 := by omega
      rw [if_neg fun h => absurd (hiff.mp h) (by omega), ih (by omega) htaken,
        if_pos (by omega : seq + 1 ≤ taken), if_pos (by omega : seq ≤ taken), hsucc,
        List.drop_succ_cons, takenAfter, takenAfter, if_pos (by omega), if_pos (by omega),
        Nat.add_right_comm seq 1, Nat.add_assoc]
    · -- the next message
      subst heq
      have hone : UInt32.ofNat seq + 1 = UInt32.ofNat (seq + 1) := (UInt32.ofNat_add _ _).symm
      rw [if_pos rfl, hone, ih (by omega) (by omega), if_pos (Nat.le_refl _),
        if_pos (Nat.le_refl _), Nat.sub_self, Nat.sub_self, List.drop_zero, List.drop_zero,
        takenAfter, takenAfter, if_pos (Nat.le_refl _), if_pos (Nat.le_refl _)]
      dsimp only
      rw [Nat.max_eq_right (by omega), Nat.max_eq_right (by omega), Nat.add_right_comm seq 1,
        Nat.add_assoc]
    · -- a message ahead of a gap
      rw [if_neg fun h => absurd (hiff.mp h) (by omega), ih (by omega) htaken,
        if_neg (by omega : ¬ seq + 1 ≤ taken), if_neg (by omega : ¬ seq ≤ taken), takenAfter,
        takenAfter, if_neg (by omega), if_neg (by omega)]

/-! ### The invariant of one direction -/

/-- What one side has done: the headers of its packets, the messages each of them
carries, and the packets of the other side that it has accepted. -/
structure ChannelTrace where
  headers : List PacketHeader := []
  ranges : List (ℕ × ℕ) := []
  accepted : List PacketId := []

/-- The messages that a packet carries. -/
def ChannelTrace.range (t : ChannelTrace) (p : PacketId) : ℕ × ℕ := t.ranges.getD p.toNat (0, 0)

/-- The messages of a range, as they go into a packet. -/
def messagesIn (sent : List (List UInt8)) (range : ℕ × ℕ) : List WireMessage :=
  numberFrom range.1 ((sent.drop range.1).take (range.2 - range.1))

/-- The bytes of a packet with the given header and messages. -/
def packetBytes (sent : List (List UInt8)) (packet : PacketHeader × (ℕ × ℕ)) : List UInt8 :=
  packet.1.encode ++ encodeSegment (messagesIn sent packet.2)

/-- The direction from `a` to `b`. -/
structure Direction (a b : ChannelNode) (ta tb : ChannelTrace) : Prop where
  numbered : Numbered a.delivery ta.headers
  represents : Represents 3200 a.stream a.consumed a.sent
  tags_lt : ∀ p ∈ a.tags, p.toNat < ta.headers.length
  length : ta.ranges.length = ta.headers.length
  ranges_le : ∀ r ∈ ta.ranges, r.1 ≤ r.2 ∧ r.2 ≤ a.sent.length
  packets : a.packets = (ta.headers.zip ta.ranges).map (packetBytes a.sent)
  short : ∀ packet ∈ a.packets, packet.length ≤ kJustAboveMtu
  link : AckLink b.delivery tb.headers tb.accepted
  expected : b.stream.nextExpectedSequenceNumber = UInt32.ofNat b.received.length
  received : b.received = a.sent.take b.received.length
  accepted_lt : ∀ p ∈ tb.accepted, p.toNat < ta.headers.length
  window : Window UInt32.toNat ta.range a.sent.length a.consumed a.tags tb.accepted
    b.received.length

namespace Direction

variable {a b : ChannelNode} {ta tb : ChannelTrace}

/-- The receiver takes part with what it expects, has received and has
accepted. -/
theorem congr_receiver (h : Direction a b ta tb) {b' : ChannelNode} {tb' : ChannelTrace}
    (hlink : AckLink b'.delivery tb'.headers tb'.accepted) (haccepted : tb'.accepted = tb.accepted)
    (hexpected : b'.stream.nextExpectedSequenceNumber = b.stream.nextExpectedSequenceNumber)
    (hreceived : b'.received = b.received) : Direction a b' ta tb' where
  numbered := h.numbered
  represents := h.represents
  tags_lt := h.tags_lt
  length := h.length
  ranges_le := h.ranges_le
  packets := h.packets
  short := h.short
  link := hlink
  expected := by rw [hexpected, hreceived]; exact h.expected
  received := by rw [hreceived]; exact h.received
  accepted_lt := by rw [haccepted]; exact h.accepted_lt
  window := by rw [haccepted, hreceived]; exact h.window

/-- What the sender receives itself does not matter. -/
theorem congr_sender (h : Direction a b ta tb) {delivery : PacketDeliveryManager}
    (hnext : delivery.nextOutgoingPacketId = a.delivery.nextOutgoingPacketId) (mem : Memory)
    (received : List (List UInt8)) (expected : UInt32) (accepted : List PacketId) :
    Direction { a with
      delivery := delivery
      networkBuffer := mem
      received := received
      stream := { a.stream with nextExpectedSequenceNumber := expected } } b
      { ta with accepted := accepted } tb where
  numbered := h.numbered.congr hnext
  represents := ⟨h.represents.le, h.represents.sizes, h.represents.messages,
    h.represents.nextOutgoing, h.represents.endIndex, h.represents.capacity_eq,
    h.represents.endIndex_le, h.represents.bytes⟩
  tags_lt := h.tags_lt
  length := h.length
  ranges_le := h.ranges_le
  packets := h.packets
  short := h.short
  link := h.link
  expected := h.expected
  received := h.received
  accepted_lt := h.accepted_lt
  window := h.window

/-! ### Statuses -/

/-- A status is handed to the stream.  An acknowledged packet was accepted, so
what it consumes has been received. -/
theorem status (h : Direction a b ta tb) (p : PacketId) (status : PacketDeliveryStatus)
    (hack : status = .ack → p ∈ tb.accepted) :
    Direction { a with
      stream := (a.stream.onPacketDeliveryStatus p status).val
      consumed := a.stream.ackedAfter p status a.consumed } b ta tb := by
  have hrepresents := (h.represents.status p status).1
  cases status with
  | ack =>
    have htags : ((a.stream.onPacketDeliveryStatus p .ack).val.inFlightMessages.map
        (·.packetId)) = a.tags.dropWhile fun q => q = p := by
      rw [ReliableStream.inFlightMessages_ack, ChannelNode.tags, List.dropWhile_map]
      rfl
    have hcount : a.stream.ackCount p = (a.tags.takeWhile fun q => q = p).length := by
      rw [ReliableStream.ackCount_eq, ChannelNode.tags, List.takeWhile_map, List.length_map]
      rfl
    refine ⟨h.numbered, hrepresents, fun q hq => ?_, h.length, h.ranges_le, h.packets, h.short,
      h.link, h.expected, h.received, h.accepted_lt, ?_⟩
    · refine h.tags_lt q ?_
      rw [ChannelNode.tags, htags] at hq
      exact (List.dropWhile_sublist _).subset hq
    -- the window gives up only what was accepted
    · have hwindow := h.window.ack (hack rfl)
      rw [← htags, ← hcount] at hwindow
      exact hwindow
  | drop =>
    have htags : ((a.stream.onPacketDeliveryStatus p .drop).val.inFlightMessages.map
        (·.packetId)) = [] := by
      rw [ReliableStream.val_drop]
      rfl
    refine ⟨h.numbered, hrepresents, fun q hq => ?_, h.length, h.ranges_le, h.packets, h.short,
      h.link, h.expected, h.received, h.accepted_lt, ?_⟩
    · rw [ChannelNode.tags, htags] at hq
      simp at hq
    · have hwindow := h.window.drop
      rw [← htags] at hwindow
      exact hwindow

theorem statuses (h : Direction a b ta tb) {statuses : DeliveryStatuses}
    (hack : ∀ p, (p, .ack) ∈ statuses → p ∈ tb.accepted) :
    Direction (a.processDeliveryStatuses statuses) b ta tb := by
  induction statuses generalizing a with
  | nil => exact h
  | cons s statuses ih =>
    obtain ⟨p, status⟩ := s
    refine ih (h.status p status fun hs => ?_) fun q hq => hack q (List.mem_cons_of_mem _ hq)
    rw [hs] at hack
    exact hack p List.mem_cons_self

/-! ### Sending -/

/-- Later payloads do not change the messages of a range. -/
theorem messagesIn_append {sent sent' : List (List UInt8)} {range : ℕ × ℕ}
    (hrange : range.1 ≤ range.2 ∧ range.2 ≤ sent.length) :
    messagesIn (sent ++ sent') range = messagesIn sent range := by
  rw [messagesIn, messagesIn, List.drop_append_of_le_length (by omega),
    List.take_append_of_le_length]
  rw [List.length_drop]
  omega

theorem send (h : Direction a b ta tb) (fn : WriteToBufferFn) :
    Direction (a.send fn) b ta tb := by
  obtain ⟨new, hsent⟩ : ∃ new, a.stream.sentAfter fn a.sent = a.sent ++ new := by
    rw [ReliableStream.sentAfter]
    split
    · exact ⟨[], (List.append_nil _).symm⟩
    · exact ⟨_, rfl⟩
  have htags : (a.send fn).tags = a.tags := ReliableStream.send_packetId a.stream fn
  have hlength : a.sent.length ≤ (a.send fn).sent.length := by
    show _ ≤ (a.stream.sentAfter fn a.sent).length
    rw [hsent, List.length_append]
    exact Nat.le_add_right _ _
  refine ⟨h.numbered, (h.represents.send fn).1, ?_, h.length, ?_, ?_, h.short, h.link,
    h.expected, ?_, h.accepted_lt, ?_⟩
  · rw [htags]
    exact h.tags_lt
  · exact fun r hr => ⟨(h.ranges_le r hr).1, le_trans (h.ranges_le r hr).2 hlength⟩
  -- the packets of the past speak of ranges inside what was sent then
  · show a.packets = _
    rw [h.packets]
    refine List.map_congr_left fun packet hpacket => ?_
    show _ = packetBytes (a.stream.sentAfter fn a.sent) packet
    rw [packetBytes, packetBytes, hsent,
      messagesIn_append (h.ranges_le packet.2 (List.of_mem_zip hpacket).2)]
  · show b.received = (a.stream.sentAfter fn a.sent).take _
    rw [hsent, List.take_append_of_le_length h.window.taken_le]
    exact h.received
  · rw [htags]
    exact h.window.grow hlength

/-! ### Writing -/

/-- The range of messages that the next packet of at most `size` bytes takes. -/
def nextRange (a : ChannelNode) (size : ℕ) : ℕ × ℕ :=
  let first := a.consumed + a.tags.length
  (first, first + a.stream.fitCount (size - 12))

/-- The pending messages, as they go into packets. -/
theorem pending_toWire (h : Direction a b ta tb) (n : ℕ) :
    (a.stream.pendingMessages.take n).map (ReliableStream.toWire a.stream.buffer)
      = numberFrom (a.consumed + a.tags.length)
          ((a.sent.drop (a.consumed + a.tags.length)).take n) := by
  rw [List.map_take, h.represents.pending_toWire, numberFrom_take, ChannelNode.tags,
    List.length_map]

/-- The messages not acknowledged yet are in flight or pending. -/
theorem count (h : Direction a b ta tb) :
    a.consumed + a.tags.length + a.stream.pendingMessages.length = a.sent.length := by
  have hlength := congrArg List.length h.represents.messages
  rw [length_layout, List.length_drop, ReliableStream.messages, List.length_append,
    List.length_map] at hlength
  have hle := h.represents.le
  rw [ChannelNode.tags, List.length_map]
  omega

/-- The next packet has a number that neither side knows yet. -/
theorem next_id (h : Direction a b ta tb) (now : ℤ) (hcount : ta.headers.length < 2 ^ 32) :
    (a.delivery.nextHeader now).val.2.id.toNat = ta.headers.length := by
  rw [PacketDeliveryManager.nextHeader_id, h.numbered.next, UInt32.toNat_ofNat',
    Nat.mod_eq_of_lt hcount]

theorem write (h : Direction a b ta tb) (now : ℤ) {size : ℕ} (hmin : 12 ≤ size)
    (hmax : size ≤ kJustBelowMtu.toNat) (hcount : ta.headers.length < 2 ^ 32) :
    Direction (a.write now size).val b
      { ta with
        headers := ta.headers ++ [(a.delivery.nextHeader now).val.2]
        ranges := ta.ranges ++ [nextRange a size] } tb := by
  obtain ⟨mem, hval⟩ := a.val_write now hmin
  have hid := h.next_id now hcount
  have hsum := h.count
  set header := (a.delivery.nextHeader now).val.2 with hheader
  set n := a.stream.fitCount (size - 12) with hn
  have hfit : n ≤ a.stream.pendingMessages.length := ReliableStream.countMessages_le _ _ _ _
  have hrange : nextRange a size
      = (a.consumed + a.tags.length, a.consumed + a.tags.length + n) := rfl
  -- the new tags are all the id of this packet, which no earlier packet has
  have htags : (a.write now size).val.tags = a.tags ++ List.replicate n header.id := by
    rw [hval, ChannelNode.tags, List.map_append, List.map_map]
    have hconst : InFlightMessage.packetId ∘ InFlightMessage.mk header.id
        = fun _ => header.id := rfl
    rw [hconst, List.map_const', List.length_take, Nat.min_eq_left hfit]
    rfl
  have hnew : ∀ p : PacketId, p.toNat < ta.headers.length → p ≠ header.id := by
    rintro p hp rfl
    omega
  set ta' : ChannelTrace := { ta with
    headers := ta.headers ++ [header]
    ranges := ta.ranges ++ [nextRange a size] } with hta'
  have hranges_le : ∀ r ∈ ta'.ranges, r.1 ≤ r.2 ∧ r.2 ≤ a.sent.length := by
    intro r hr
    rcases List.mem_append.mp hr with hr | hr
    · exact h.ranges_le r hr
    · rw [List.mem_singleton.mp hr, hrange]
      dsimp only
      omega
  -- the stream keeps its messages, only their ranges change hands
  have hrepresents := h.represents.write header.id ⟨12, size - 12⟩ mem
  rw [ReliableStream.write_state] at hrepresents
  constructor
  · rw [hval]
    exact h.numbered.nextHeader now
  · rw [hval]
    exact hrepresents
  · intro p hp
    rw [hta', List.length_append, List.length_singleton]
    rw [htags] at hp
    rcases List.mem_append.mp hp with hp | hp
    · exact Nat.lt_succ_of_lt (h.tags_lt p hp)
    · rw [List.eq_of_mem_replicate hp, hid]
      exact Nat.lt_succ_self _
  · rw [hta', List.length_append, List.length_append, h.length]
    rfl
  · rw [hval]
    exact hranges_le
  · rw [hval]
    dsimp only
    rw [List.zip_append h.length.symm, List.map_append, ← h.packets, h.pending_toWire]
    simp only [List.zip_cons_cons, List.zip_nil_right, List.map_cons, List.map_nil, packetBytes,
      messagesIn, hrange, Nat.add_sub_cancel_left]
  · intro packet hpacket
    rw [hval] at hpacket
    rcases List.mem_append.mp hpacket with hpacket | hpacket
    · exact h.short packet hpacket
    · have hsegment := a.stream.length_encodeSegment_le (size - 12)
      rw [← hn] at hsegment
      have hbelow : kJustBelowMtu.toNat = 1400 := by decide
      have habove : kJustAboveMtu = 1600 := rfl
      rw [List.mem_singleton.mp hpacket, List.length_append, PacketHeader.length_encode]
      omega
  · exact h.link
  · exact h.expected
  · rw [hval]
    exact h.received
  · intro p hp
    rw [hta', List.length_append, List.length_singleton]
    exact Nat.lt_succ_of_lt (h.accepted_lt p hp)
  · rw [htags, hval]
    -- the window grows by the range of the new packet, whose id is fresh
    refine h.window.write (fun p hp => ?_) (fun hacc => ?_) (fun p hp => ?_) ?_ (fun p => ?_)
    · rw [hid]
      exact h.tags_lt p hp
    · exact hnew _ (h.accepted_lt _ hacc) rfl
    · have hlt := h.tags_lt p hp
      rw [← h.length] at hlt
      exact List.getD_append _ _ _ _ hlt
    · rw [ChannelTrace.range, hid, ← h.length, hta', List.getD_append_right _ _ _ _ (Nat.le_refl _),
        Nat.sub_self, List.getD_cons_zero, hrange]
    · rw [ChannelTrace.range]
      by_cases hp : p.toNat < ta'.ranges.length
      · rw [List.getD_eq_getElem _ _ hp]
        exact (hranges_le _ (List.getElem_mem hp)).2
      · rw [List.getD_eq_default _ _ (Nat.not_lt.mp hp)]
        exact Nat.zero_le _

/-! ### Reading -/

/-- A packet on the network is one that was written, with its header and its
messages. -/
theorem mem_packets (h : Direction a b ta tb) (hcount : ta.headers.length < 2 ^ 32)
    {packet : List UInt8} (hpacket : packet ∈ a.packets) :
    ∃ header ∈ ta.headers, header.id.toNat < ta.headers.length ∧
      packet = packetBytes a.sent (header, ta.range header.id) ∧
      (ta.range header.id).1 ≤ (ta.range header.id).2 ∧
      (ta.range header.id).2 ≤ a.sent.length := by
  rw [h.packets] at hpacket
  obtain ⟨⟨header, range⟩, hzip, rfl⟩ := List.mem_map.mp hpacket
  obtain ⟨hheader, hrange⟩ := List.of_mem_zip hzip
  obtain ⟨i, hi, hget⟩ := List.getElem_of_mem hzip
  rw [List.length_zip, h.length, Nat.min_self] at hi
  rw [List.getElem_zip, Prod.mk.injEq] at hget
  -- packets are numbered from zero, so the header at index `i` has the id `i`
  have hid : header.id.toNat = i := by
    have hids := congrArg (fun ids => ids[i]?) h.numbered.ids
    simp only [List.getElem?_map, List.getElem?_eq_getElem hi, hget.1, Option.map_some,
      List.getElem?_range hi, Option.some_inj] at hids
    rw [hids, UInt32.toNat_ofNat', Nat.mod_eq_of_lt (by omega)]
  have hrange' : ta.range header.id = range := by
    rw [ChannelTrace.range, hid, List.getD_eq_getElem _ _ (by rw [h.length]; exact hi)]
    exact hget.2
  refine ⟨header, hheader, by omega, ?_⟩
  rw [hrange']
  exact ⟨rfl, h.ranges_le range hrange⟩

/-- The messages of a packet satisfy the limits of the format. -/
theorem messagesIn_fits (h : Direction a b ta tb) (range : ℕ × ℕ) :
    ∀ msg ∈ messagesIn a.sent range, msg.Fits := by
  intro msg hmsg
  have hmem : msg.2 ∈ a.sent :=
    List.mem_of_mem_drop (List.mem_of_mem_take (mem_of_mem_numberFrom hmsg))
  obtain ⟨hne, hle⟩ := h.represents.sizes msg.2 hmem
  exact ⟨hne, by omega⟩

theorem length_messagesIn_lt (h : Direction a b ta tb) {header : PacketHeader} {range : ℕ × ℕ}
    (hshort : (packetBytes a.sent (header, range)).length ≤ kJustAboveMtu) :
    (messagesIn a.sent range).length < 2 ^ 8 := by
  have hmin := length_le_encodeMessages (h.messagesIn_fits range)
  have habove : kJustAboveMtu = 1600 := rfl
  rw [packetBytes, List.length_append, PacketHeader.length_encode, encodeSegment] at hshort
  split at hshort
  · next hnil =>
    dsimp only at hnil
    rw [hnil]
    exact Nat.pow_pos Nat.zero_lt_two
  · rw [List.length_append] at hshort
    dsimp only at hshort
    omega

/-- What the receiver has taken after the messages of a range. -/
theorem take_append_receive (sent : List (List UInt8)) (range : ℕ × ℕ) (taken : ℕ) :
    sent.take taken ++ (if range.1 ≤ taken then
        ((sent.drop range.1).take (range.2 - range.1)).drop (taken - range.1) else [])
      = sent.take (takenAfter range taken) := by
  rw [takenAfter]
  by_cases hle : range.1 ≤ taken
  · rw [if_pos hle, if_pos hle, List.drop_take, List.drop_drop, Nat.add_sub_cancel' hle,
      ← List.take_add]
    congr 1
    omega
  · rw [if_neg hle, if_neg hle, List.append_nil]

/-- **The receiver reads a packet.**  Whether it accepts the packet or not, what
it has received stays a prefix of what was sent. -/
theorem read (h : Direction a b ta tb) (hcount : ta.headers.length < 2 ^ 32)
    (hsent : a.sent.length < 2 ^ 32) {packet : List UInt8} (hpacket : packet ∈ a.packets) :
    ∃ header ∈ ta.headers, header.id.toNat < ta.headers.length ∧
      (∃ mem received expected, (b.read packet).val =
        { b.readHeader header mem with
          stream := { (b.readHeader header mem).stream with
            nextExpectedSequenceNumber := expected }
          received := received }) ∧
      Direction a (b.read packet).val ta
        { tb with accepted := b.delivery.acceptedAfter tb.accepted header } := by
  obtain ⟨header, hheader, hid, rfl, hrange⟩ := h.mem_packets hcount hpacket
  have hshort := h.short _ hpacket
  have hfits := h.messagesIn_fits (ta.range header.id)
  have hsmall := h.length_messagesIn_lt hshort
  have hlink := h.link.processRead (by omega : header.id.toNat + 1 < 2 ^ 32)
  -- the packet carries the messages of its range, numbered from the first on
  set range := ta.range header.id with hr
  set taken := b.received.length with htaken
  have hlength : ((a.sent.drop range.1).take (range.2 - range.1)).length = range.2 - range.1 := by
    rw [List.length_take, List.length_drop]
    omega
  have hreceive := @receive_numberFrom range.1 taken
    ((a.sent.drop range.1).take (range.2 - range.1)) (by rw [hlength]; omega)
    (lt_of_le_of_lt h.window.taken_le hsent)
  rw [hlength, Nat.add_sub_cancel' hrange.1, ← h.expected] at hreceive
  obtain ⟨mem, hval⟩ := b.val_read hsmall hfits hshort
  obtain ⟨stream, consumed, hframe, hexpected⟩ := b.readHeader_frame header mem
  rw [packetBytes, hval]
  refine ⟨header, hheader, hid, ?_⟩
  rcases PacketDeliveryManager.processRead_cases b.delivery header with
    ⟨hzero, -⟩ | ⟨htwelve, hge, -⟩
  · -- the packet is too old
    rw [if_pos hzero, hframe]
    refine ⟨⟨mem, b.received, stream.nextExpectedSequenceNumber, by rw [hframe]⟩, ?_⟩
    have haccepted : b.delivery.acceptedAfter tb.accepted header = tb.accepted := by
      rw [PacketDeliveryManager.acceptedAfter, if_neg (not_not.mpr hzero)]
    exact h.congr_receiver hlink haccepted hexpected rfl
  · -- the packet is accepted
    have haccepted : b.delivery.acceptedAfter tb.accepted header
        = tb.accepted ++ [header.id] := by
      rw [PacketDeliveryManager.acceptedAfter, if_pos (by rw [htwelve]; decide)]
    -- ids are accepted in increasing order, so this one is above all others
    have hwindow := h.window.accept fun p hp => by
      rw [UInt32.lt_iff_toNat_lt] at hge
      exact lt_of_lt_of_le (h.link.below p hp) (Nat.le_of_not_lt hge)
    have hreceived := take_append_receive a.sent range taken
    have hlength' : (a.sent.take (takenAfter range taken)).length = takenAfter range taken :=
      List.length_take_of_le hwindow.taken_le
    rw [if_neg (by rw [htwelve]; decide), messagesIn, hreceive]
    dsimp only
    rw [h.received, hreceived]
    refine ⟨⟨mem, _, _, rfl⟩, ?_⟩
    rw [hframe]
    refine ⟨h.numbered, h.represents, h.tags_lt, h.length, h.ranges_le, h.packets, h.short, hlink,
      ?_, ?_, ?_, ?_⟩
    · dsimp only
      rw [hlength']
    · dsimp only
      rw [hlength']
    · intro p hp
      dsimp only at hp
      rw [haccepted] at hp
      rcases List.mem_append.mp hp with hp | hp
      · exact h.accepted_lt p hp
      · rw [List.mem_singleton.mp hp]
        exact hid
    · dsimp only
      rw [haccepted, hlength']
      exact hwindow

end Direction

/-! ### Both directions -/

/-- The invariant of a channel. -/
def ChannelSound (s : Side → ChannelNode) (t : Side → ChannelTrace) : Prop :=
  ∀ side, Direction (s side) (s side.other) (t side) (t side.other)

namespace ChannelSound

variable {s : Side → ChannelNode} {t : Side → ChannelTrace} {side : Side}

theorem start (nextExpectedPacketId : Side → PacketId) (packetTimeout : Side → ℤ) :
    ChannelSound (fun side => { delivery := {
      packetTimeout := packetTimeout side
      nextExpectedPacketId := nextExpectedPacketId side } }) (fun _ => {}) := by
  intro side
  refine ⟨⟨rfl, rfl⟩, Represents.start 3200, by simp [ChannelNode.tags], rfl, by simp, rfl,
    by simp, AckLink.start _ _, rfl, rfl, by simp, ?_⟩
  refine ⟨List.Pairwise.nil, by simp [ChannelNode.tags], fun _ => Nat.le_refl 0, ?_,
    Nat.le_refl 0⟩
  intro m hm _
  have hzero : m = 0 := Nat.le_zero.mp hm
  rw [hzero]
  exact Nat.le_refl 0

/-- One side changes: it is the sender of one direction and the receiver of the
other one. -/
theorem set {n : ChannelNode} {tn : ChannelTrace}
    (hsender : Direction n (s side.other) tn (t side.other))
    (hreceiver : Direction (s side.other) n (t side.other) tn) :
    ChannelSound (side.set s n) (side.set t tn) := by
  intro x
  by_cases hx : x = side
  · subst hx
    rw [Side.set_self, Side.set_self, Side.set_other, Side.set_other]
    exact hsender
  · rw [Side.eq_other_of_ne hx, Side.other_other, Side.set_self, Side.set_self, Side.set_other,
      Side.set_other]
    exact hreceiver

/-- The direction in which a side receives. -/
theorem receiving (h : ChannelSound s t) (side : Side) :
    Direction (s side.other) (s side) (t side.other) (t side) := by
  have := h side.other
  rwa [Side.other_other] at this

theorem send (h : ChannelSound s t) (side : Side) (fn : WriteToBufferFn) :
    ChannelSound (side.set s ((s side).send fn)) (side.set t (t side)) := by
  have hreceiving := h.receiving side
  exact set ((h side).send fn) (hreceiving.congr_receiver hreceiving.link rfl
    (ReliableStream.send_nextExpected _ fn) rfl)

theorem write (h : ChannelSound s t) (side : Side) (now : ℤ) {size : ℕ} (hmin : 12 ≤ size)
    (hmax : size ≤ kJustBelowMtu.toNat) (hcount : (t side).headers.length < 2 ^ 32) :
    ∃ tn, ChannelSound (side.set s ((s side).write now size).val) (side.set t tn) := by
  have hreceiving := h.receiving side
  obtain ⟨mem, hval⟩ := (s side).val_write now hmin
  refine ⟨_, set ((h side).write now hmin hmax hcount) ?_⟩
  refine hreceiving.congr_receiver ?_ rfl ?_ ?_
  · rw [hval]
    exact hreceiving.link.nextHeader now
  · rw [hval]
  · rw [hval]

theorem dropOldPackets (h : ChannelSound s t) (side : Side) (now : ℤ) :
    ChannelSound (side.set s ((s side).dropOldPackets now)) (side.set t (t side)) := by
  have hreceiving := h.receiving side
  obtain ⟨stream, consumed, hframe, hexpected⟩ := (s side).dropOldPackets_frame now
  refine set ?_ ?_
  · have hsender := (h side).congr_sender
      (rfl : ((s side).delivery.dropOldPackets now).1.nextOutgoingPacketId = _)
      (s side).networkBuffer (s side).received (s side).stream.nextExpectedSequenceNumber
      (t side).accepted
    refine hsender.statuses fun p hp => ?_
    -- a timeout reports drops only
    exact absurd (PacketDeliveryManager.dropOldPackets_drop hp) (by simp)
  · rw [hframe]
    exact hreceiving.congr_receiver (hreceiving.link.dropOldPackets now) rfl hexpected rfl

theorem read (h : ChannelSound s t) (side : Side)
    (hcount : (t side.other).headers.length < 2 ^ 32)
    (hsent : (s side.other).sent.length < 2 ^ 32) {packet : List UInt8}
    (hpacket : packet ∈ (s side.other).packets) :
    ∃ tn, ChannelSound (side.set s ((s side).read packet).val) (side.set t tn) := by
  obtain ⟨header, hheader, -, ⟨mem, received, expected, hval⟩, hreceiver⟩ :=
    (h.receiving side).read hcount hsent hpacket
  refine ⟨_, set ?_ hreceiver⟩
  -- the statuses in the header are about packets that the other side has accepted
  have hsender := (h side).congr_sender
    (PacketDeliveryManager.processRead_nextOutgoing (s side).delivery header) mem
    (s side).received (s side).stream.nextExpectedSequenceNumber (t side).accepted
  have hstatuses := hsender.statuses
    fun p (hp : (p, .ack) ∈ ((s side).delivery.processRead header).val.2.2.1) =>
      (h side).link.mem_of_ack hheader hp
  rw [hval]
  exact hstatuses.congr_sender rfl (ChannelNode.readHeader _ _ _).networkBuffer received
    expected _

end ChannelSound

/-- Fewer than `2 ^ 32` packets and messages. -/
def ChannelBound (s : Side → ChannelNode) : Prop :=
  ∀ side, (s side).packets.length < 2 ^ 32 ∧ (s side).sent.length < 2 ^ 32

/-- The packets and the messages of a run have a trace. -/
def ChannelTraced (s : Side → ChannelNode) : Prop := ∃ t, ChannelSound s t

theorem ChannelBound.of_next {s : Side → ChannelNode} {side : Side} {call : ChannelCall}
    (h : ChannelBound (side.set s ((s side).next call))) : ChannelBound s := by
  intro x
  by_cases hx : x = side
  · have := h x
    rw [hx, Side.set_self] at this
    obtain ⟨hsent, hpackets⟩ := (s side).lengths_le call
    rw [hx]
    exact ⟨lt_of_le_of_lt hpackets this.1, lt_of_le_of_lt hsent this.2⟩
  · have := h x
    rwa [Side.set, if_neg hx] at this

theorem ChannelTraced.next {s : Side → ChannelNode} (h : ChannelTraced s) {side : Side}
    {call : ChannelCall} (hbound : ChannelBound s)
    (hwrite : ∀ now size, call = .write now size → 12 ≤ size ∧ size ≤ kJustBelowMtu.toNat)
    (hread : ∀ packet, call = .read packet → packet ∈ (s side.other).packets) :
    ChannelTraced (side.set s ((s side).next call)) := by
  obtain ⟨t, ht⟩ := h
  have hheaders : ∀ x, (t x).headers.length < 2 ^ 32 := by
    intro x
    have hlength := congrArg List.length (ht x).packets
    rw [List.length_map, List.length_zip, (ht x).length, Nat.min_self] at hlength
    rw [← hlength]
    exact (hbound x).1
  cases call with
  | send fn => exact ⟨_, ht.send side fn⟩
  | write now size =>
    obtain ⟨hmin, hmax⟩ := hwrite now size rfl
    obtain ⟨tn, htn⟩ := ht.write side now hmin hmax (hheaders side)
    exact ⟨_, htn⟩
  | dropOldPackets now => exact ⟨_, ht.dropOldPackets side now⟩
  | read packet =>
    obtain ⟨tn, htn⟩ := ht.read side (hheaders side.other) (hbound side.other).2
      (hread packet rfl)
    exact ⟨_, htn⟩

/-- **The reliable FIFO channel.**  In every reachable state and for each
direction: what acknowledgements have consumed has been received, what has been
received is a prefix of what was sent, and the messages in flight and pending are
the rest of what was sent, numbered from the first one that is not consumed. -/
theorem reliable_fifo {nextExpectedPacketId : Side → PacketId} {packetTimeout : Side → ℤ}
    {s : Side → ChannelNode}
    (h : (channel nextExpectedPacketId packetTimeout).Reachable System.anyAction s)
    (hcount : ∀ side, (s side).packets.length < 2 ^ 32 ∧ (s side).sent.length < 2 ^ 32)
    (side : Side) :
    let a := s side
    let b := s side.other
    a.consumed ≤ b.received.length ∧ b.received.length ≤ a.sent.length ∧
      b.received = a.sent.take b.received.length ∧
      a.stream.messages.map (ReliableStream.toWire a.stream.buffer)
        = numberFrom a.consumed (a.sent.drop a.consumed) := by
  have hs : ChannelTraced s := by
    refine h.invariant_of_bound ChannelBound (fun s call hnext => hnext.of_next) (fun s hs => ?_)
      (fun s call _ hs hen _ hnext => ?_) hcount
    · cases hs
      exact ⟨_, ChannelSound.start _ _⟩
    · obtain ⟨side, call⟩ := call
      refine hs.next hnext.of_next ?_ ?_
      · rintro now size rfl
        exact hen
      · rintro packet rfl
        exact hen
  obtain ⟨t, ht⟩ := hs
  exact ⟨(ht side).window.base_le, (ht side).window.taken_le, (ht side).received,
    (ht side).represents.toWire⟩

/-- Two messages travel in two packets.  The second packet is lost and dropped;
its message comes again with a third packet. -/
theorem reliable_fifo_retransmission :
    let first := [0, 0, 0, 0, 0, 0, 0, 0, 0, 0, 0, 0, 3, 1, 0, 0, 0, 0, 0, 1, 1]
    let reply := [0, 0, 0, 0, 0, 0, 0, 0, 0, 0, 0, 1]
    let third := [0, 0, 0, 2, 0, 0, 0, 0, 0, 0, 0, 0, 3, 1, 0, 0, 0, 1, 0, 2, 2, 3]
    let s := (channel (fun _ => 0) (fun _ => 5000)).runFrom
      (fun _ => { delivery := { packetTimeout := 5000, nextExpectedPacketId := 0 } })
      [(.a, .send (.ofBytes [1])), (.a, .write 0 1400), (.b, .read first), (.b, .write 0 1400),
        (.a, .read reply), (.a, .send (.ofBytes [2, 3])), (.a, .write 1 1400),
        (.a, .dropOldPackets 6000000000), (.a, .write 6000000001 1400), (.b, .read third)]
    (s .a).consumed = 1 ∧ (s .b).received = [[1], [2, 3]] ∧
      (s .b).received = (s .a).sent.take (s .b).received.length := by
  refine ⟨by decide +kernel, by decide +kernel, ?_⟩
  refine (@reliable_fifo (fun _ => 0) (fun _ => 5000) _
    (System.runFrom_reachable (.init rfl) ?_) ?_ .a).2.2.1
  · refine ⟨trivial, trivial, ⟨by decide, by decide⟩, trivial, ?_, trivial,
      ⟨by decide, by decide⟩, trivial, ?_, trivial, trivial, trivial,
      ⟨by decide, by decide⟩, trivial, trivial, trivial, ⟨by decide, by decide⟩, trivial,
      ?_, trivial, trivial⟩
    -- the packets that are read have been written before
    · show [0, 0, 0, 0, 0, 0, 0, 0, 0, 0, 0, 0, 3, 1, 0, 0, 0, 0, 0, 1, 1] ∈ _
      decide +kernel
    · show [0, 0, 0, 0, 0, 0, 0, 0, 0, 0, 0, 1] ∈ _
      decide +kernel
    · show [0, 0, 0, 2, 0, 0, 0, 0, 0, 0, 0, 0, 3, 1, 0, 0, 0, 1, 0, 2, 2, 3] ∈ _
      decide +kernel
  · intro side
    cases side <;> decide +kernel

end Neptun
