/-
The segment of a `ReliableStream` in a packet.

A segment is described by its messages, a list of sequence numbers and payloads:
`encodeSegment` are its bytes and `receive` is what the receiving stream makes of
them.

* `ReliableStream.val_write` — `write` stores the bytes of the messages that fit;
* `ReliableStream.val_read` — `read` of these bytes takes the messages in
  sequence and ignores the others.
-/
import Neptun.ReliableStream

namespace Neptun

/-- A sequence number and a payload. -/
abbrev WireMessage := UInt32 × List UInt8

/-- The bytes of the messages of a segment. -/
def encodeMessages (msgs : List WireMessage) : List UInt8 :=
  msgs.flatMap fun msg => ReliableMessage.encode msg.1 msg.2

/-- The bytes of a segment; there is none without messages. -/
def encodeSegment (msgs : List WireMessage) : List UInt8 :=
  if msgs = [] then []
  else [ManagerType.reliableStream.toU8, UInt8.ofNat msgs.length] ++ encodeMessages msgs

/-- What a stream that expects the sequence number `expected` makes of the
messages: the number it expects afterwards and the payloads it hands on. -/
def receive : UInt32 → List WireMessage → UInt32 × List (List UInt8)
  | expected, [] => (expected, [])
  | expected, (sequenceNumber, payload) :: msgs =>
    if sequenceNumber = expected then
      let result := receive (expected + 1) msgs
      (result.1, payload :: result.2)
    else
      receive expected msgs

/-- A message that the format can carry. -/
def WireMessage.Fits (msg : WireMessage) : Prop := msg.2 ≠ [] ∧ msg.2.length < 2 ^ 16

theorem encodeMessages_cons (msg : WireMessage) (msgs : List WireMessage) :
    encodeMessages (msg :: msgs) = ReliableMessage.encode msg.1 msg.2 ++ encodeMessages msgs :=
  List.flatMap_cons

/-- A message has a header of six bytes and a payload of at least one. -/
theorem length_le_encodeMessages {msgs : List WireMessage} (h : ∀ msg ∈ msgs, msg.Fits) :
    7 * msgs.length ≤ (encodeMessages msgs).length := by
  induction msgs with
  | nil => exact Nat.le_refl 0
  | cons msg msgs ih =>
    have hrest := ih fun m hm => h m (List.mem_cons_of_mem _ hm)
    have hpos : 0 < msg.2.length := List.length_pos_iff.mpr (h msg List.mem_cons_self).1
    rw [encodeMessages_cons, List.length_append, ReliableMessage.length_encode, List.length_cons]
    omega

namespace ReliableStream

/-- A pending message as it goes into a packet. -/
def toWire (f : FlipBuffer) (msg : PendingMessage) : WireMessage :=
  (msg.sequenceNumber, f.bufferSpan msg.range)

/-! ### Writing -/

/-- The sizing loop counts the bytes of the messages it takes, and stays within
the buffer. -/
theorem countMessages_size (f : FlipBuffer) (bufferSize totalSize : ℕ)
    (msgs : List PendingMessage) :
    (countMessages f bufferSize totalSize msgs).2 = totalSize + (encodeMessages
      ((msgs.take (countMessages f bufferSize totalSize msgs).1).map (toWire f))).length ∧
    ((countMessages f bufferSize totalSize msgs).1 ≠ 0 →
      (countMessages f bufferSize totalSize msgs).2 ≤ bufferSize) := by
  induction msgs generalizing totalSize with
  | nil => simp [countMessages, encodeMessages]
  | cons msg msgs ih =>
    rw [countMessages]
    dsimp only
    split
    · simp [encodeMessages]
    · next hfits =>
      have hmsg : ReliableMessage.serializedSize (f.bufferSpan msg.range).length
          = (ReliableMessage.encode (toWire f msg).1 (toWire f msg).2).length := by
        rw [ReliableMessage.length_encode, ReliableMessage.serializedSize, toWire]
      rw [hmsg] at hfits ⊢
      obtain ⟨hsize, hle⟩ := ih (totalSize
        + (ReliableMessage.encode (toWire f msg).1 (toWire f msg).2).length)
      constructor
      · rw [List.take_succ_cons, List.map_cons, encodeMessages_cons, List.length_append,
          ← Nat.add_assoc]
        exact hsize
      -- the last message that is taken is the one that has just fitted
      · intro _
        by_cases hzero : (countMessages f bufferSize (totalSize
            + (ReliableMessage.encode (toWire f msg).1 (toWire f msg).2).length) msgs).1 = 0
        · rw [hsize, hzero, List.take_zero]
          simpa [encodeMessages] using hfits
        · exact hle hzero

/-- The writing loop stores the messages one behind the other. -/
theorem writeLoop_memory (f : FlipBuffer) (packetId : PacketId) (b : Span) (n idx : ℕ)
    (pending : List PendingMessage) (inFlight : List InFlightMessage) (mem : Memory) :
    (writeLoop f packetId b n idx pending inFlight mem).val.2.2.1
      = mem.storeList (b.off + idx) (encodeMessages ((pending.take n).map (toWire f))) := by
  induction n generalizing idx pending inFlight mem with
  | zero => rfl
  | succ n ih =>
    cases pending with
    | nil => rfl
    | cons msg pending =>
      simp only [writeLoop, Checked.val_bind, ReliableMessage.val_write, val_advance]
      rw [ih, List.take_succ_cons, List.map_cons, encodeMessages_cons, Memory.storeList_append,
        ReliableMessage.length_encode, toWire, Nat.add_assoc]

/-- **What `write` puts into a packet.** -/
theorem val_write (s : ReliableStream) (packetId : PacketId) (b : Span) (mem : Memory) :
    let msgs := (s.pendingMessages.take (s.fitCount b.size)).map (toWire s.buffer)
    (s.write packetId b mem).val.2 = (mem.storeList b.off (encodeSegment msgs),
      (encodeSegment msgs).length) := by
  intro msgs
  have hlength : msgs.length = s.fitCount b.size := by
    have hle : s.fitCount b.size ≤ s.pendingMessages.length := countMessages_le _ _ _ _
    rw [List.length_map, List.length_take, Nat.min_eq_left hle]
  obtain ⟨hsize, -⟩ := countMessages_size s.buffer b.size Segment.kSerializedSize
    s.pendingMessages
  have hfit : (countMessages s.buffer b.size Segment.kSerializedSize s.pendingMessages).1
      = s.fitCount b.size := rfl
  rw [hfit] at hsize
  rw [write]
  dsimp only
  rw [hfit]
  -- without a message there is no segment header either
  by_cases hzero : s.fitCount b.size = 0
  · have hnil : msgs = [] := List.length_eq_zero_iff.mp (hlength.trans hzero)
    rw [if_pos hzero, hnil, encodeSegment, if_pos rfl]
    rfl
  · have hne : msgs ≠ [] := fun h => hzero (by rw [← hlength, h]; rfl)
    rw [if_neg hzero, encodeSegment, if_neg hne]
    simp only [Checked.val_bind, Checked.val_pure, writeLoop_memory, Segment.val_write]
    rw [hsize, hlength, Memory.storeList_append]
    refine Prod.ext rfl ?_
    show Segment.kSerializedSize + _ = _
    rw [List.length_append]
    rfl

/-- The segment fits into the span. -/
theorem length_encodeSegment_le (s : ReliableStream) (bufferSize : ℕ) :
    (encodeSegment ((s.pendingMessages.take (s.fitCount bufferSize)).map
      (toWire s.buffer))).length ≤ bufferSize := by
  obtain ⟨hsize, hle⟩ := countMessages_size s.buffer bufferSize Segment.kSerializedSize
    s.pendingMessages
  rw [encodeSegment]
  split
  · exact Nat.zero_le _
  · next hne =>
    have hzero : s.fitCount bufferSize ≠ 0 := by
      intro hzero
      rw [hzero] at hne
      exact hne rfl
    have hbound := hle hzero
    rw [hsize] at hbound
    rw [List.length_append]
    exact hbound

/-! ### Reading -/

/-- The reading loop on the bytes of messages. -/
theorem val_readLoop {b : Span} {mem : Memory} {msgs : List WireMessage} {idx : ℕ}
    (expected : UInt32) (hfits : ∀ msg ∈ msgs, msg.Fits)
    (hsize : idx + (encodeMessages msgs).length ≤ b.size)
    (hmem : mem.slice (b.off + idx) (encodeMessages msgs).length = encodeMessages msgs) :
    (readLoop b mem msgs.length idx expected).val
      = ((receive expected msgs).1, (receive expected msgs).2,
          .ok (idx + (encodeMessages msgs).length)) := by
  induction msgs generalizing idx expected with
  | nil => rfl
  | cons msg msgs ih =>
    obtain ⟨sequenceNumber, payload⟩ := msg
    rw [encodeMessages_cons] at hmem hsize ⊢
    rw [List.length_append, ReliableMessage.length_encode] at hsize ⊢
    obtain ⟨hhead, htail⟩ := Memory.slice_eq_of_append hmem
    rw [ReliableMessage.length_encode, Nat.add_assoc] at htail
    dsimp only at hsize hhead htail ⊢
    obtain ⟨hne, hlength⟩ := hfits _ List.mem_cons_self
    dsimp only at hne hlength
    -- the first message lies at `idx`, the others behind it
    obtain ⟨hvalid, hseq, hpayload, hbytes⟩ := ReliableMessage.read_encode
      (b := ⟨b.off + idx, b.size - idx⟩) hne hlength (by dsimp only; omega) hhead
    have hrest := fun expected => @ih (idx + (6 + payload.length)) expected
      (fun m hm => hfits m (List.mem_cons_of_mem _ hm)) (by omega) htail
    rw [List.length_cons, readLoop]
    simp only [Checked.val_bind, val_advance, usizeSub_of_le (by omega : idx ≤ b.size), hvalid,
      hseq]
    rw [receive]
    by_cases heq : sequenceNumber = expected
    · rw [if_pos heq, if_pos heq]
      dsimp only at hbytes
      simp only [Checked.val_bind, Checked.val_pure, hpayload, hbytes, hrest]
      rw [Nat.add_assoc idx]
    · rw [if_neg heq, if_neg heq, hrest, Nat.add_assoc idx]

/-- **What `read` makes of a segment**, whatever follows it in the packet. -/
theorem val_read (s : ReliableStream) {b : Span} {mem : Memory} {msgs : List WireMessage}
    (hne : msgs ≠ []) (hcount : msgs.length < 2 ^ 8) (hfits : ∀ msg ∈ msgs, msg.Fits)
    (hsize : (encodeSegment msgs).length ≤ b.size)
    (hmem : mem.slice b.off (encodeSegment msgs).length = encodeSegment msgs) :
    (s.read b mem).val
      = ({ s with nextExpectedSequenceNumber :=
            (receive s.nextExpectedSequenceNumber msgs).1 },
          (receive s.nextExpectedSequenceNumber msgs).2, .ok (encodeSegment msgs).length) := by
  rw [encodeSegment, if_neg hne] at hmem hsize ⊢
  obtain ⟨hhead, htail⟩ := Memory.slice_eq_of_append hmem
  simp only [List.length_cons, List.length_nil, Memory.slice, List.cons.injEq, and_true] at hhead
  obtain ⟨htype, hmessages⟩ := hhead
  rw [List.length_append] at hsize ⊢
  simp only [List.length_cons, List.length_nil] at hsize htail ⊢
  have hloop := val_readLoop s.nextExpectedSequenceNumber hfits hsize htail
  -- the count is a single byte
  have hnumber : (UInt8.ofNat msgs.length).toNat = msgs.length := by
    rw [UInt8.toNat_ofNat', Nat.mod_eq_of_lt hcount]
  have hsegment : ¬ Segment.kSerializedSize > b.size := by
    have : Segment.kSerializedSize = 2 := rfl
    omega
  rw [read, if_neg hsegment]
  simp only [Checked.val_bind, Segment.managerType, Segment.messageCount, val_readU8,
    Segment.kManagerTypeOffset, Segment.kMessageCountOffset, Nat.add_zero, Nat.zero_add, htype,
    hmessages, hnumber, ne_eq, not_true_eq_false, ite_false]
  rw [show Segment.kSerializedSize = 0 + 1 + 1 from rfl, hloop]
  rfl

/-- The same for a span that ends with the segment, if there is one at all. -/
theorem val_read_exact (s : ReliableStream) {b : Span} {mem : Memory} {msgs : List WireMessage}
    (hcount : msgs.length < 2 ^ 8) (hfits : ∀ msg ∈ msgs, msg.Fits)
    (hsize : b.size = (encodeSegment msgs).length)
    (hmem : mem.slice b.off (encodeSegment msgs).length = encodeSegment msgs) :
    (s.read b mem).val
      = ({ s with nextExpectedSequenceNumber :=
            (receive s.nextExpectedSequenceNumber msgs).1 },
          (receive s.nextExpectedSequenceNumber msgs).2, .ok (encodeSegment msgs).length) := by
  by_cases hne : msgs = []
  · subst hne
    have hzero : b.size = 0 := hsize
    rw [read, if_pos (by rw [hzero]; exact Nat.zero_lt_two)]
    rfl
  · exact s.val_read hne hcount hfits (Nat.le_of_eq hsize.symm) hmem

end ReliableStream

end Neptun
