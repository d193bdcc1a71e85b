/-
`ReliableStream`: messages that are sent again until a packet that carried them
is acknowledged.

The payloads of the messages that are not acknowledged yet lie one behind the
other in a `FlipBuffer`; a message knows its range of the buffer.  A packet
takes messages from the front of the pending ones and puts them in flight under
its id; an ACK of the packet consumes them, a DROP of any packet moves all
messages in flight back in front of the pending ones.

The loops of the code are recursions over the list they walk through.  The
lemmas at the end say what each operation does to the two lists; the bytes of a
packet are described in `ReliableSegment.lean`.
-/
import Neptun.PacketDeliveryManager
import Neptun.FlipBuffer

namespace Neptun

/-- A range of the bytes of a `FlipBuffer`. -/
structure BufferRange where
  beginIndex : ℕ
  endIndex : ℕ
  deriving DecidableEq, Repr

namespace BufferRange

/-- `operator-=`. -/
def sub (r : BufferRange) (value : ℕ) : Checked Fault BufferRange := do
  Checked.check (r.beginIndex ≥ value) (.assertion .rangeBegin)
  Checked.check (r.endIndex ≥ value) (.assertion .rangeEnd)
  pure ⟨usizeSub r.beginIndex value, usizeSub r.endIndex value⟩

def size (r : BufferRange) : Checked Fault ℕ := do
  Checked.check (r.beginIndex ≤ r.endIndex) (.assertion .rangeSize)
  pure (usizeSub r.endIndex r.beginIndex)

end BufferRange

structure PendingMessage where
  range : BufferRange
  sequenceNumber : UInt32
  deriving DecidableEq, Repr

structure InFlightMessage where
  packetId : PacketId
  message : PendingMessage
  deriving DecidableEq, Repr

structure ReliableStream where
  buffer : FlipBuffer := FlipBuffer.ofCapacity 3200
  inFlightMessages : List InFlightMessage := []
  pendingMessages : List PendingMessage := []
  nextOutgoingSequenceNumber : UInt32 := 0
  nextExpectedSequenceNumber : UInt32 := 0

/-- `buffer_span`: the bytes of a range. -/
def FlipBuffer.bufferSpan (f : FlipBuffer) (range : BufferRange) : List UInt8 :=
  f.buffer.slice range.beginIndex (usizeSub range.endIndex range.beginIndex)

namespace ReliableStream

def ofCapacity (capacity : ℕ) : ReliableStream := { buffer := FlipBuffer.ofCapacity capacity }

/-- The ACK loop: consume the messages of the packet from the front on. -/
def ackLoop (packetId : PacketId) :
    FlipBuffer → List InFlightMessage → Checked Fault (FlipBuffer × List InFlightMessage)
  | buffer, [] => pure (buffer, [])
  | buffer, msg :: msgs =>
    if msg.packetId = packetId then do
      let size ← msg.message.range.size
      ackLoop packetId (buffer.consume size) msgs
    else
      pure (buffer, msg :: msgs)

/-- The DROP loops: the messages in flight are pushed on a stack and from there
to the front of the pending ones. -/
def dropLoop (inFlight : List InFlightMessage) (pending : List PendingMessage) :
    List PendingMessage :=
  let reversedMessages := inFlight.foldl (fun stack msg => msg.message :: stack) []
  reversedMessages.foldl (fun deque msg => msg :: deque) pending

def onPacketDeliveryStatus (s : ReliableStream) (packetId : PacketId)
    (status : PacketDeliveryStatus) : Checked Fault ReliableStream :=
  match status with
  | .ack => do
    let (buffer, inFlight) ← ackLoop packetId s.buffer s.inFlightMessages
    Checked.check (∀ msg ∈ inFlight.head?, msg.packetId > packetId) (.assertion .ackOrder)
    pure { s with buffer := buffer, inFlightMessages := inFlight }
  | .drop => do
    Checked.check (∀ msg ∈ s.inFlightMessages.head?, msg.packetId ≥ packetId)
      (.assertion .dropOrder)
    pure { s with
      inFlightMessages := []
      pendingMessages := dropLoop s.inFlightMessages s.pendingMessages }

/-- The loop of `read`, with `n` messages left at index `idx`: the next expected
sequence number, the payloads given to the callback, and the result. -/
def readLoop (b : Span) (mem : Memory) :
    ℕ → ℕ → UInt32 → Checked Fault (UInt32 × List (List UInt8) × Except NeptunError ℕ)
  | 0, idx, expected => pure (expected, [], .ok idx)
  | n + 1, idx, expected => do
    let message ← advance b idx
    let msgSize ← ReliableMessage.validateSize message mem
    match msgSize with
    | .error _ => pure (expected, [], .error .malformedPacket)
    | .ok size =>
      let sequenceNumber ← ReliableMessage.sequenceNumber message mem
      if sequenceNumber = expected then
        let payload ← ReliableMessage.payload message mem
        let (expected, payloads, result) ← readLoop b mem n (idx + size) (expected + 1)
        pure (expected, mem.slice payload.off payload.size :: payloads, result)
      else
        readLoop b mem n (idx + size) expected

/-- The payloads are those given to the callback. -/
def read (s : ReliableStream) (b : Span) (mem : Memory) :
    Checked Fault (ReliableStream × List (List UInt8) × Except NeptunError ℕ) :=
  if Segment.kSerializedSize > b.size then
    pure (s, [], .ok 0)
  else do
    let managerType ← Segment.managerType b mem
    if managerType ≠ ManagerType.reliableStream.toU8 then
      pure (s, [], .ok 0)
    else
      let messageCount ← Segment.messageCount b mem
      let (expected, payloads, result) ← readLoop b mem messageCount.toNat
        Segment.kSerializedSize s.nextExpectedSequenceNumber
      pure ({ s with nextExpectedSequenceNumber := expected }, payloads, result)

/-- The sizing loop of `write`: how many of the messages fit behind the
`totalSize` bytes used so far, and the bytes used by then. -/
def countMessages (f : FlipBuffer) (bufferSize : ℕ) : ℕ → List PendingMessage → ℕ × ℕ
  | totalSize, [] => (0, totalSize)
  | totalSize, msg :: msgs =>
    let msgSize := ReliableMessage.serializedSize (f.bufferSpan msg.range).length
    if totalSize + msgSize > bufferSize then
      (0, totalSize)
    else
      let (messageCount, totalSize) := countMessages f bufferSize (totalSize + msgSize) msgs
      (messageCount + 1, totalSize)

/-- The writing loop of `write`, with `n` messages left to write at `idx`. -/
def writeLoop (f : FlipBuffer) (packetId : PacketId) (b : Span) :
    ℕ → ℕ → List PendingMessage → List InFlightMessage → Memory →
      Checked Fault (List PendingMessage × List InFlightMessage × Memory × ℕ)
  | 0, idx, pending, inFlight, mem => pure (pending, inFlight, mem, idx)
  | _ + 1, idx, [], inFlight, mem => pure ([], inFlight, mem, idx)
  | n + 1, idx, msg :: pending, inFlight, mem => do
    let payload := f.bufferSpan msg.range
    let message ← advance b idx
    let (mem, totalMessageSize) ← ReliableMessage.write message mem msg.sequenceNumber
      (UInt16.ofNat payload.length) payload
    Checked.check (totalMessageSize ≤ usizeSub b.size idx) (.assertion .messageSize)
    writeLoop f packetId b n (idx + totalMessageSize) pending (inFlight ++ [⟨packetId, msg⟩]) mem

def write (s : ReliableStream) (packetId : PacketId) (b : Span) (mem : Memory) :
    Checked Fault (ReliableStream × Memory × ℕ) :=
  let (messageCount, totalSize) :=
    countMessages s.buffer b.size Segment.kSerializedSize s.pendingMessages
  if messageCount = 0 then
    pure (s, mem, 0)
  else do
    let (mem, idx) ← Segment.write b mem ManagerType.reliableStream.toU8
      (UInt8.ofNat messageCount)
    let (pending, inFlight, mem, idx) ← writeLoop s.buffer packetId b messageCount idx
      s.pendingMessages s.inFlightMessages mem
    Checked.check (idx = totalSize) (.assertion .totalSize)
    pure ({ s with pendingMessages := pending, inFlightMessages := inFlight }, mem, totalSize)

/-- `range -= value` for every message in flight. -/
def rebaseInFlight (value : ℕ) : List InFlightMessage → Checked Fault (List InFlightMessage)
  | [] => pure []
  | msg :: msgs => do
    let range ← msg.message.range.sub value
    let msgs ← rebaseInFlight value msgs
    pure ({ msg with message := { msg.message with range := range } } :: msgs)

/-- `range -= value` for every pending message. -/
def rebasePending (value : ℕ) : List PendingMessage → Checked Fault (List PendingMessage)
  | [] => pure []
  | msg :: msgs => do
    let range ← msg.range.sub value
    let msgs ← rebasePending value msgs
    pure ({ msg with range := range } :: msgs)

def maybeFlip (s : ReliableStream) : Checked Fault ReliableStream :=
  if s.buffer.beginIndex > 0 then do
    let inFlight ← rebaseInFlight s.buffer.beginIndex s.inFlightMessages
    let pending ← rebasePending s.buffer.beginIndex s.pendingMessages
    pure { s with
      inFlightMessages := inFlight
      pendingMessages := pending
      buffer := s.buffer.flip }
  else
    pure s

def send (s : ReliableStream) (fn : WriteToBufferFn) : Checked Fault ReliableStream := do
  let s ← s.maybeFlip
  let (buffer, size) := s.buffer.writeRemaining fn
  let s := { s with buffer := buffer }
  if size ≠ 0 then
    let message : PendingMessage :=
      ⟨⟨s.buffer.endIndex, s.buffer.endIndex + size⟩, s.nextOutgoingSequenceNumber⟩
    let buffer ← s.buffer.advance size
    pure { s with
      nextOutgoingSequenceNumber := s.nextOutgoingSequenceNumber + 1
      pendingMessages := s.pendingMessages ++ [message]
      buffer := buffer }
  else
    pure s

/-- The messages that are not acknowledged yet, in the order of their sequence
numbers. -/
def messages (s : ReliableStream) : List PendingMessage :=
  s.inFlightMessages.map (·.message) ++ s.pendingMessages

/-! ### Delivery statuses -/

theorem dropLoop_eq (inFlight : List InFlightMessage) (pending : List PendingMessage) :
    dropLoop inFlight pending = inFlight.map (·.message) ++ pending := by
  -- the messages go through a stack and are reversed twice
  have hstack : ∀ (msgs : List InFlightMessage) (stack : List PendingMessage),
      msgs.foldl (fun stack msg => msg.message :: stack) stack
        = (msgs.map (·.message)).reverse ++ stack := by
    intro msgs
    induction msgs with
    | nil => exact fun stack => rfl
    | cons msg msgs ih =>
      intro stack
      rw [List.foldl_cons, ih, List.map_cons, List.reverse_cons, List.append_assoc]
      rfl
  have hdeque : ∀ (msgs deque : List PendingMessage),
      msgs.foldl (fun deque msg => msg :: deque) deque = msgs.reverse ++ deque := by
    intro msgs
    induction msgs with
    | nil => exact fun deque => rfl
    | cons msg msgs ih =>
      intro deque
      rw [List.foldl_cons, ih, List.reverse_cons, List.append_assoc]
      rfl
  rw [dropLoop, hstack, hdeque, List.append_nil, List.reverse_reverse]

/-- The ACK loop takes off the messages in front that are tagged with the
packet. -/
theorem ackLoop_inFlight (packetId : PacketId) (buffer : FlipBuffer)
    (inFlight : List InFlightMessage) :
    (ackLoop packetId buffer inFlight).val.2
      = inFlight.dropWhile (fun msg => msg.packetId = packetId) := by
  induction inFlight generalizing buffer with
  | nil => rfl
  | cons msg msgs ih =>
    rw [ackLoop]
    by_cases h : msg.packetId = packetId
    · rw [if_pos h, List.dropWhile_cons_of_pos (by simpa using h), Checked.val_bind, ih]
    · rw [if_neg h, List.dropWhile_cons_of_neg (by simpa using h), Checked.val_pure]

theorem avoids_ackLoop {bad : Fault → Prop} (hsize : ¬ bad (.assertion .rangeSize))
    (packetId : PacketId) (buffer : FlipBuffer) (inFlight : List InFlightMessage) :
    (ackLoop packetId buffer inFlight).Avoids bad := by
  induction inFlight generalizing buffer with
  | nil => exact Checked.avoids_pure _
  | cons msg inFlight ih =>
    simp only [ackLoop, BufferRange.size, Checked.avoids_ite, Checked.avoids_bind,
      Checked.avoids_check, Checked.avoids_pure, hsize, false_imp_iff, ih, implies_true,
      and_self]

theorem inFlightMessages_ack (s : ReliableStream) (packetId : PacketId) :
    (s.onPacketDeliveryStatus packetId .ack).val.inFlightMessages
      = s.inFlightMessages.dropWhile (fun msg => msg.packetId = packetId) := by
  rw [← ackLoop_inFlight packetId s.buffer]
  rfl

/-- A drop of any packet sends every message again. -/
theorem val_drop (s : ReliableStream) (packetId : PacketId) :
    (s.onPacketDeliveryStatus packetId .drop).val
      = { s with inFlightMessages := [], pendingMessages := s.messages } := by
  simp only [onPacketDeliveryStatus, Checked.val_bind, Checked.val_pure, dropLoop_eq, messages]

/-! ### Writing -/

theorem countMessages_le (f : FlipBuffer) (bufferSize totalSize : ℕ)
    (msgs : List PendingMessage) : (countMessages f bufferSize totalSize msgs).1 ≤ msgs.length := by
  induction msgs generalizing totalSize with
  | nil => exact Nat.le_refl 0
  | cons msg msgs ih =>
    rw [countMessages]
    dsimp only
    split
    · exact Nat.zero_le _
    · exact Nat.succ_le_succ (ih _)

theorem writeLoop_lists (f : FlipBuffer) (packetId : PacketId) (b : Span) (n idx : ℕ)
    (pending : List PendingMessage) (inFlight : List InFlightMessage) (mem : Memory) :
    (writeLoop f packetId b n idx pending inFlight mem).val.1 = pending.drop n ∧
    (writeLoop f packetId b n idx pending inFlight mem).val.2.1
      = inFlight ++ (pending.take n).map (InFlightMessage.mk packetId) := by
  induction n generalizing idx pending inFlight mem with
  | zero => simp [writeLoop]
  | succ n ih =>
    cases pending with
    | nil => simp [writeLoop]
    | cons msg pending =>
      simp only [writeLoop, Checked.val_bind]
      obtain ⟨h1, h2⟩ := ih (idx + _) pending (inFlight ++ [⟨packetId, msg⟩]) _
      rw [h1, h2]
      simp

/-- The number of messages that `write` puts into a buffer of the given size. -/
def fitCount (s : ReliableStream) (bufferSize : ℕ) : ℕ :=
  (countMessages s.buffer bufferSize Segment.kSerializedSize s.pendingMessages).1

/-- `write` moves the messages that fit from the pending ones into flight. -/
theorem write_state (s : ReliableStream) (packetId : PacketId) (b : Span) (mem : Memory) :
    (s.write packetId b mem).val.1
      = { s with
          pendingMessages := s.pendingMessages.drop (s.fitCount b.size)
          inFlightMessages := s.inFlightMessages
            ++ (s.pendingMessages.take (s.fitCount b.size)).map
              (InFlightMessage.mk packetId) } := by
  rw [write, fitCount]
  dsimp only
  split
  · next h => simp [h]
  · simp only [Checked.val_bind, Checked.val_pure]
    obtain ⟨h1, h2⟩ := writeLoop_lists s.buffer packetId b
      (countMessages s.buffer b.size Segment.kSerializedSize s.pendingMessages).1
      (1 + 1) s.pendingMessages s.inFlightMessages
      (Segment.write b mem ManagerType.reliableStream.toU8 (UInt8.ofNat
        (countMessages s.buffer b.size Segment.kSerializedSize s.pendingMessages).1)).val.1
    rw [← h1, ← h2]
    rfl

theorem messages_write (s : ReliableStream) (packetId : PacketId) (b : Span) (mem : Memory) :
    (s.write packetId b mem).val.1.messages = s.messages := by
  have hmap : InFlightMessage.message ∘ InFlightMessage.mk packetId = id := rfl
  rw [write_state]
  simp only [messages, List.map_append, List.map_map, hmap, List.map_id, List.append_assoc,
    List.take_append_drop]

/-- The checks of `write`. -/
theorem avoids_write {bad : Fault → Prop} (hstore : ¬ bad .store) (hadvance : ¬ bad .advance)
    (hmessage : ¬ bad (.assertion .messageSize)) (htotal : ¬ bad (.assertion .totalSize))
    (s : ReliableStream) (packetId : PacketId) (b : Span) (mem : Memory) :
    (s.write packetId b mem).Avoids bad := by
  have hloop : ∀ (n idx : ℕ) (pending : List PendingMessage) (inFlight : List InFlightMessage)
      (mem : Memory), (writeLoop s.buffer packetId b n idx pending inFlight mem).Avoids bad := by
    intro n
    induction n with
    | zero => exact fun _ _ _ _ => Checked.avoids_pure _
    | succ n ih =>
      intro idx pending inFlight mem
      cases pending with
      | nil => exact Checked.avoids_pure _
      | cons msg pending =>
        simp only [writeLoop, ReliableMessage.write, writeU32, writeU16, Checked.avoids_bind,
          Checked.avoids_check, Checked.avoids_pure, avoids_advance,
          avoids_writeUnsigned hstore, avoids_writeByteArray hstore, hadvance, hmessage,
          false_imp_iff, and_true, ih]
  simp only [write, Segment.write, writeU8, Checked.avoids_ite, Checked.avoids_bind,
    Checked.avoids_check, Checked.avoids_pure, avoids_writeUnsigned hstore, htotal, hloop,
    false_imp_iff, implies_true, and_self]

/-! ### Sending -/

theorem rebaseInFlight_packetId (value : ℕ) (msgs : List InFlightMessage) :
    (rebaseInFlight value msgs).val.map (·.packetId) = msgs.map (·.packetId) := by
  induction msgs with
  | nil => rfl
  | cons msg msgs ih =>
    simp only [rebaseInFlight, Checked.val_bind, Checked.val_pure, List.map_cons, ih]

/-- `send` leaves the messages in flight with the packets they went with. -/
theorem send_packetId (s : ReliableStream) (fn : WriteToBufferFn) :
    (s.send fn).val.inFlightMessages.map (·.packetId)
      = s.inFlightMessages.map (·.packetId) := by
  have hflip : s.maybeFlip.val.inFlightMessages.map (·.packetId)
      = s.inFlightMessages.map (·.packetId) := by
    rw [maybeFlip]
    split
    · exact rebaseInFlight_packetId _ _
    · rfl
  rw [← hflip, send]
  simp only [Checked.val_bind]
  split <;> rfl

theorem send_nextExpected (s : ReliableStream) (fn : WriteToBufferFn) :
    (s.send fn).val.nextExpectedSequenceNumber = s.nextExpectedSequenceNumber := by
  have hflip : s.maybeFlip.val.nextExpectedSequenceNumber = s.nextExpectedSequenceNumber := by
    rw [maybeFlip]
    split <;> rfl
  rw [← hflip, send]
  simp only [Checked.val_bind]
  split <;> rfl

theorem status_nextExpected (s : ReliableStream) (packetId : PacketId)
    (status : PacketDeliveryStatus) :
    (s.onPacketDeliveryStatus packetId status).val.nextExpectedSequenceNumber
      = s.nextExpectedSequenceNumber := by
  cases status <;> rfl

end ReliableStream

end Neptun
