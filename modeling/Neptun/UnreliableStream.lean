/-
`UnreliableStream`: messages that are put into the next packet or dropped.

The payloads lie in a `FlipBuffer`; a pending message is the span of its bytes.
-/
import Neptun.Messages
import Neptun.FlipBuffer

namespace Neptun

structure UnreliableStream where
  buffer : FlipBuffer := FlipBuffer.ofCapacity 3200
  pendingMessages : List Span := []

namespace UnreliableStream

def ofCapacity (capacity : ℕ) : UnreliableStream := { buffer := FlipBuffer.ofCapacity capacity }

/-- The loop of `read`, with `n` messages left at index `idx`: the payloads given
to the callback and the result. -/
def readLoop (b : Span) (mem : Memory) :
    ℕ → ℕ → Checked Fault (List (List UInt8) × Except NeptunError ℕ)
  | 0, idx => pure ([], .ok idx)
  | n + 1, idx => do
    let message ← advance b idx
    let msgSize ← UnreliableMessage.validateSize message mem
    match msgSize with
    | .error _ => pure ([], .error .malformedPacket)
    | .ok size =>
      let payload ← UnreliableMessage.payload message mem
      let (payloads, result) ← readLoop b mem n (idx + size)
      pure (mem.slice payload.off payload.size :: payloads, result)

/-- Reading leaves the stream as it is; the payloads are those given to the
callback. -/
def read (b : Span) (mem : Memory) :
    Checked Fault (List (List UInt8) × Except NeptunError ℕ) :=
  if Segment.kSerializedSize > b.size then
    pure ([], .ok 0)
  else do
    let managerType ← Segment.managerType b mem
    if managerType ≠ ManagerType.unreliableStream.toU8 then
      pure ([], .ok 0)
    else
      let messageCount ← Segment.messageCount b mem
      readLoop b mem messageCount.toNat Segment.kSerializedSize

/-- The sizing loop of `write`. -/
def countMessages (bufferSize : ℕ) : ℕ → List Span → ℕ × ℕ
  | totalSize, [] => (0, totalSize)
  | totalSize, payload :: payloads =>
    let msgSize := UnreliableMessage.serializedSize payload.size
    if totalSize + msgSize > bufferSize then
      (0, totalSize)
    else
      let (messageCount, totalSize) := countMessages bufferSize (totalSize + msgSize) payloads
      (messageCount + 1, totalSize)

/-- The writing loop of `write`, with `n` messages left to write at `idx`. -/
def writeLoop (b : Span) :
    ℕ → ℕ → FlipBuffer → List Span → Memory → Checked Fault (FlipBuffer × Memory × ℕ)
  | 0, idx, buffer, _, mem => pure (buffer, mem, idx)
  | _ + 1, idx, buffer, [], mem => pure (buffer, mem, idx)
  | n + 1, idx, buffer, payload :: pending, mem => do
    let buffer := buffer.consume payload.size
    let message ← advance b idx
    let (mem, totalMessageSize) ← UnreliableMessage.write message mem
      (UInt16.ofNat payload.size) (buffer.buffer.slice payload.off payload.size)
    Checked.check (totalMessageSize ≤ usizeSub b.size idx) (.assertion .messageSize)
    writeLoop b n (idx + totalMessageSize) buffer pending mem

def write (s : UnreliableStream) (b : Span) (mem : Memory) :
    Checked Fault (UnreliableStream × Memory × ℕ) :=
  let (messageCount, totalSize) :=
    countMessages b.size Segment.kSerializedSize s.pendingMessages
  if messageCount = 0 then
    pure (s, mem, 0)
  else do
    let (mem, idx) ← Segment.write b mem ManagerType.unreliableStream.toU8
      (UInt8.ofNat messageCount)
    let (buffer, mem, idx) ← writeLoop b messageCount idx s.buffer s.pendingMessages mem
    Checked.check (idx = totalSize) (.assertion .totalSize)
    -- the messages that did not fit are dropped
    pure ({ s with buffer := buffer.flip, pendingMessages := [] }, mem, totalSize)

def send (s : UnreliableStream) (fn : WriteToBufferFn) : Checked Fault UnreliableStream := do
  let payloadOffset := s.buffer.endIndex
  let (buffer, size) := s.buffer.writeRemaining fn
  let s := { s with buffer := buffer }
  if size ≠ 0 then
    let buffer ← s.buffer.advance size
    pure { s with
      pendingMessages := s.pendingMessages ++ [⟨payloadOffset, size⟩]
      buffer := buffer }
  else
    pure s

end UnreliableStream

end Neptun
