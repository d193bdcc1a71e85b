/-
Spans, machine sizes and the run-time obligations of the code.

The code works on `std::span<u8>` views of a few fixed buffers.  A `Span` is
such a view: the address of its first byte in the memory behind it and its
number of bytes.  C++ checks nothing here: an index outside the span reads or
writes whatever is at that address, and `advance` past the end leaves a span
whose size has wrapped around.  Both are modelled as they happen and recorded
as a `Fault`, next to the failed `assert`s and the pops of empty queues.

Sizes (`usize`) are natural numbers; the one place where the code can underflow
them is `advance`, which wraps modulo `2 ^ 64`.
-/
import Neptun.Library.Checked
import Neptun.Library.Memory

namespace Neptun

/-- The `assert`s of the modelled code, by what they check. -/
inductive Assertion
  /-- `BufferRange::operator-=`: `begin >= value`. -/
  | rangeBegin
  /-- `BufferRange::operator-=`: `end >= value`. -/
  | rangeEnd
  /-- `BufferRange::size`: `begin <= end`. -/
  | rangeSize
  /-- `FlipBuffer::advance`: `m_end + count <= m_buffer.capacity()`. -/
  | flipAdvance
  /-- `ReliableStream`, after an ACK: `front().packet_id > packet_id`. -/
  | ackOrder
  /-- `ReliableStream`, on a DROP: `front().packet_id >= packet_id`. -/
  | dropOrder
  /-- A stream's `write`: `total_message_size <= buffer.size() - idx`. -/
  | messageSize
  /-- A stream's `write`: `idx == total_size`. -/
  | totalSize
  /-- `process_acks`: `delta <= sizeof(u32) * 8`. -/
  | ackDelta
  /-- `PacketDeliveryManager::write`: `write_count == kSerializedSize`. -/
  | headerSize
  /-- `PacketDeliveryManager::write`: `pending_packet_id_ack >= ack_sequence_number`. -/
  | pendingAck
  /-- `process_packet_header`: `header.id() > m_next_expected_packet_id`. -/
  | newerPacket
  /-- `ConnectionManager::write`: `idx < buffer.size()`. -/
  | handshakeSize
  /-- `Neptun::send_reliable_to` and `send_unreliable_to`: `is_connected(ip)`. -/
  | isConnected
  /-- `format_neptun_payload`: `segment.message_count() == 1`. -/
  | formatMessageCount
  deriving DecidableEq, Repr

/-- The ways in which a call can break a run-time obligation. -/
inductive Fault
  /-- A byte is read outside the span. -/
  | load
  /-- A byte is written outside the span. -/
  | store
  /-- A span is advanced past its end. -/
  | advance
  /-- An empty `std::queue` is popped. -/
  | popEmpty
  /-- The front of an empty `std::queue` is read. -/
  | frontEmpty
  /-- A remainder is taken modulo zero. -/
  | moduloZero
  /-- An `int` is shifted by its width or more. -/
  | shift
  /-- A loop has no end. -/
  | endless
  /-- An `assert` fails. -/
  | assertion (a : Assertion)
  deriving DecidableEq, Repr

/-- A view of `size` bytes from address `off` on. -/
structure Span where
  off : ℕ
  size : ℕ
  deriving DecidableEq, Repr

/-- Subtraction of `usize`s, which wraps. -/
def usizeSub (a b : ℕ) : ℕ := if b ≤ a then a - b else 2 ^ 64 - (b - a)

/-- `1 << count`, whose one is an `int`. -/
def shiftOne (count : ℕ) : Checked Fault ℤ := do
  Checked.check (count < 32) .shift
  pure (1#32 <<< count).toInt

/-- `m_buffer[i]`, read. -/
def Span.load (b : Span) (mem : Memory) (i : ℕ) : Checked Fault UInt8 := do
  Checked.check (i < b.size) .load
  pure (mem (b.off + i))

/-- `m_buffer[i] = byte`. -/
def Span.store (b : Span) (mem : Memory) (i : ℕ) (byte : UInt8) : Checked Fault Memory := do
  Checked.check (i < b.size) .store
  pure (mem.store (b.off + i) byte)

/-- `span.last(span.size() - count)`. -/
def advance (b : Span) (count : ℕ) : Checked Fault Span := do
  Checked.check (count ≤ b.size) .advance
  pure ⟨b.off + count, usizeSub b.size count⟩

theorem usizeSub_of_le {a b : ℕ} (h : b ≤ a) : usizeSub a b = a - b := if_pos h

@[simp] theorem Span.val_load (b : Span) (mem : Memory) (i : ℕ) :
    (b.load mem i).val = mem (b.off + i) := (rfl)

@[simp] theorem Span.val_store (b : Span) (mem : Memory) (i : ℕ) (byte : UInt8) :
    (b.store mem i byte).val = mem.store (b.off + i) byte := (rfl)

@[simp] theorem val_advance (b : Span) (count : ℕ) :
    (advance b count).val = ⟨b.off + count, usizeSub b.size count⟩ := (rfl)

theorem Span.avoids_load {bad : Fault → Prop} {b : Span} {mem : Memory} {i : ℕ} :
    (b.load mem i).Avoids bad ↔ (bad .load → i < b.size) := by
  rw [Span.load, Checked.avoids_bind, Checked.avoids_check]
  exact and_iff_left (Checked.avoids_pure _)

theorem Span.avoids_store {bad : Fault → Prop} {b : Span} {mem : Memory} {i : ℕ}
    {byte : UInt8} : (b.store mem i byte).Avoids bad ↔ (bad .store → i < b.size) := by
  rw [Span.store, Checked.avoids_bind, Checked.avoids_check]
  exact and_iff_left (Checked.avoids_pure _)

theorem avoids_advance {bad : Fault → Prop} {b : Span} {count : ℕ} :
    (advance b count).Avoids bad ↔ (bad .advance → count ≤ b.size) := by
  rw [advance, Checked.avoids_bind, Checked.avoids_check]
  exact and_iff_left (Checked.avoids_pure _)

theorem advance_of_le {b : Span} {count : ℕ} (h : count ≤ b.size) :
    advance b count = pure ⟨b.off + count, b.size - count⟩ := by
  refine Checked.eq_pure ?_ (avoids_advance.mpr fun _ => h)
  rw [val_advance, usizeSub_of_le h]

end Neptun
