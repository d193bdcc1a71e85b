/-
The messages of the wire format: `PacketHeader`, `Segment`, `MessageHeader`,
`LetsConnect`, `RejectLetsConnect`, `ReliableMessage` and `UnreliableMessage`.

In the code each of them is a view of a span with one accessor per field and a
static `write`; here the accessors are functions of the span and of the memory
behind it.  Field offsets and serialized sizes are defined independently of
each other, as in the code.  In `LetsConnect` they disagree: the offset of
`max_send_packet_size` skips a byte behind the two rates, so the message ends
at its seventh byte while its serialized size is six.

* `PacketHeader.val_write`, `PacketHeader.val_read` — a header is the three
  big-endian words of `PacketHeader.encode`, and is read back from them;
* `ReliableMessage.val_write`, `ReliableMessage.read_encode` and the same for
  `UnreliableMessage` — a message is its `encode`, and a memory that holds it is
  read as this message.
-/
import Neptun.IoBuffer

namespace Neptun

abbrev PacketId := UInt32

/-- Who a segment of a packet is for. -/
inductive ManagerType
  | connectionManager
  | moveManager
  | latestStateManager
  | reliableStream
  | unreliableStream
  deriving DecidableEq, Repr

def ManagerType.toU8 : ManagerType → UInt8
  | .connectionManager => 0
  | .moveManager => 1
  | .latestStateManager => 2
  | .reliableStream => 3
  | .unreliableStream => 4

inductive NeptunError
  | malformedPacket
  | peerNotResponding
  | letsConnectRejected
  deriving DecidableEq, Repr

inductive EncodingError
  | malformedBuffer
  deriving DecidableEq, Repr

/-- The fields of a packet header. -/
@[ext]
structure PacketHeader where
  id : PacketId
  ackSequenceNumber : UInt32
  ackBitmask : UInt32
  deriving DecidableEq, Repr

namespace PacketHeader

def kIdOffset : ℕ := 0
def kAckSequenceNumberOffset : ℕ := kIdOffset + 4
def kAckBitmaskOffset : ℕ := kAckSequenceNumberOffset + 4
def kSerializedSize : ℕ := 4 + 4 + 4

def write (b : Span) (mem : Memory) (h : PacketHeader) : Checked Fault (Memory × ℕ) := do
  let mem ← writeU32 b mem h.id kIdOffset
  let mem ← writeU32 b mem h.ackSequenceNumber kAckSequenceNumberOffset
  let mem ← writeU32 b mem h.ackBitmask kAckBitmaskOffset
  pure (mem, 4 + 4 + 4)

def readId (b : Span) (mem : Memory) : Checked Fault PacketId :=
  readU32 b mem kIdOffset

def readAckSequenceNumber (b : Span) (mem : Memory) : Checked Fault UInt32 :=
  readU32 b mem kAckSequenceNumberOffset

def readAckBitmask (b : Span) (mem : Memory) : Checked Fault UInt32 :=
  readU32 b mem kAckBitmaskOffset

/-- All fields of the header at the beginning of a span. -/
def read (b : Span) (mem : Memory) : Checked Fault PacketHeader := do
  let ackSequenceNumber ← readAckSequenceNumber b mem
  let ackBitmask ← readAckBitmask b mem
  let id ← readId b mem
  pure ⟨id, ackSequenceNumber, ackBitmask⟩

/-- The bytes of a header. -/
def encode (h : PacketHeader) : List UInt8 :=
  beEncode 4 h.id.toNat ++ beEncode 4 h.ackSequenceNumber.toNat
    ++ beEncode 4 h.ackBitmask.toNat

@[simp] theorem length_encode (h : PacketHeader) : h.encode.length = 12 := by
  simp [encode]

end PacketHeader

namespace Segment

def kManagerTypeOffset : ℕ := 0
def kMessageCountOffset : ℕ := kManagerTypeOffset + 1
def kSerializedSize : ℕ := 1 + 1

def write (b : Span) (mem : Memory) (managerType messageCount : UInt8) :
    Checked Fault (Memory × ℕ) := do
  let mem ← writeU8 b mem managerType kManagerTypeOffset
  let mem ← writeU8 b mem messageCount kMessageCountOffset
  pure (mem, 1 + 1)

def managerType (b : Span) (mem : Memory) : Checked Fault UInt8 :=
  readU8 b mem kManagerTypeOffset

def messageCount (b : Span) (mem : Memory) : Checked Fault UInt8 :=
  readU8 b mem kMessageCountOffset

end Segment

namespace MessageHeader

def kMessageTypeOffset : ℕ := 0
def kSerializedSize : ℕ := 1

def write (b : Span) (mem : Memory) (messageType : UInt8) : Checked Fault (Memory × ℕ) := do
  let mem ← writeU8 b mem messageType kMessageTypeOffset
  pure (mem, 1)

def messageType (b : Span) (mem : Memory) : Checked Fault UInt8 :=
  readU8 b mem kMessageTypeOffset

end MessageHeader

namespace LetsConnect

def kId : UInt8 := 0
def kSerializedSize : ℕ := 1 + 1 + 2 + 2
def kMaxSendPacketRate : ℕ := 0
def kMaxReadPacketRate : ℕ := kMaxSendPacketRate + 1
-- `sizeof(u16)` behind a rate of one byte
def kMaxSendPacketSize : ℕ := kMaxReadPacketRate + 2
def kMaxReadPacketSize : ℕ := kMaxSendPacketSize + 2

def write (b : Span) (mem : Memory) (maxSendPacketRate maxReadPacketRate : UInt8)
    (maxSendPacketSize maxReadPacketSize : UInt16) : Checked Fault (Memory × ℕ) := do
  let mem ← writeU8 b mem maxSendPacketRate kMaxSendPacketRate
  let mem ← writeU8 b mem maxReadPacketRate kMaxReadPacketRate
  let mem ← writeU16 b mem maxSendPacketSize kMaxSendPacketSize
  let mem ← writeU16 b mem maxReadPacketSize kMaxReadPacketSize
  pure (mem, 1 + 1 + 2 + 2)

def maxSendPacketRate (b : Span) (mem : Memory) : Checked Fault UInt8 :=
  readU8 b mem kMaxSendPacketRate

def maxReadPacketRate (b : Span) (mem : Memory) : Checked Fault UInt8 :=
  readU8 b mem kMaxReadPacketRate

def maxSendPacketSize (b : Span) (mem : Memory) : Checked Fault UInt16 :=
  readU16 b mem kMaxSendPacketSize

def maxReadPacketSize (b : Span) (mem : Memory) : Checked Fault UInt16 :=
  readU16 b mem kMaxReadPacketSize

end LetsConnect

namespace RejectLetsConnect

def kId : UInt8 := 1
def kSerializedSize : ℕ := 0

/-- A rejection has no body. -/
def write (_ : Span) (mem : Memory) : Checked Fault (Memory × ℕ) := pure (mem, 0)

end RejectLetsConnect

/-- `validate_size` of a message whose header has `minimumSize` bytes, the last
two of which hold its length at `lengthOffset`. -/
def validateSize (minimumSize lengthOffset : ℕ) (b : Span) (mem : Memory) :
    Checked Fault (Except EncodingError ℕ) :=
  if minimumSize > b.size then
    pure (.error .malformedBuffer)
  else do
    let length ← readU16 b mem lengthOffset
    let totalSize := minimumSize + length.toNat
    -- a message must not be empty
    if totalSize > b.size ∨ totalSize = minimumSize then
      pure (.error .malformedBuffer)
    else
      pure (.ok totalSize)

namespace ReliableMessage

def kSequenceNumberOffset : ℕ := 0
def kLengthOffset : ℕ := kSequenceNumberOffset + 4
def kPayloadOffset : ℕ := kLengthOffset + 2

def serializedSize (payloadSize : ℕ) : ℕ := 4 + 2 + payloadSize

def write (b : Span) (mem : Memory) (sequenceNumber : UInt32) (length : UInt16)
    (payload : List UInt8) : Checked Fault (Memory × ℕ) := do
  let mem ← writeU32 b mem sequenceNumber kSequenceNumberOffset
  let mem ← writeU16 b mem length kLengthOffset
  let mem ← writeByteArray b payload kPayloadOffset mem
  pure (mem, 4 + 2 + payload.length)

def sequenceNumber (b : Span) (mem : Memory) : Checked Fault UInt32 :=
  readU32 b mem kSequenceNumberOffset

def length (b : Span) (mem : Memory) : Checked Fault UInt16 :=
  readU16 b mem kLengthOffset

def payload (b : Span) (mem : Memory) : Checked Fault Span := do
  let length ← length b mem
  pure (readByteArray b kPayloadOffset length.toNat)

/-- `serialized_size` of a message in a span. -/
def readSerializedSize (b : Span) (mem : Memory) : Checked Fault ℕ := do
  let length ← readU16 b mem kLengthOffset
  pure (4 + 2 + length.toNat)

def validateSize (b : Span) (mem : Memory) : Checked Fault (Except EncodingError ℕ) :=
  Neptun.validateSize (4 + 2) kLengthOffset b mem

/-- The bytes of a message. -/
def encode (sequenceNumber : UInt32) (payload : List UInt8) : List UInt8 :=
  beEncode 4 sequenceNumber.toNat ++ beEncode 2 (UInt16.ofNat payload.length).toNat ++ payload

@[simp] theorem length_encode (sequenceNumber : UInt32) (payload : List UInt8) :
    (encode sequenceNumber payload).length = 6 + payload.length := by
  simp only [encode, List.length_append, length_beEncode]

end ReliableMessage

namespace UnreliableMessage

def kLengthOffset : ℕ := 0
def kPayloadOffset : ℕ := kLengthOffset + 2

def serializedSize (payloadSize : ℕ) : ℕ := 2 + payloadSize

def write (b : Span) (mem : Memory) (length : UInt16) (payload : List UInt8) :
    Checked Fault (Memory × ℕ) := do
  let mem ← writeU16 b mem length kLengthOffset
  let mem ← writeByteArray b payload kPayloadOffset mem
  pure (mem, 2 + payload.length)

def length (b : Span) (mem : Memory) : Checked Fault UInt16 :=
  readU16 b mem kLengthOffset

def payload (b : Span) (mem : Memory) : Checked Fault Span := do
  let length ← length b mem
  pure (readByteArray b kPayloadOffset length.toNat)

/-- `serialized_size` of a message in a span. -/
def readSerializedSize (b : Span) (mem : Memory) : Checked Fault ℕ := do
  let length ← readU16 b mem kLengthOffset
  pure (2 + length.toNat)

def validateSize (b : Span) (mem : Memory) : Checked Fault (Except EncodingError ℕ) :=
  Neptun.validateSize 2 kLengthOffset b mem

/-- The bytes of a message. -/
def encode (payload : List UInt8) : List UInt8 :=
  beEncode 2 (UInt16.ofNat payload.length).toNat ++ payload

@[simp] theorem length_encode (payload : List UInt8) :
    (encode payload).length = 2 + payload.length := by
  simp only [encode, List.length_append, length_beEncode]

end UnreliableMessage

/-! ### The packet header on the wire -/

theorem PacketHeader.val_write (b : Span) (mem : Memory) (h : PacketHeader) :
    (PacketHeader.write b mem h).val = (mem.storeList b.off h.encode, 12) := by
  simp [PacketHeader.write, PacketHeader.encode, writeU32, Memory.storeList_append,
    kIdOffset, kAckSequenceNumberOffset, kAckBitmaskOffset]

/-- A memory that holds the bytes of a header gives the header back. -/
theorem PacketHeader.val_read {b : Span} {mem : Memory} {h : PacketHeader}
    (hmem : mem.slice b.off 12 = h.encode) : (PacketHeader.read b mem).val = h := by
  have h4 : ∀ x : UInt32, beDecode (beEncode 4 x.toNat) = x.toNat := fun x =>
    beDecode_beEncode (by simpa using x.toNat_lt)
  have hlen : (12 : ℕ) = h.encode.length := by simp
  rw [hlen, PacketHeader.encode] at hmem
  obtain ⟨h12, h3⟩ := Memory.slice_eq_of_append hmem
  obtain ⟨h1, h2⟩ := Memory.slice_eq_of_append h12
  simp only [length_beEncode, List.length_append] at h1 h2 h3
  ext1 <;>
    simp [PacketHeader.read, readId, readAckSequenceNumber, readAckBitmask, kIdOffset,
      kAckSequenceNumberOffset, kAckBitmaskOffset, h1, h2, h3, h4]

theorem PacketHeader.val_readId {b : Span} {mem : Memory} {h : PacketHeader}
    (hmem : mem.slice b.off 12 = h.encode) : (PacketHeader.readId b mem).val = h.id := by
  have := congrArg PacketHeader.id (PacketHeader.val_read hmem)
  simpa [PacketHeader.read] using this

theorem PacketHeader.avoids_write {bad : Fault → Prop} {b : Span}
    (hstore : bad .store → 12 ≤ b.size) (mem : Memory) (h : PacketHeader) :
    (PacketHeader.write b mem h).Avoids bad := by
  -- the three words are inside the twelve bytes
  have hword : ∀ (value : UInt32) (offset : ℕ) (mem : Memory), offset + 4 ≤ 12 →
      (writeU32 b mem value offset).Avoids bad := by
    intro value offset mem hoffset
    rw [writeU32, avoids_writeUnsigned_iff]
    exact fun hbad _ => Nat.le_trans hoffset (hstore hbad)
  rw [PacketHeader.write, Checked.avoids_bind]
  refine ⟨hword _ _ _ (by decide), ?_⟩
  rw [Checked.avoids_bind]
  refine ⟨hword _ _ _ (by decide), ?_⟩
  rw [Checked.avoids_bind]
  exact ⟨hword _ _ _ (by decide), Checked.avoids_pure _⟩

/-- The id of a header that has just been written. -/
theorem PacketHeader.readId_storeList (mem : Memory) (h : PacketHeader) :
    (PacketHeader.readId ⟨0, 12⟩ (mem.storeList 0 h.encode)).val = h.id := by
  have hslice := Memory.slice_storeList_self mem 0 h.encode
  rw [PacketHeader.length_encode] at hslice
  exact PacketHeader.val_readId hslice

/-! ### Segments and reliable messages on the wire -/

theorem Segment.val_write (b : Span) (mem : Memory) (managerType messageCount : UInt8) :
    (Segment.write b mem managerType messageCount).val
      = (mem.storeList b.off [managerType, messageCount], 2) := by
  simp [Segment.write, writeU8, kManagerTypeOffset, kMessageCountOffset, beEncode,
    Memory.storeList]

theorem ReliableMessage.val_write (b : Span) (mem : Memory) (sequenceNumber : UInt32)
    (payload : List UInt8) :
    (ReliableMessage.write b mem sequenceNumber (UInt16.ofNat payload.length) payload).val
      = (mem.storeList b.off (encode sequenceNumber payload), 6 + payload.length) := by
  simp [ReliableMessage.write, encode, writeU32, writeU16, Memory.storeList_append,
    kSequenceNumberOffset, kLengthOffset, kPayloadOffset]

/-- The fields of a message whose bytes are in the memory. -/
theorem ReliableMessage.fields_of_bytes {b : Span} {mem : Memory} {number : UInt32}
    {bytes : List UInt8} (hlength : bytes.length < 2 ^ 16) (hsize : 6 + bytes.length ≤ b.size)
    (hmem : mem.slice b.off (encode number bytes).length = encode number bytes) :
    sequenceNumber b mem = pure number ∧ length b mem = pure (UInt16.ofNat bytes.length) ∧
      payload b mem = pure ⟨b.off + 6, bytes.length⟩ ∧
      mem.slice (b.off + 6) bytes.length = bytes := by
  rw [encode] at hmem
  obtain ⟨hhead, hpayload⟩ := Memory.slice_eq_of_append hmem
  obtain ⟨hseq, hlen⟩ := Memory.slice_eq_of_append hhead
  simp only [length_beEncode, List.length_append] at hseq hlen hpayload
  have hread : length b mem = pure (UInt16.ofNat bytes.length) :=
    readU16_of_bytes (by rw [kLengthOffset, kSequenceNumberOffset]; omega) hlen
  have hoffset : kPayloadOffset = 6 := rfl
  refine ⟨readU32_of_bytes (by rw [kSequenceNumberOffset]; omega)
    hseq, hread, ?_, hpayload⟩
  rw [payload, hread, Checked.pure_bind, readByteArray, hoffset, UInt16.toNat_ofNat',
    Nat.mod_eq_of_lt hlength, usizeSub_of_le (by omega), Nat.min_eq_right (by omega)]

/-- A memory that holds the bytes of a message is read as this message. -/
theorem ReliableMessage.read_encode {b : Span} {mem : Memory} {sequenceNumber : UInt32}
    {payload : List UInt8} (hne : payload ≠ []) (hlength : payload.length < 2 ^ 16)
    (hsize : 6 + payload.length ≤ b.size)
    (hmem : mem.slice b.off (encode sequenceNumber payload).length
      = encode sequenceNumber payload) :
    (ReliableMessage.validateSize b mem).val = .ok (6 + payload.length) ∧
    (ReliableMessage.sequenceNumber b mem).val = sequenceNumber ∧
    (ReliableMessage.payload b mem).val = ⟨b.off + 6, payload.length⟩ ∧
    mem.slice (b.off + 6) payload.length = payload := by
  have hpos : 0 < payload.length := List.length_pos_iff.mpr hne
  obtain ⟨hnumber, hread, hspan, hpayload⟩ := fields_of_bytes hlength hsize hmem
  refine ⟨?_, congrArg Checked.val hnumber, congrArg Checked.val hspan, hpayload⟩
  have hvalue : (readU16 b mem kLengthOffset).val.toNat = payload.length := by
    rw [show readU16 b mem kLengthOffset = length b mem from rfl, hread, Checked.val_pure,
      UInt16.toNat_ofNat', Nat.mod_eq_of_lt hlength]
  rw [ReliableMessage.validateSize, Neptun.validateSize, if_neg (by omega)]
  simp only [Checked.val_bind, Checked.val_ite, Checked.val_pure, hvalue]
  rw [if_neg (by omega)]

/-! ### Unreliable messages on the wire -/

theorem UnreliableMessage.val_write (b : Span) (mem : Memory) (payload : List UInt8) :
    (UnreliableMessage.write b mem (UInt16.ofNat payload.length) payload).val
      = (mem.storeList b.off (encode payload), 2 + payload.length) := by
  simp [UnreliableMessage.write, encode, writeU16, Memory.storeList_append, kLengthOffset,
    kPayloadOffset]

theorem UnreliableMessage.fields_of_bytes {b : Span} {mem : Memory} {bytes : List UInt8}
    (hlength : bytes.length < 2 ^ 16) (hsize : 2 + bytes.length ≤ b.size)
    (hmem : mem.slice b.off (encode bytes).length = encode bytes) :
    length b mem = pure (UInt16.ofNat bytes.length) ∧
      payload b mem = pure ⟨b.off + 2, bytes.length⟩ ∧
      mem.slice (b.off + 2) bytes.length = bytes := by
  rw [encode] at hmem
  obtain ⟨hlen, hpayload⟩ := Memory.slice_eq_of_append hmem
  simp only [length_beEncode] at hlen hpayload
  have hread : length b mem = pure (UInt16.ofNat bytes.length) :=
    readU16_of_bytes (by rw [kLengthOffset]; omega) hlen
  have hoffset : kPayloadOffset = 2 := rfl
  refine ⟨hread, ?_, hpayload⟩
  rw [payload, hread, Checked.pure_bind, readByteArray, hoffset, UInt16.toNat_ofNat',
    Nat.mod_eq_of_lt hlength, usizeSub_of_le (by omega), Nat.min_eq_right (by omega)]

theorem UnreliableMessage.read_encode {b : Span} {mem : Memory} {payload : List UInt8}
    (hne : payload ≠ []) (hlength : payload.length < 2 ^ 16)
    (hsize : 2 + payload.length ≤ b.size)
    (hmem : mem.slice b.off (encode payload).length = encode payload) :
    (UnreliableMessage.validateSize b mem).val = .ok (2 + payload.length) ∧
    (UnreliableMessage.payload b mem).val = ⟨b.off + 2, payload.length⟩ ∧
    mem.slice (b.off + 2) payload.length = payload := by
  have hpos : 0 < payload.length := List.length_pos_iff.mpr hne
  obtain ⟨hread, hspan, hpayload⟩ := fields_of_bytes hlength hsize hmem
  refine ⟨?_, congrArg Checked.val hspan, hpayload⟩
  have hvalue : (readU16 b mem kLengthOffset).val.toNat = payload.length := by
    rw [show readU16 b mem kLengthOffset = length b mem from rfl, hread, Checked.val_pure,
      UInt16.toNat_ofNat', Nat.mod_eq_of_lt hlength]
  rw [UnreliableMessage.validateSize, Neptun.validateSize, if_neg (by omega)]
  simp only [Checked.val_bind, Checked.val_ite, Checked.val_pure, hvalue]
  rw [if_neg (by omega)]

end Neptun
