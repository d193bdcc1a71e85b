/-
`ConnectionManager`: the handshake.

Both sides send `LetsConnect` messages with their bandwidth limits until one of
the packets that carried them is acknowledged.  The queue of these packets is a
`std::queue`; popping it while it is empty is recorded as a fault and otherwise
leaves it empty.  The counters of messages (`usize`) are natural numbers.

* `val_read` describes `read` by the bytes of its span;
* `avoids_read` says for which bytes it stays inside the span;
* `status_cases` lists what a delivery status can do.
-/
import Neptun.PacketDeliveryManager

namespace Neptun

/-- A packet rate of zero means no limit. -/
@[ext]
structure BandwidthLimit where
  maxReadPacketRate : UInt8
  maxReadPacketSize : UInt16
  maxSendPacketRate : UInt8
  maxSendPacketSize : UInt16
  deriving DecidableEq, Repr

structure ConnectionManagerConfig where
  numRedundantPackets : ℕ
  limit : BandwidthLimit
  deriving DecidableEq, Repr

structure ConnectionManager where
  config : ConnectionManagerConfig
  inFlightLetsConnect : List PacketId := []
  numLetsConnectToSend : ℕ := 0
  isFail : Bool := false
  isInitiator : Bool := false
  selfIsConnected : Bool := false
  peerBandwidthLimit : Option BandwidthLimit := none
  deriving DecidableEq, Repr

/-- `pop()` of a queue. -/
def queuePop : List PacketId → Checked Fault (List PacketId)
  | [] => do
    Checked.check False .popEmpty
    pure []
  | _ :: queue => pure queue

/-- `front()` of a queue. -/
def queueFront : List PacketId → Checked Fault PacketId
  | [] => do
    Checked.check False .frontEmpty
    pure 0
  | id :: _ => pure id

/-- `!queue.empty() && queue.front() == id`. -/
def queueFrontIs (queue : List PacketId) (id : PacketId) : Checked Fault Bool :=
  if queue.isEmpty then
    pure false
  else do
    let front ← queueFront queue
    pure (front == id)

/-- `while (!queue.empty()) queue.pop()`. -/
def queueClear : List PacketId → Checked Fault (List PacketId)
  | [] => pure []
  | _ :: queue => queueClear queue

namespace ConnectionManager

def connect (c : ConnectionManager) : ConnectionManager :=
  { c with
    numLetsConnectToSend := c.config.numRedundantPackets + 1
    isInitiator := true }

def isPeerConnected (c : ConnectionManager) : Bool := c.peerBandwidthLimit.isSome

def isFullyConnected (c : ConnectionManager) : Bool := c.isPeerConnected && c.selfIsConnected

def onPacketStatusDelivery (c : ConnectionManager) (packetId : PacketId)
    (status : PacketDeliveryStatus) : Checked Fault ConnectionManager :=
  match status with
  | .ack => do
    let isFront ← queueFrontIs c.inFlightLetsConnect packetId
    if isFront then
      let queue ← queueClear c.inFlightLetsConnect
      -- the queue has just been cleared
      let queue ← queuePop queue
      pure { c with
        selfIsConnected := true
        inFlightLetsConnect := queue
        numLetsConnectToSend := 0 }
    else
      pure c
  | .drop => do
    let isFront ← queueFrontIs c.inFlightLetsConnect packetId
    if isFront then
      let queue ← queuePop c.inFlightLetsConnect
      pure { c with
        inFlightLetsConnect := queue
        numLetsConnectToSend :=
          if c.peerBandwidthLimit.isSome then c.numLetsConnectToSend
          else c.numLetsConnectToSend + 1 }
    else
      pure c

/-- Both packet sizes of a `LetsConnect` are at least 100. -/
def validate (letsConnect : Span) (mem : Memory) : Checked Fault Bool := do
  let maxSendPacketSize ← LetsConnect.maxSendPacketSize letsConnect mem
  if maxSendPacketSize ≥ 100 then
    let maxReadPacketSize ← LetsConnect.maxReadPacketSize letsConnect mem
    pure (decide (maxReadPacketSize ≥ 100))
  else
    pure false

def setPeerBandwidthLimit (c : ConnectionManager) (letsConnect : Span) (mem : Memory) :
    Checked Fault ConnectionManager := do
  let maxReadPacketRate ← LetsConnect.maxReadPacketRate letsConnect mem
  let maxReadPacketSize ← LetsConnect.maxReadPacketSize letsConnect mem
  let maxSendPacketRate ← LetsConnect.maxSendPacketRate letsConnect mem
  let maxSendPacketSize ← LetsConnect.maxSendPacketSize letsConnect mem
  let limit := ⟨maxReadPacketRate, maxReadPacketSize, maxSendPacketRate, maxSendPacketSize⟩
  pure { c with peerBandwidthLimit := some limit }

/-- The `LetsConnect` case of `read`. -/
def readLetsConnect (c : ConnectionManager) (letsConnect : Span) (mem : Memory) :
    Checked Fault ConnectionManager := do
  let valid ← validate letsConnect mem
  if valid then
    let c := { c with isFail := false }
    if !c.isInitiator then
      -- a request
      let c := { c with numLetsConnectToSend := c.config.numRedundantPackets + 1 }
      c.setPeerBandwidthLimit letsConnect mem
    else
      -- a response
      c.setPeerBandwidthLimit letsConnect mem
  else
    pure { c with isFail := true }

def read (c : ConnectionManager) (b : Span) (mem : Memory) :
    Checked Fault (ConnectionManager × Except NeptunError ℕ) :=
  if b.size < Segment.kSerializedSize then
    pure (c, .ok 0)
  else do
    let managerType ← Segment.managerType b mem
    if managerType ≠ ManagerType.connectionManager.toU8 then
      pure (c, .ok 0)
    else
      let messageCount ← Segment.messageCount b mem
      if messageCount ≠ 1 then
        pure (c, .error .malformedPacket)
      else
        let idx := Segment.kSerializedSize
        let messageHeader ← advance b idx
        let idx := idx + MessageHeader.kSerializedSize
        let messageType ← MessageHeader.messageType messageHeader mem
        if messageType = LetsConnect.kId then
          let letsConnect ← advance b idx
          let c ← c.readLetsConnect letsConnect mem
          pure (c, .ok (idx + LetsConnect.kSerializedSize))
        else if messageType = RejectLetsConnect.kId then
          pure (c, .error .letsConnectRejected)
        else
          pure (c, .error .malformedPacket)

/-- The message behind the segment header at `idx`, and the index behind it.  A
failed manager writes a rejection under the message type of `LetsConnect`. -/
def writeMessage (c : ConnectionManager) (b : Span) (mem : Memory) (idx : ℕ) :
    Checked Fault (Memory × ℕ) :=
  if c.isFail then do
    let messageHeader ← advance b idx
    let (mem, _) ← MessageHeader.write messageHeader mem LetsConnect.kId
    let message ← advance b (idx + MessageHeader.kSerializedSize)
    let (mem, _) ← RejectLetsConnect.write message mem
    pure (mem, idx + (MessageHeader.kSerializedSize + RejectLetsConnect.kSerializedSize))
  else do
    let messageHeader ← advance b idx
    let (mem, _) ← MessageHeader.write messageHeader mem LetsConnect.kId
    let message ← advance b (idx + MessageHeader.kSerializedSize)
    let (mem, _) ← LetsConnect.write message mem
      c.config.limit.maxSendPacketRate c.config.limit.maxReadPacketRate
      c.config.limit.maxSendPacketSize c.config.limit.maxReadPacketSize
    pure (mem, idx + (MessageHeader.kSerializedSize + LetsConnect.kSerializedSize))

def write (c : ConnectionManager) (packetId : PacketId) (b : Span) (mem : Memory) :
    Checked Fault (ConnectionManager × Memory × ℕ) :=
  if c.numLetsConnectToSend > 0 then do
    let (mem, idx) ← Segment.write b mem ManagerType.connectionManager.toU8 1
    let (mem, idx) ← c.writeMessage b mem idx
    Checked.check (idx < b.size) (.assertion .handshakeSize)
    pure ({ c with
      inFlightLetsConnect := c.inFlightLetsConnect ++ [packetId]
      numLetsConnectToSend := c.numLetsConnectToSend - 1 }, mem, idx)
  else
    pure (c, mem, 0)

def peerLimit (c : ConnectionManager) : Option BandwidthLimit := c.peerBandwidthLimit

/-! ### Reading -/

variable {c : ConnectionManager}

/-- The limits that a `LetsConnect` at address `a` is read as. -/
def limitAt (mem : Memory) (a : ℕ) : BandwidthLimit where
  maxSendPacketRate := mem a
  maxReadPacketRate := mem (a + 1)
  maxSendPacketSize := UInt16.ofNat (beDecode (mem.slice (a + 3) 2))
  maxReadPacketSize := UInt16.ofNat (beDecode (mem.slice (a + 5) 2))

/-- Limits that pass `validate`. -/
def ValidLimit (limit : BandwidthLimit) : Prop :=
  limit.maxSendPacketSize ≥ 100 ∧ limit.maxReadPacketSize ≥ 100

instance (limit : BandwidthLimit) : Decidable (ValidLimit limit) :=
  inferInstanceAs (Decidable (_ ∧ _))

/-- The state after a `LetsConnect` with the given limits has been read. -/
def received (c : ConnectionManager) (limit : BandwidthLimit) : ConnectionManager :=
  if ValidLimit limit then
    { c with
      isFail := false
      numLetsConnectToSend :=
        if c.isInitiator then c.numLetsConnectToSend else c.config.numRedundantPackets + 1
      peerBandwidthLimit := some limit }
  else
    { c with isFail := true }

theorem val_validate (b : Span) (mem : Memory) :
    (validate b mem).val = decide (ValidLimit (limitAt mem b.off)) := by
  simp only [validate, LetsConnect.maxSendPacketSize, LetsConnect.maxReadPacketSize,
    LetsConnect.kMaxReadPacketSize, LetsConnect.kMaxSendPacketSize,
    LetsConnect.kMaxReadPacketRate, LetsConnect.kMaxSendPacketRate,
    Checked.val_bind, val_readU16, Checked.val_ite, Checked.val_pure, ValidLimit, limitAt]
  split
  · next h => simp [h]
  · next h => simp [h]

theorem val_setPeerBandwidthLimit (c : ConnectionManager) (b : Span) (mem : Memory) :
    (c.setPeerBandwidthLimit b mem).val
      = { c with peerBandwidthLimit := some (limitAt mem b.off) } := by
  simp [setPeerBandwidthLimit, limitAt, LetsConnect.maxSendPacketSize,
    LetsConnect.maxReadPacketSize, LetsConnect.maxSendPacketRate,
    LetsConnect.maxReadPacketRate, LetsConnect.kMaxReadPacketSize,
    LetsConnect.kMaxSendPacketSize, LetsConnect.kMaxReadPacketRate,
    LetsConnect.kMaxSendPacketRate]

theorem val_readLetsConnect (c : ConnectionManager) (b : Span) (mem : Memory) :
    (c.readLetsConnect b mem).val = c.received (limitAt mem b.off) := by
  simp only [readLetsConnect, received, Checked.val_bind, val_validate, Checked.val_ite,
    val_setPeerBandwidthLimit, Checked.val_pure, decide_eq_true_eq]
  cases c.isInitiator <;> simp

/-- What `read` computes from the bytes at the beginning of its span. -/
theorem val_read (c : ConnectionManager) (b : Span) (mem : Memory) :
    (c.read b mem).val =
      if b.size < 2 ∨ mem b.off ≠ 0 then (c, .ok 0)
      else if mem (b.off + 1) ≠ 1 then (c, .error .malformedPacket)
      else if mem (b.off + 2) = 0 then (c.received (limitAt mem (b.off + 3)), .ok 9)
      else if mem (b.off + 2) = 1 then (c, .error .letsConnectRejected)
      else (c, .error .malformedPacket) := by
  simp only [read, Segment.kSerializedSize, Segment.managerType, Segment.messageCount,
    MessageHeader.messageType, Segment.kManagerTypeOffset, Segment.kMessageCountOffset,
    MessageHeader.kMessageTypeOffset, MessageHeader.kSerializedSize,
    LetsConnect.kId, RejectLetsConnect.kId, LetsConnect.kSerializedSize, ManagerType.toU8,
    Checked.val_ite, Checked.val_bind, Checked.val_pure, val_readU8, val_advance,
    val_readLetsConnect, Nat.add_zero, Nat.zero_add, Nat.reduceAdd]
  by_cases hsize : b.size < 2
  · simp [hsize]
  · simp [hsize]

/-! ### Which bytes are read -/

section

variable {bad : Fault → Prop}

theorem avoids_validate (hload : bad .load) (b : Span) (mem : Memory) :
    (validate b mem).Avoids bad ↔
      5 ≤ b.size ∧ ((limitAt mem b.off).maxSendPacketSize ≥ 100 → 7 ≤ b.size) := by
  simp only [validate, LetsConnect.maxSendPacketSize, LetsConnect.maxReadPacketSize,
    LetsConnect.kMaxReadPacketSize, LetsConnect.kMaxSendPacketSize,
    LetsConnect.kMaxReadPacketRate, LetsConnect.kMaxSendPacketRate, limitAt,
    Checked.avoids_bind, Checked.avoids_ite, avoids_readU16, val_readU16, hload,
    Checked.avoids_pure, forall_const, implies_true, and_true, Nat.zero_add, Nat.reduceAdd]

theorem avoids_setPeerBandwidthLimit (hload : bad .load) (c : ConnectionManager) (b : Span)
    (mem : Memory) : (c.setPeerBandwidthLimit b mem).Avoids bad ↔ 7 ≤ b.size := by
  simp only [setPeerBandwidthLimit, LetsConnect.maxSendPacketSize,
    LetsConnect.maxReadPacketSize, LetsConnect.maxSendPacketRate,
    LetsConnect.maxReadPacketRate, LetsConnect.kMaxReadPacketSize,
    LetsConnect.kMaxSendPacketSize, LetsConnect.kMaxReadPacketRate,
    LetsConnect.kMaxSendPacketRate, Checked.avoids_bind, avoids_readU8, avoids_readU16, hload,
    Checked.avoids_pure, forall_const, and_true, Nat.zero_add, Nat.reduceAdd]
  omega

theorem avoids_readLetsConnect (hload : bad .load) (c : ConnectionManager) (b : Span)
    (mem : Memory) : (c.readLetsConnect b mem).Avoids bad ↔
      5 ≤ b.size ∧ ((limitAt mem b.off).maxSendPacketSize ≥ 100 → 7 ≤ b.size) := by
  simp only [readLetsConnect, Checked.avoids_bind, Checked.avoids_ite, avoids_validate hload,
    avoids_setPeerBandwidthLimit hload, val_validate, Checked.avoids_pure, implies_true,
    and_true, decide_eq_true_eq]
  constructor
  · exact fun h => h.1
  · intro h
    refine ⟨h, fun hvalid => ⟨fun _ => h.2 hvalid.1, fun _ => h.2 hvalid.1⟩⟩

/-- Exactly when `read` stays inside its span. -/
theorem avoids_read (hload : bad .load) (c : ConnectionManager) (b : Span) (mem : Memory) :
    (c.read b mem).Avoids bad ↔
      (2 ≤ b.size → mem b.off = 0 → mem (b.off + 1) = 1 → 3 ≤ b.size ∧
        (mem (b.off + 2) = 0 → 8 ≤ b.size ∧
          ((limitAt mem (b.off + 3)).maxSendPacketSize ≥ 100 → 10 ≤ b.size))) := by
  simp only [read, Segment.kSerializedSize, Segment.managerType, Segment.messageCount,
    MessageHeader.messageType, Segment.kManagerTypeOffset, Segment.kMessageCountOffset,
    MessageHeader.kMessageTypeOffset, MessageHeader.kSerializedSize, LetsConnect.kId,
    RejectLetsConnect.kId, LetsConnect.kSerializedSize, ManagerType.toU8, Checked.avoids_ite,
    Checked.avoids_bind, Checked.avoids_pure, avoids_readU8, avoids_advance, val_readU8,
    val_advance, avoids_readLetsConnect hload, hload, Nat.add_zero, Nat.zero_add, Nat.reduceAdd]
  by_cases hsize : b.size < 2
  · simp only [hsize, not_true_eq_false, false_imp_iff, implies_true, true_and, true_iff]
    intro h
    omega
  · rw [usizeSub_of_le (by omega : 2 ≤ b.size)]
    simp only [hsize, true_and, not_false_eq_true, forall_const, implies_true,
      not_not, and_true, (by omega : 1 ≤ b.size), (by omega : 2 ≤ b.size)]
    refine forall_congr' fun _ => forall_congr' fun _ => ?_
    by_cases h3 : 3 ≤ b.size
    · rw [usizeSub_of_le h3]
      simp only [h3, (by omega : 1 ≤ b.size - 2), true_and, implies_true,
        (by omega : 5 ≤ b.size - 3 ↔ 8 ≤ b.size), (by omega : 7 ≤ b.size - 3 ↔ 10 ≤ b.size)]
    · constructor
      · rintro ⟨h, -⟩
        omega
      · rintro ⟨h, -⟩
        exact absurd h h3

end

/-! ### Delivery statuses -/

theorem val_queueFrontIs (queue : List PacketId) (id : PacketId) :
    (queueFrontIs queue id).val = decide (queue.head? = some id) := by
  cases queue with
  | nil => rfl
  | cons front queue =>
    by_cases h : front = id <;> simp [queueFrontIs, queueFront, h]

@[simp] theorem val_queuePop (queue : List PacketId) : (queuePop queue).val = queue.tail := by
  cases queue <;> rfl

@[simp] theorem val_queueClear (queue : List PacketId) : (queueClear queue).val = [] := by
  induction queue with
  | nil => rfl
  | cons _ queue ih => exact ih

/-- What a delivery status does: only one for the front of the queue has an
effect. -/
theorem status_cases (c : ConnectionManager) (id : PacketId) (status : PacketDeliveryStatus) :
    (c.inFlightLetsConnect.head? ≠ some id ∧ (c.onPacketStatusDelivery id status).val = c) ∨
    (c.inFlightLetsConnect.head? = some id ∧ status = .ack ∧
      (c.onPacketStatusDelivery id status).val
        = { c with
            selfIsConnected := true
            inFlightLetsConnect := []
            numLetsConnectToSend := 0 }) ∨
    (c.inFlightLetsConnect.head? = some id ∧ status = .drop ∧
      (c.onPacketStatusDelivery id status).val
        = { c with
            inFlightLetsConnect := c.inFlightLetsConnect.tail
            numLetsConnectToSend :=
              if c.peerBandwidthLimit.isSome then c.numLetsConnectToSend
              else c.numLetsConnectToSend + 1 }) := by
  by_cases h : c.inFlightLetsConnect.head? = some id
  · refine Or.inr ?_
    cases status with
    | ack =>
      refine Or.inl ⟨h, rfl, ?_⟩
      simp [onPacketStatusDelivery, val_queueFrontIs, h]
    | drop =>
      refine Or.inr ⟨h, rfl, ?_⟩
      simp [onPacketStatusDelivery, val_queueFrontIs, h]
  · refine Or.inl ⟨h, ?_⟩
    cases status <;> simp [onPacketStatusDelivery, val_queueFrontIs, h]

/-- The only check of a delivery status is that the queue is not empty. -/
theorem avoids_status {bad : Fault → Prop} (hpop : ¬ bad .popEmpty) (c : ConnectionManager)
    (id : PacketId) (status : PacketDeliveryStatus) :
    (c.onPacketStatusDelivery id status).Avoids bad := by
  have hqueuePop : ∀ queue, (queuePop queue).Avoids bad := by
    intro queue
    cases queue <;>
      simp [queuePop, Checked.avoids_bind, Checked.avoids_check, Checked.avoids_pure, hpop]
  have hfront : (queueFrontIs c.inFlightLetsConnect id).Avoids bad := by
    cases c.inFlightLetsConnect <;>
      simp [queueFrontIs, queueFront, Checked.avoids_bind, Checked.avoids_pure]
  have hclear : ∀ queue, (queueClear queue).Avoids bad := by
    intro queue
    induction queue with
    | nil => exact Checked.avoids_pure _
    | cons _ queue ih => exact ih
  cases status <;>
    simp only [onPacketStatusDelivery, Checked.avoids_bind, Checked.avoids_ite,
      Checked.avoids_pure, hfront, hclear, hqueuePop, and_self, implies_true]

/-- Apart from the buffer, `write` moves one message from the counter to the
queue, if there is one to send. -/
theorem write_state (c : ConnectionManager) (id : PacketId) (b : Span) (mem : Memory) :
    (c.write id b mem).val.1 =
      if c.numLetsConnectToSend > 0 then
        { c with
          inFlightLetsConnect := c.inFlightLetsConnect ++ [id]
          numLetsConnectToSend := c.numLetsConnectToSend - 1 }
      else c := by
  rw [write]
  split <;> rfl

end ConnectionManager

end Neptun
