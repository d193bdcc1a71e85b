/-
`PacketDeliveryManager`: packet ids, acknowledgements and timeouts.

The manager numbers the packets it sends, acknowledges the packets it receives
by a base id and a mask of 32 bits, and resolves each of its own packets as
acknowledged or dropped, either by such a mask (`processAcks`) or by a timeout
(`dropOldPackets`).  `write` is cut in two: `nextHeader` chooses the header and
changes the state, `write` stores the header in the buffer.

What each operation does to the packets in flight and to the pending
acknowledgements is said once:

* `processAcks_ids`, `dropOldPackets_ids` — the packets that are resolved are
  the oldest ones, each is reported once and in order;
* `acks_of_processAcks` — an id is reported as acknowledged only if the header
  acknowledges it (`PacketHeader.Acks`);
* `mem_pendingAcks_of_nextHeader` — a header acknowledges only ids that were
  waiting for it;
* `processPacketHeader_cases` — a packet is accepted iff its id is not below the
  next expected one.
-/
import Neptun.Messages

namespace Neptun

inductive PacketDeliveryStatus
  | ack
  | drop
  deriving DecidableEq, Repr

abbrev DeliveryStatuses := List (PacketId × PacketDeliveryStatus)

structure InFlightPacket where
  id : PacketId
  timeDispatched : ℤ
  deriving DecidableEq, Repr

/-- The packet timeout is in milliseconds, times are in nanoseconds. -/
structure PacketDeliveryManager where
  packetTimeout : ℤ
  nextOutgoingPacketId : PacketId := 0
  nextExpectedPacketId : PacketId
  pendingAcks : List PacketId := []
  inFlightPackets : List InFlightPacket := []
  deriving DecidableEq, Repr

def mostSignificantBit (value : UInt32) : Option UInt32 :=
  (List.range 32).foldl
    (fun msb bit => if ((1 : UInt32) <<< UInt32.ofNat bit) &&& value > 0
      then some (UInt32.ofNat bit) else msb) none

namespace PacketDeliveryManager

/-- The fate of one in-flight packet that is not above the highest acknowledged
id. -/
def ackStatus (ackSequenceNumber ackBitmask id : UInt32) :
    Checked Fault PacketDeliveryStatus :=
  if id < ackSequenceNumber then
    pure .drop
  else do
    let delta := id - ackSequenceNumber
    Checked.check (delta ≤ 32) (.assertion .ackDelta)
    if ((1 : UInt32) <<< delta) &&& ackBitmask > 0 then pure .ack else pure .drop

/-- The loop of `process_acks` over the packets in flight. -/
def processAcksLoop (ackSequenceNumber ackBitmask highestAckedPacketId : UInt32) :
    List InFlightPacket → Checked Fault (DeliveryStatuses × List InFlightPacket)
  | [] => pure ([], [])
  | p :: packets =>
    if p.id > highestAckedPacketId then
      -- nothing is known about this packet and the later ones yet
      pure ([], p :: packets)
    else do
      let status ← ackStatus ackSequenceNumber ackBitmask p.id
      let (statuses, rest) ← processAcksLoop ackSequenceNumber ackBitmask
        highestAckedPacketId packets
      pure ((p.id, status) :: statuses, rest)

def processAcks (m : PacketDeliveryManager) (ackSequenceNumber ackBitmask : UInt32) :
    Checked Fault (PacketDeliveryManager × DeliveryStatuses) :=
  match mostSignificantBit ackBitmask with
  | none => pure (m, [])
  | some msb => do
    let (statuses, rest) ← processAcksLoop ackSequenceNumber ackBitmask
      (ackSequenceNumber + msb) m.inFlightPackets
    pure ({ m with inFlightPackets := rest }, statuses)

/-- Accept the packet `id`: acknowledge it and expect only later ones. -/
def accept (m : PacketDeliveryManager) (id : PacketId) : PacketDeliveryManager :=
  { m with pendingAcks := m.pendingAcks ++ [id], nextExpectedPacketId := id + 1 }

/-- The number of bytes to go on behind; zero for a packet to be ignored. -/
def processPacketHeader (m : PacketDeliveryManager) (header : PacketHeader) :
    Checked Fault (PacketDeliveryManager × ℕ) :=
  if header.id = m.nextExpectedPacketId then
    pure (m.accept header.id, PacketHeader.kSerializedSize)
  else if header.id < m.nextExpectedPacketId then
    -- too old: a duplicate, or a packet that was given up
    pure (m, 0)
  else do
    Checked.check (header.id > m.nextExpectedPacketId) (.assertion .newerPacket)
    pure (m.accept header.id, PacketHeader.kSerializedSize)

/-- The acks are processed even if the packet itself is to be ignored. -/
def processRead (m : PacketDeliveryManager) (header : PacketHeader) :
    Checked Fault (PacketDeliveryManager × ℕ × DeliveryStatuses × PacketId) := do
  let (m, statuses) ← m.processAcks header.ackSequenceNumber header.ackBitmask
  let (m, processedByteCount) ← m.processPacketHeader header
  pure (m, processedByteCount, statuses, header.id)

/-- The loop of `drop_old_packets`; the timeout is in nanoseconds. -/
def dropOldPacketsLoop (timeout now : ℤ) :
    List InFlightPacket → DeliveryStatuses × List InFlightPacket
  | [] => ([], [])
  | p :: packets =>
    if p.timeDispatched + timeout ≤ now then
      let (statuses, rest) := dropOldPacketsLoop timeout now packets
      ((p.id, .drop) :: statuses, rest)
    else
      ([], p :: packets)

def dropOldPackets (m : PacketDeliveryManager) (now : ℤ) :
    PacketDeliveryManager × DeliveryStatuses :=
  let (statuses, rest) := dropOldPacketsLoop (m.packetTimeout * 1000000) now m.inFlightPackets
  ({ m with inFlightPackets := rest }, statuses)

/-- The loop of `write` that moves pending acks into the mask. -/
def takeAcks (ackSequenceNumber : UInt32) :
    UInt32 → List PacketId → Checked Fault (UInt32 × List PacketId)
  | ackBitmask, [] => pure (ackBitmask, [])
  | ackBitmask, ack :: acks => do
    Checked.check (ack ≥ ackSequenceNumber) (.assertion .pendingAck)
    let bitPosition := ack - ackSequenceNumber
    if bitPosition ≥ 32 then
      -- this ack must be sent with some future packet
      pure (ackBitmask, ack :: acks)
    else
      takeAcks ackSequenceNumber (ackBitmask ||| ((1 : UInt32) <<< bitPosition)) acks

/-- The header of the next packet. -/
def nextHeader (m : PacketDeliveryManager) (now : ℤ) :
    Checked Fault (PacketDeliveryManager × PacketHeader) :=
  let id := m.nextOutgoingPacketId
  let m : PacketDeliveryManager := { m with
    nextOutgoingPacketId := id + 1
    inFlightPackets := m.inFlightPackets ++ [⟨id, now⟩] }
  match m.pendingAcks with
  | [] => pure (m, ⟨id, 0, 0⟩)
  | ack :: acks => do
    let (ackBitmask, rest) ← takeAcks ack 0 (ack :: acks)
    pure ({ m with pendingAcks := rest }, ⟨id, ack, ackBitmask⟩)

def write (m : PacketDeliveryManager) (b : Span) (mem : Memory) (now : ℤ) :
    Checked Fault (PacketDeliveryManager × Memory × ℕ) := do
  let (m', header) ← m.nextHeader now
  let (mem, writeCount) ← PacketHeader.write b mem header
  if m.pendingAcks.isEmpty then
    Checked.check (writeCount = PacketHeader.kSerializedSize) (.assertion .headerSize)
    pure (m', mem, writeCount)
  else
    pure (m', mem, PacketHeader.kSerializedSize)

/-- The ids in flight, oldest first. -/
def ids (m : PacketDeliveryManager) : List PacketId := m.inFlightPackets.map (·.id)

/-! ### Bits of a mask -/

theorem toNat_one_shiftLeft {d : UInt32} (h : d.toNat < 32) :
    ((1 : UInt32) <<< d).toNat = 2 ^ d.toNat := by
  rw [UInt32.toNat_shiftLeft, Nat.mod_eq_of_lt h, UInt32.toNat_one, Nat.one_shiftLeft]
  exact Nat.mod_eq_of_lt (Nat.pow_lt_pow_right (by norm_num) h)

theorem bit_and_pos {d mask : UInt32} (h : d.toNat < 32) :
    ((1 : UInt32) <<< d) &&& mask > 0 ↔ mask.toNat.testBit d.toNat = true := by
  rw [gt_iff_lt, UInt32.lt_iff_toNat_lt, UInt32.toNat_and, toNat_one_shiftLeft h,
    Nat.two_pow_and]
  cases mask.toNat.testBit d.toNat <;> simp

theorem testBit_or_bit {d mask : UInt32} (h : d.toNat < 32) {i : ℕ} :
    (mask ||| ((1 : UInt32) <<< d)).toNat.testBit i = true
      ↔ mask.toNat.testBit i = true ∨ d.toNat = i := by
  rw [UInt32.toNat_or, toNat_one_shiftLeft h, Nat.testBit_or, Nat.testBit_two_pow]
  simp

theorem mostSignificantBit_lt {value msb : UInt32} (h : mostSignificantBit value = some msb) :
    msb.toNat < 32 := by
  -- every value the loop can store is one of the bit positions
  have key : ∀ (bits : List ℕ) (acc : Option UInt32), (∀ bit ∈ bits, bit < 32) →
      (∀ x ∈ acc, x.toNat < 32) →
      ∀ x ∈ bits.foldl (fun msb bit => if ((1 : UInt32) <<< UInt32.ofNat bit) &&& value > 0
        then some (UInt32.ofNat bit) else msb) acc, x.toNat < 32 := by
    intro bits
    induction bits with
    | nil => exact fun acc _ hacc => hacc
    | cons bit bits ih =>
      intro acc hbits hacc
      refine ih _ (fun b hb => hbits b (List.mem_cons_of_mem _ hb)) ?_
      have hbit := hbits bit List.mem_cons_self
      dsimp only
      split
      · intro x hx
        rw [Option.mem_some_iff] at hx
        subst hx
        rw [UInt32.toNat_ofNat']
        omega
      · exact hacc
  exact key (List.range 32) none (by simp) (by simp) msb h

/-- The position of the highest bit. -/
theorem mostSignificantBit_eq (value : UInt32) :
    mostSignificantBit value
      = if value.toNat = 0 then none else some (UInt32.ofNat (Nat.log2 value.toNat)) := by
  -- the loop has seen the lowest `n` bits
  have key : ∀ n ≤ 32, (List.range n).foldl
      (fun msb bit => if ((1 : UInt32) <<< UInt32.ofNat bit) &&& value > 0
        then some (UInt32.ofNat bit) else msb) none
      = if value.toNat % 2 ^ n = 0 then none
        else some (UInt32.ofNat (Nat.log2 (value.toNat % 2 ^ n))) := by
    intro n
    induction n with
    | zero =>
      intro _
      rw [pow_zero, Nat.mod_one, if_pos rfl]
      rfl
    | succ n ih =>
      intro hn
      have hbit : (UInt32.ofNat n).toNat = n := UInt32.toNat_ofNat_of_lt' (by
        have : (32 : ℕ) ≤ UInt32.size := by decide
        omega)
      have hlow := Nat.mod_lt value.toNat (Nat.two_pow_pos n)
      rw [List.range_succ, List.foldl_append, ih (by omega), List.foldl_cons, List.foldl_nil,
        Nat.mod_pow_succ]
      by_cases hset : value.toNat.testBit n = true
      · rw [if_pos ((bit_and_pos (by omega)).mpr (by rwa [hbit]))]
        rw [Nat.testBit_eq_decide_div_mod_eq, decide_eq_true_eq] at hset
        rw [hset, Nat.mul_one, if_neg (by omega)]
        congr 2
        refine ((Nat.log2_eq_iff (by omega)).mpr ⟨by omega, ?_⟩).symm
        rw [pow_succ]
        omega
      · rw [if_neg (by rwa [bit_and_pos (by omega), hbit])]
        rw [Nat.testBit_eq_decide_div_mod_eq, decide_eq_true_eq] at hset
        rw [show value.toNat / 2 ^ n % 2 = 0 by omega, Nat.mul_zero, Nat.add_zero]
  have hall := key 32 (Nat.le_refl _)
  rwa [Nat.mod_eq_of_lt value.toNat_lt] at hall

end PacketDeliveryManager

/-- The header acknowledges the packet `p`. -/
def PacketHeader.Acks (h : PacketHeader) (p : PacketId) : Prop :=
  h.ackSequenceNumber.toNat ≤ p.toNat
    ∧ h.ackBitmask.toNat.testBit (p.toNat - h.ackSequenceNumber.toNat) = true

namespace PacketDeliveryManager

variable {m : PacketDeliveryManager}

/-! ### Resolving packets -/

/-- The loop resolves the packets in front that are not above the highest
acknowledged id. -/
theorem val_processAcksLoop (ackSequenceNumber ackBitmask highest : UInt32)
    (packets : List InFlightPacket) :
    (processAcksLoop ackSequenceNumber ackBitmask highest packets).val
      = ((packets.takeWhile fun p => p.id ≤ highest).map
          fun p => (p.id, (ackStatus ackSequenceNumber ackBitmask p.id).val),
        packets.dropWhile fun p => p.id ≤ highest) := by
  induction packets with
  | nil => rfl
  | cons p packets ih =>
    rw [processAcksLoop]
    by_cases h : p.id > highest
    · rw [if_pos h, List.takeWhile_cons_of_neg (by simpa using h),
        List.dropWhile_cons_of_neg (by simpa using h)]
      rfl
    · rw [if_neg h, List.takeWhile_cons_of_pos (by simpa using h),
        List.dropWhile_cons_of_pos (by simpa using h)]
      simp only [Checked.val_bind, Checked.val_pure, ih, List.map_cons]

theorem processAcksLoop_ids (ackSequenceNumber ackBitmask highest : UInt32)
    (packets : List InFlightPacket) :
    (processAcksLoop ackSequenceNumber ackBitmask highest packets).val.1.map Prod.fst
      ++ (processAcksLoop ackSequenceNumber ackBitmask highest packets).val.2.map (·.id)
      = packets.map (·.id) := by
  simp only [val_processAcksLoop, List.map_map, Function.comp_def]
  rw [← List.map_append, List.takeWhile_append_dropWhile]

/-- Packets are resolved from the oldest on, each of them once. -/
theorem processAcks_ids (m : PacketDeliveryManager) (ackSequenceNumber ackBitmask : UInt32) :
    (m.processAcks ackSequenceNumber ackBitmask).val.2.map Prod.fst
      ++ (m.processAcks ackSequenceNumber ackBitmask).val.1.ids = m.ids := by
  rw [processAcks]
  split
  · rfl
  · exact processAcksLoop_ids _ _ _ _

/-- Apart from the packets in flight, `process_acks` changes nothing. -/
theorem processAcks_frame (m : PacketDeliveryManager) (ackSequenceNumber ackBitmask : UInt32) :
    (m.processAcks ackSequenceNumber ackBitmask).val.1
      = { m with inFlightPackets :=
          (m.processAcks ackSequenceNumber ackBitmask).val.1.inFlightPackets } := by
  rw [processAcks]
  split <;> rfl

/-- The loop drops the packets in front whose time is up. -/
theorem dropOldPacketsLoop_eq (timeout now : ℤ) (packets : List InFlightPacket) :
    dropOldPacketsLoop timeout now packets
      = ((packets.takeWhile fun p => p.timeDispatched + timeout ≤ now).map fun p => (p.id, .drop),
        packets.dropWhile fun p => p.timeDispatched + timeout ≤ now) := by
  induction packets with
  | nil => rfl
  | cons p packets ih =>
    rw [dropOldPacketsLoop]
    by_cases h : p.timeDispatched + timeout ≤ now
    · rw [if_pos h, List.takeWhile_cons_of_pos (by simpa using h),
        List.dropWhile_cons_of_pos (by simpa using h), ih]
      rfl
    · rw [if_neg h, List.takeWhile_cons_of_neg (by simpa using h),
        List.dropWhile_cons_of_neg (by simpa using h)]
      rfl

theorem dropOldPackets_ids (m : PacketDeliveryManager) (now : ℤ) :
    (m.dropOldPackets now).2.map Prod.fst ++ (m.dropOldPackets now).1.ids = m.ids := by
  simp only [dropOldPackets, dropOldPacketsLoop_eq, ids, List.map_map, Function.comp_def]
  rw [← List.map_append, List.takeWhile_append_dropWhile]

/-- Timeouts are reported as drops only. -/
theorem dropOldPackets_drop {now : ℤ} {p : PacketId} {status : PacketDeliveryStatus}
    (h : (p, status) ∈ (m.dropOldPackets now).2) : status = .drop := by
  simp only [dropOldPackets, dropOldPacketsLoop_eq] at h
  obtain ⟨q, -, heq⟩ := List.mem_map.mp h
  exact (congrArg Prod.snd heq).symm

/-! ### Acknowledgements -/

/-- Below the highest acknowledged id, and not below the base, the distance to
the base is a bit position of the mask.  This holds for every base: if the
highest id wraps around, no id lies between the two. -/
theorem delta_lt {base msb id : UInt32} (hmsb : msb.toNat < 32) (hhigh : ¬ id > base + msb)
    (hbase : ¬ id < base) : (id - base).toNat = id.toNat - base.toNat
      ∧ (id - base).toNat < 32 := by
  have hle : base.toNat ≤ id.toNat := by
    rw [UInt32.lt_iff_toNat_lt] at hbase
    omega
  have hsub : (id - base).toNat = id.toNat - base.toNat :=
    UInt32.toNat_sub_of_le _ _ (UInt32.le_iff_toNat_le.mpr hle)
  have hid := id.toNat_lt
  rw [gt_iff_lt, UInt32.lt_iff_toNat_lt, UInt32.toNat_add] at hhigh
  refine ⟨hsub, ?_⟩
  omega

theorem acks_of_ackStatus {header : PacketHeader} {id msb : UInt32} (hmsb : msb.toNat < 32)
    (hhigh : ¬ id > header.ackSequenceNumber + msb)
    (h : (ackStatus header.ackSequenceNumber header.ackBitmask id).val = .ack) :
    header.Acks id := by
  rw [ackStatus] at h
  split at h
  · exact absurd h (by simp)
  · next hbase =>
    obtain ⟨hsub, hlt⟩ := delta_lt hmsb hhigh hbase
    simp only [Checked.val_bind, Checked.val_ite, Checked.val_pure] at h
    split at h
    · next hbit =>
      rw [UInt32.lt_iff_toNat_lt] at hbase
      refine ⟨by omega, ?_⟩
      rw [← hsub]
      exact (bit_and_pos hlt).mp hbit
    · exact absurd h (by simp)

/-- A packet is reported as acknowledged only if the header acknowledges it. -/
theorem acks_of_processAcks {header : PacketHeader} {p : PacketId}
    (h : (p, .ack) ∈ (m.processAcks header.ackSequenceNumber header.ackBitmask).val.2) :
    header.Acks p := by
  rw [processAcks] at h
  split at h
  · simp at h
  · next msb hmsb =>
    have hlt := mostSignificantBit_lt hmsb
    simp only [Checked.val_bind, Checked.val_pure] at h
    generalize m.inFlightPackets = packets at h
    induction packets with
    | nil => simp [processAcksLoop] at h
    | cons q packets ih =>
      rw [processAcksLoop] at h
      split at h
      · simp at h
      · next hhigh =>
        simp only [Checked.val_bind, Checked.val_pure, List.mem_cons, Prod.mk.injEq] at h
        rcases h with ⟨rfl, hack⟩ | h
        · exact acks_of_ackStatus hlt hhigh hack.symm
        · exact ih h

/-- The acks left behind by `takeAcks` are a suffix of the pending ones, and
every bit of the mask it builds stands for one of the others. -/
theorem takeAcks_spec (base : UInt32) (mask : UInt32) (acks : List PacketId) :
    ∃ taken, acks = taken ++ (takeAcks base mask acks).val.2 ∧
      ∀ i, (takeAcks base mask acks).val.1.toNat.testBit i = true →
        mask.toNat.testBit i = true ∨ ∃ ack ∈ taken, (ack - base).toNat = i := by
  induction acks generalizing mask with
  | nil => exact ⟨[], rfl, fun i hi => Or.inl hi⟩
  | cons ack acks ih =>
    simp only [takeAcks, Checked.val_bind, Checked.val_ite, Checked.val_pure]
    split
    · exact ⟨[], rfl, fun i hi => Or.inl hi⟩
    · next hge =>
      have hlt : (ack - base).toNat < 32 := by
        rw [ge_iff_le, UInt32.le_iff_toNat_le] at hge
        simpa using hge
      obtain ⟨taken, hacks, hbits⟩ := ih (mask ||| ((1 : UInt32) <<< (ack - base)))
      refine ⟨ack :: taken, by rw [List.cons_append, ← hacks], fun i hi => ?_⟩
      rcases hbits i hi with h | ⟨a, ha, hi⟩
      · rcases (testBit_or_bit hlt).mp h with h | h
        · exact Or.inl h
        · exact Or.inr ⟨ack, List.mem_cons_self, h⟩
      · exact Or.inr ⟨a, List.mem_cons_of_mem _ ha, hi⟩

/-- A header acknowledges only packets whose acknowledgement was pending. -/
theorem mem_pendingAcks_of_nextHeader {now : ℤ} {p : PacketId}
    (h : (m.nextHeader now).val.2.Acks p) : p ∈ m.pendingAcks := by
  unfold nextHeader at h
  simp only at h
  split at h
  · simp [PacketHeader.Acks] at h
  · next ack acks hpending =>
    simp only [Checked.val_bind, Checked.val_pure, PacketHeader.Acks] at h
    obtain ⟨hle, hbit⟩ := h
    obtain ⟨taken, hacks, hbits⟩ := takeAcks_spec ack 0 (ack :: acks)
    rcases hbits _ hbit with h0 | ⟨a, ha, hi⟩
    · simp at h0
    · have hp : a = p := by
        have hsub : (p - ack).toNat = p.toNat - ack.toNat :=
          UInt32.toNat_sub_of_le _ _ (UInt32.le_iff_toNat_le.mpr hle)
        rw [← hsub, UInt32.toNat_inj] at hi
        exact (UInt32.sub_left_inj ack).mp hi
      rw [hpending, hacks, ← hp]
      exact List.mem_append_left _ ha

theorem nextHeader_pendingAcks_subset {now : ℤ} {p : PacketId}
    (h : p ∈ (m.nextHeader now).val.1.pendingAcks) : p ∈ m.pendingAcks := by
  unfold nextHeader at h
  simp only at h
  split at h
  · exact h
  · next ack acks hpending =>
    simp only [Checked.val_bind, Checked.val_pure] at h
    obtain ⟨taken, hacks, -⟩ := takeAcks_spec ack 0 (ack :: acks)
    rw [hpending, hacks]
    exact List.mem_append_right _ h

/-- Apart from the pending acknowledgements, choosing a header numbers the next
packet and puts it in flight. -/
theorem nextHeader_frame (m : PacketDeliveryManager) (now : ℤ) :
    (m.nextHeader now).val.1
      = { m with
          nextOutgoingPacketId := m.nextOutgoingPacketId + 1
          inFlightPackets := m.inFlightPackets ++ [⟨m.nextOutgoingPacketId, now⟩]
          pendingAcks := (m.nextHeader now).val.1.pendingAcks } := by
  unfold nextHeader
  simp only
  split <;> rfl

theorem nextHeader_id (m : PacketDeliveryManager) (now : ℤ) :
    (m.nextHeader now).val.2.id = m.nextOutgoingPacketId := by
  unfold nextHeader
  simp only
  split <;> rfl

/-! ### Accepting packets -/

/-- A packet below the next expected id is ignored, any other one is accepted. -/
theorem processPacketHeader_cases (m : PacketDeliveryManager) (header : PacketHeader) :
    (header.id < m.nextExpectedPacketId ∧ (m.processPacketHeader header).val = (m, 0)) ∨
    (¬ header.id < m.nextExpectedPacketId ∧
      (m.processPacketHeader header).val = (m.accept header.id, 12)) := by
  rw [processPacketHeader]
  by_cases heq : header.id = m.nextExpectedPacketId
  · rw [if_pos heq, heq]
    refine Or.inr ⟨?_, rfl⟩
    rw [UInt32.lt_iff_toNat_lt]
    exact Nat.lt_irrefl _
  · rw [if_neg heq]
    by_cases hlt : header.id < m.nextExpectedPacketId
    · rw [if_pos hlt]
      exact Or.inl ⟨hlt, rfl⟩
    · rw [if_neg hlt]
      exact Or.inr ⟨hlt, rfl⟩

/-! ### Reading and writing -/

/-- The header of a packet is stored at the beginning of the buffer. -/
theorem val_write (m : PacketDeliveryManager) (b : Span) (mem : Memory) (now : ℤ) :
    (m.write b mem now).val = ((m.nextHeader now).val.1,
      mem.storeList b.off (m.nextHeader now).val.2.encode, 12) := by
  rw [write, Checked.val_bind, Checked.val_bind, PacketHeader.val_write, Checked.val_ite]
  split
  · rfl
  · rfl

theorem write_state (m : PacketDeliveryManager) (b : Span) (mem : Memory) (now : ℤ) :
    (m.write b mem now).val.1 = (m.nextHeader now).val.1 := by
  rw [val_write]

theorem processRead_ids (m : PacketDeliveryManager) (header : PacketHeader) :
    (m.processRead header).val.2.2.1.map Prod.fst ++ (m.processRead header).val.1.ids = m.ids := by
  rw [← processAcks_ids m header.ackSequenceNumber header.ackBitmask]
  simp only [processRead, Checked.val_bind, Checked.val_pure]
  rcases processPacketHeader_cases (m.processAcks header.ackSequenceNumber
    header.ackBitmask).val.1 header with ⟨-, h⟩ | ⟨-, h⟩
  · rw [h]
  · rw [h]
    rfl

theorem processRead_nextOutgoing (m : PacketDeliveryManager) (header : PacketHeader) :
    (m.processRead header).val.1.nextOutgoingPacketId = m.nextOutgoingPacketId := by
  simp only [processRead, Checked.val_bind, Checked.val_pure]
  have hframe := congrArg nextOutgoingPacketId
    (processAcks_frame m header.ackSequenceNumber header.ackBitmask)
  rcases processPacketHeader_cases (m.processAcks header.ackSequenceNumber
    header.ackBitmask).val.1 header with ⟨-, h⟩ | ⟨-, h⟩
  · rw [h]
    exact hframe
  · rw [h]
    exact hframe

/-- What `process_read` does with a header, besides resolving packets. -/
theorem processRead_cases (m : PacketDeliveryManager) (header : PacketHeader) :
    ((m.processRead header).val.2.1 = 0 ∧ header.id < m.nextExpectedPacketId ∧
      (m.processRead header).val.1.pendingAcks = m.pendingAcks ∧
      (m.processRead header).val.1.nextExpectedPacketId = m.nextExpectedPacketId) ∨
    ((m.processRead header).val.2.1 = 12 ∧ ¬ header.id < m.nextExpectedPacketId ∧
      (m.processRead header).val.1.pendingAcks = m.pendingAcks ++ [header.id] ∧
      (m.processRead header).val.1.nextExpectedPacketId = header.id + 1) := by
  have hframe := processAcks_frame m header.ackSequenceNumber header.ackBitmask
  have hexp := congrArg nextExpectedPacketId hframe
  have hpending := congrArg pendingAcks hframe
  dsimp only at hexp hpending
  simp only [processRead, Checked.val_bind, Checked.val_pure]
  rcases processPacketHeader_cases (m.processAcks header.ackSequenceNumber
    header.ackBitmask).val.1 header with ⟨hlt, h⟩ | ⟨hlt, h⟩
  · rw [h]
    rw [hexp] at hlt
    exact Or.inl ⟨rfl, hlt, hpending, hexp⟩
  · rw [h]
    rw [hexp] at hlt
    refine Or.inr ⟨rfl, hlt, ?_, rfl⟩
    rw [← hpending]
    rfl

theorem processRead_statuses (m : PacketDeliveryManager) (header : PacketHeader) :
    (m.processRead header).val.2.2.1
      = (m.processAcks header.ackSequenceNumber header.ackBitmask).val.2 := (rfl)

/-! ### Checks -/

section

variable {bad : Fault → Prop}

theorem avoids_processAcks (hdelta : ¬ bad (.assertion .ackDelta)) (m : PacketDeliveryManager)
    (ackSequenceNumber ackBitmask : UInt32) :
    (m.processAcks ackSequenceNumber ackBitmask).Avoids bad := by
  have hloop : ∀ (highest : UInt32) (packets : List InFlightPacket),
      (processAcksLoop ackSequenceNumber ackBitmask highest packets).Avoids bad := by
    intro highest packets
    induction packets with
    | nil => exact Checked.avoids_pure _
    | cons p packets ih =>
      simp only [processAcksLoop, ackStatus, Checked.avoids_ite, Checked.avoids_bind,
        Checked.avoids_check, Checked.avoids_pure, hdelta, false_imp_iff, ih, implies_true,
        and_self]
  rw [processAcks]
  split
  · exact Checked.avoids_pure _
  · rw [Checked.avoids_bind]
    exact ⟨hloop _ _, Checked.avoids_pure _⟩

theorem avoids_nextHeader (hpending : ¬ bad (.assertion .pendingAck)) (m : PacketDeliveryManager)
    (now : ℤ) : (m.nextHeader now).Avoids bad := by
  have htake : ∀ (base mask : UInt32) (acks : List PacketId),
      (takeAcks base mask acks).Avoids bad := by
    intro base mask acks
    induction acks generalizing mask with
    | nil => exact Checked.avoids_pure _
    | cons ack acks ih =>
      simp only [takeAcks, Checked.avoids_bind, Checked.avoids_check, Checked.avoids_ite,
        Checked.avoids_pure, hpending, false_imp_iff, ih, implies_true, and_self]
  unfold nextHeader
  dsimp only
  split
  · exact Checked.avoids_pure _
  · rw [Checked.avoids_bind]
    exact ⟨htake _ _ _, Checked.avoids_pure _⟩

/-- Besides choosing the header, `write` needs room for it. -/
theorem avoids_write {m : PacketDeliveryManager} {b : Span} {now : ℤ}
    (hheader : (m.nextHeader now).Avoids bad) (hstore : bad .store → 12 ≤ b.size) (mem : Memory) :
    (m.write b mem now).Avoids bad := by
  rw [write, Checked.avoids_bind]
  refine ⟨hheader, ?_⟩
  rw [Checked.avoids_bind]
  refine ⟨PacketHeader.avoids_write hstore _ _, ?_⟩
  rw [Checked.avoids_ite]
  refine ⟨fun _ => ?_, fun _ => Checked.avoids_pure _⟩
  -- the count that is checked does not depend on the header
  rw [Checked.avoids_bind, Checked.avoids_check]
  exact ⟨fun _ => rfl, Checked.avoids_pure _⟩

/-- The only checks of `processRead` are two assertions. -/
theorem avoids_processRead (hdelta : ¬ bad (.assertion .ackDelta))
    (hnewer : ¬ bad (.assertion .newerPacket)) (m : PacketDeliveryManager)
    (header : PacketHeader) : (m.processRead header).Avoids bad := by
  have hheader : ∀ m' : PacketDeliveryManager, (m'.processPacketHeader header).Avoids bad := by
    intro m'
    simp only [processPacketHeader, Checked.avoids_ite, Checked.avoids_bind,
      Checked.avoids_check, Checked.avoids_pure, hnewer, false_imp_iff, implies_true, and_self]
  rw [processRead, Checked.avoids_bind]
  refine ⟨avoids_processAcks hdelta _ _ _, ?_⟩
  rw [Checked.avoids_bind]
  exact ⟨hheader _, Checked.avoids_pure _⟩

end

end PacketDeliveryManager

end Neptun
