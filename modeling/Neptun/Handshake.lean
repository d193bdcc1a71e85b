/-
The handshake of a single `ConnectionManager`: its message on the wire, and its
runs.

The message of a `LetsConnect` ends one byte behind the count that `write`
returns, so the later stages of a packet overwrite that byte, and a packet that
ends there does not contain it.

* `letsConnect_read_back_iff` — exactly which contents behind the handshake let
  the peer read back the limits that were written;
* `queue_safe_iff` — the queue of handshake packets is used while empty exactly
  if a handshake packet is acknowledged;
* `not_stuck_iff` — the handshake gets stuck exactly if the last handshake
  packet is dropped once the limits of the peer are known.
-/
import Neptun.ConnectionManager
import Neptun.Library.System

namespace Neptun

namespace ConnectionManager

/-! ### The message on the wire -/

/-- The bytes that a handshake puts into a packet; the third byte of the
`LetsConnect` is left as it was, and the last byte is not counted. -/
theorem write_bytes {c : ConnectionManager} (hfail : c.isFail = false)
    (hnum : 0 < c.numLetsConnectToSend) (id : PacketId) (b : Span) (mem : Memory) :
    (c.write id b mem).val.2.2 = 9 ∧
    (c.write id b mem).val.2.1.slice b.off 9
      = [0, 1, 0, c.config.limit.maxSendPacketRate, c.config.limit.maxReadPacketRate,
        mem (b.off + 5)] ++ beEncode 2 c.config.limit.maxSendPacketSize.toNat
        ++ [UInt8.ofNat (c.config.limit.maxReadPacketSize.toNat / 256)] := by
  rw [write, if_pos hnum]
  simp [writeMessage, hfail, Segment.write, MessageHeader.write, LetsConnect.write,
    writeU8, writeU16, beEncode, Memory.storeList, Memory.slice, Memory.store,
    Segment.kManagerTypeOffset, Segment.kMessageCountOffset,
    MessageHeader.kMessageTypeOffset, MessageHeader.kSerializedSize,
    LetsConnect.kMaxReadPacketSize, LetsConnect.kMaxSendPacketSize,
    LetsConnect.kMaxReadPacketRate, LetsConnect.kMaxSendPacketRate, LetsConnect.kId,
    LetsConnect.kSerializedSize, ManagerType.toU8, Nat.add_assoc]

/-- The bytes of a packet from the handshake on, if the later stages write
`later` behind it. -/
def handshakePacket (c : ConnectionManager) (id : PacketId) (b : Span) (mem : Memory)
    (later : List UInt8) : List UInt8 :=
  let result := (c.write id b mem).val
  (result.2.1.storeList (b.off + result.2.2) later).slice b.off (result.2.2 + later.length)

theorem handshakePacket_eq {c : ConnectionManager} (hfail : c.isFail = false)
    (hnum : 0 < c.numLetsConnectToSend) (id : PacketId) (b : Span) (mem : Memory)
    (later : List UInt8) :
    c.handshakePacket id b mem later
      = [0, 1, 0, c.config.limit.maxSendPacketRate, c.config.limit.maxReadPacketRate,
        mem (b.off + 5)] ++ beEncode 2 c.config.limit.maxSendPacketSize.toNat
        ++ [UInt8.ofNat (c.config.limit.maxReadPacketSize.toNat / 256)] ++ later := by
  obtain ⟨hcount, hbytes⟩ := write_bytes hfail hnum id b mem
  rw [handshakePacket, hcount]
  rw [Memory.slice_add, Memory.slice_storeList_of_disjoint (Or.inl (by omega)), hbytes,
    Memory.slice_storeList_self]

/-- The limits with another low byte of `max_read_packet_size`. -/
def withLowByte (limit : BandwidthLimit) (low : UInt8) : BandwidthLimit :=
  let size := limit.maxReadPacketSize.toNat / 256 * 256 + low.toNat
  { limit with maxReadPacketSize := UInt16.ofNat size }

/-- The limits that are read from a memory holding a handshake packet: the low
byte of `max_read_packet_size` comes from whatever lies behind it. -/
theorem limitAt_handshake {limit : BandwidthLimit} {gap : UInt8} {mem : Memory} {a : ℕ}
    (h : mem.slice a 9 = [0, 1, 0, limit.maxSendPacketRate, limit.maxReadPacketRate, gap]
      ++ beEncode 2 limit.maxSendPacketSize.toNat
      ++ [UInt8.ofNat (limit.maxReadPacketSize.toNat / 256)]) :
    limitAt mem (a + 3) = withLowByte limit (mem (a + 9)) := by
  have hsize : limit.maxSendPacketSize.toNat < 2 ^ 16 := limit.maxSendPacketSize.toNat_lt
  have hsize' : limit.maxReadPacketSize.toNat < 2 ^ 16 := limit.maxReadPacketSize.toNat_lt
  simp only [Memory.slice, beEncode, List.cons_append, List.nil_append, List.cons.injEq,
    and_true, Nat.add_assoc, Nat.reduceAdd, pow_zero, Nat.div_one, pow_one] at h
  obtain ⟨-, -, -, h3, h4, -, h6, h7, h8⟩ := h
  ext1
  · exact h4
  · simp only [limitAt, withLowByte, Memory.slice, Nat.add_assoc, Nat.reduceAdd, h8, beDecode,
      List.length_cons, List.length_nil, UInt8.toNat_ofNat']
    refine congrArg UInt16.ofNat ?_
    omega
  · exact h3
  · simp only [limitAt, withLowByte, Memory.slice, Nat.add_assoc, Nat.reduceAdd, h6, h7, beDecode,
      List.length_cons, List.length_nil, UInt8.toNat_ofNat']
    rw [← UInt16.toNat_inj, UInt16.toNat_ofNat']
    omega

/-- The byte behind the handshake replaces the low byte of
`max_read_packet_size` without harm: it is that byte, or the size it makes is
refused and the reader knows the limits already. -/
def LowByteSurvives (limit : BandwidthLimit) (reader : ConnectionManager)
    (later : List UInt8) : Prop :=
  ∃ low ∈ later.head?, low.toNat = limit.maxReadPacketSize.toNat % 256 ∨
    (reader.peerLimit = some limit ∧ limit.maxReadPacketSize.toNat / 256 * 256 + low.toNat < 100)

theorem peerLimit_received (r : ConnectionManager) (limit : BandwidthLimit) :
    (r.received limit).peerLimit = if ValidLimit limit then some limit else r.peerLimit := by
  rw [received]
  split <;> rfl

theorem toNat_withLowByte (limit : BandwidthLimit) (low : UInt8) :
    (withLowByte limit low).maxReadPacketSize.toNat
      = limit.maxReadPacketSize.toNat / 256 * 256 + low.toNat := by
  have hsize := limit.maxReadPacketSize.toNat_lt
  have hlow := low.toNat_lt
  rw [withLowByte, UInt16.toNat_ofNat']
  omega

theorem withLowByte_eq_iff (limit : BandwidthLimit) (low : UInt8) :
    withLowByte limit low = limit ↔ low.toNat = limit.maxReadPacketSize.toNat % 256 := by
  have hsize : withLowByte limit low = limit
      ↔ (withLowByte limit low).maxReadPacketSize = limit.maxReadPacketSize := by
    constructor
    · exact fun h => congrArg BandwidthLimit.maxReadPacketSize h
    · exact fun h => BandwidthLimit.ext rfl h rfl rfl
  rw [hsize, ← UInt16.toNat_inj, toNat_withLowByte]
  omega

theorem validLimit_withLowByte {limit : BandwidthLimit} (hlimit : ValidLimit limit)
    (low : UInt8) : ValidLimit (withLowByte limit low)
      ↔ 100 ≤ limit.maxReadPacketSize.toNat / 256 * 256 + low.toNat := by
  have hsend : (withLowByte limit low).maxSendPacketSize ≥ 100 := hlimit.1
  rw [ValidLimit, and_iff_right hsend, ge_iff_le, UInt16.le_iff_toNat_le, toNat_withLowByte]
  rfl

/-- **The handshake round trip**, exactly as far as the code has it. -/
theorem letsConnect_read_back_iff (c r : ConnectionManager) (limit : BandwidthLimit)
    (id : PacketId) (b b' : Span) (mem mem' : Memory) (later : List UInt8)
    (hlimit : ValidLimit limit) (hconfig : c.config.limit = limit) (hfail : c.isFail = false)
    (hnum : 0 < c.numLetsConnectToSend)
    (hpacket : mem'.slice b'.off b'.size = c.handshakePacket id b mem later) :
    ((r.read b' mem').Avoids (· = .load) ∧
      (r.read b' mem').val.2 = .ok (c.write id b mem).val.2.2 ∧
      (r.read b' mem').val.1.peerLimit = some limit)
    ↔ LowByteSurvives limit r later := by
  subst hconfig
  obtain ⟨hcount, -⟩ := write_bytes hfail hnum id b mem
  rw [handshakePacket_eq hfail hnum] at hpacket
  -- the packet ends nine bytes behind the start of the handshake, or goes on with `later`
  have hb' : b'.size = 9 + later.length := by
    have := congrArg List.length hpacket
    simp only [Memory.length_slice, List.length_append, List.length_cons, List.length_nil,
      length_beEncode] at this
    omega
  rw [hb', Memory.slice_add] at hpacket
  obtain ⟨hhead, htail⟩ := List.append_inj hpacket (by simp)
  have hat := limitAt_handshake hhead
  simp only [Memory.slice, List.cons_append, List.cons.injEq] at hhead
  obtain ⟨h0, h1, h2, -⟩ := hhead
  rw [Nat.add_assoc] at h2
  have hread : (r.read b' mem').val = 
      (r.received (withLowByte c.config.limit (mem' (b'.off + 9))), .ok 9) := by
    rw [val_read, if_neg (by simp [h0]; omega), if_neg (by simp [h1]), if_pos h2, hat]
  -- the tenth byte is read, so something has to follow
  have hload : (r.read b' mem').Avoids (· = .load) ↔ later ≠ [] := by
    rw [@avoids_read (· = .load) rfl, hat, hb', ← List.length_pos_iff]
    have hsend : (withLowByte c.config.limit (mem' (b'.off + 9))).maxSendPacketSize ≥ 100 :=
      hlimit.1
    simp only [h0, h1, h2, hsend, forall_const]
    omega
  rw [hload, hread, hcount, peerLimit_received]
  cases later with
  | nil => simp [LowByteSurvives]
  | cons low later =>
    have hlow : mem' (b'.off + 9) = low := by
      rw [List.length_cons, Memory.slice, List.cons.injEq] at htail
      exact htail.1
    -- the limits come out right if the byte fits, or if they were known and this one is refused
    have hsurvives : LowByteSurvives c.config.limit r (low :: later) ↔
        (withLowByte c.config.limit low = c.config.limit ∨
          (r.peerLimit = some c.config.limit ∧ ¬ ValidLimit (withLowByte c.config.limit low))) := by
      rw [withLowByte_eq_iff, validLimit_withLowByte hlimit, Nat.not_le]
      simp [LowByteSurvives]
    rw [hlow, hsurvives]
    by_cases hvalid : ValidLimit (withLowByte c.config.limit low)
    · simp [hvalid]
    · have hne : withLowByte c.config.limit low ≠ c.config.limit := fun h =>
        hvalid (by rwa [h])
      simp [hvalid, hne]

/-- The limits travel unharmed if the byte behind the handshake happens to be the
low byte of the read size, here 3. -/
theorem letsConnect_read_back_low_byte :
    let limit : BandwidthLimit := ⟨0, 1283, 0, 1400⟩
    let c : ConnectionManager := connect { config := ⟨0, limit⟩ }
    let r : ConnectionManager := { config := ⟨0, limit⟩ }
    let packet := c.handshakePacket 0 ⟨12, 1388⟩ (fun _ => 0) [3, 0]
    let mem' := Memory.storeList (fun _ => 0) 0 packet
    LowByteSurvives limit r [3, 0] ∧
      (r.read ⟨0, packet.length⟩ mem').val.1.peerLimit = some limit := by
  intro limit c r packet mem'
  have hsurvives : LowByteSurvives limit r [3, 0] := ⟨3, rfl, Or.inl (by decide)⟩
  refine ⟨hsurvives, ((letsConnect_read_back_iff c r limit 0 ⟨12, 1388⟩ ⟨0, packet.length⟩
    (fun _ => 0) mem' [3, 0] ?_ rfl rfl ?_ ?_).mpr hsurvives).2.2⟩
  · decide
  · decide
  · exact Memory.slice_storeList_self _ _ _

/-- With a reliable segment behind the handshake, a read size of 1400 is read
back as 1283. -/
theorem letsConnect_not_read_back :
    let limit : BandwidthLimit := ⟨0, 1400, 0, 1400⟩
    let c : ConnectionManager := connect { config := ⟨0, limit⟩ }
    let r : ConnectionManager := { config := ⟨0, limit⟩ }
    let later : List UInt8 := [3, 1, 0, 0, 0, 0, 0, 1, 7]
    let packet := c.handshakePacket 0 ⟨12, 1388⟩ (fun _ => 0) later
    let mem' := Memory.storeList (fun _ => 0) 0 packet
    ValidLimit limit ∧ c.isFail = false ∧ 0 < c.numLetsConnectToSend ∧
      (c.write 0 ⟨12, 1388⟩ (fun _ => 0)).val.2.2 + later.length ≤ 1388 ∧
      mem'.slice 0 packet.length = packet ∧
      (r.read ⟨0, packet.length⟩ mem').val.2 = .ok 9 ∧
      (r.read ⟨0, packet.length⟩ mem').val.1.peerLimit = some ⟨0, 1283, 0, 1400⟩ ∧
      (r.read ⟨0, packet.length⟩ mem').val.1.peerLimit ≠ some limit := by
  decide +kernel

/-! ### Faults of the calls -/

/-- The queue of handshake packets is used while it is empty. -/
def QueueFault (f : Fault) : Prop := f = .popEmpty ∨ f = .frontEmpty

theorem read_avoids_queueFault (c : ConnectionManager) (b : Span) (mem : Memory) :
    (c.read b mem).Avoids QueueFault := by
  have hload : ¬ QueueFault .load := by simp [QueueFault]
  have hadvance : ¬ QueueFault .advance := by simp [QueueFault]
  simp only [read, readLetsConnect, validate, setPeerBandwidthLimit, Segment.managerType,
    Segment.messageCount, MessageHeader.messageType, LetsConnect.maxSendPacketSize,
    LetsConnect.maxReadPacketSize, LetsConnect.maxSendPacketRate,
    LetsConnect.maxReadPacketRate, Checked.avoids_ite, Checked.avoids_bind,
    Checked.avoids_pure, avoids_readU8, avoids_readU16, avoids_advance, hload, hadvance,
    false_imp_iff, implies_true, and_self]

theorem write_avoids_queueFault (c : ConnectionManager) (id : PacketId) (b : Span)
    (mem : Memory) : (c.write id b mem).Avoids QueueFault := by
  have hstore : ¬ QueueFault .store := by simp [QueueFault]
  have hadvance : ¬ QueueFault .advance := by simp [QueueFault]
  have hassertion : ¬ QueueFault (.assertion .handshakeSize) := by simp [QueueFault]
  simp only [write, writeMessage, Segment.write, MessageHeader.write, LetsConnect.write,
    RejectLetsConnect.write, writeU8, writeU16, Checked.avoids_ite, Checked.avoids_bind,
    Checked.avoids_pure, Checked.avoids_check, avoids_writeUnsigned hstore, avoids_advance,
    hadvance, hassertion, false_imp_iff, implies_true, and_self]

theorem queueClear_faults (queue : List PacketId) : (queueClear queue).faults = [] := by
  induction queue with
  | nil => rfl
  | cons _ queue ih => exact ih

/-- The queue is cleared and then popped once more. -/
theorem status_avoids_queueFault (c : ConnectionManager) (id : PacketId)
    (status : PacketDeliveryStatus) :
    (c.onPacketStatusDelivery id status).Avoids QueueFault
      ↔ ¬ (status = .ack ∧ c.inFlightLetsConnect.head? = some id) := by
  cases hqueue : c.inFlightLetsConnect with
  | nil =>
    cases status <;>
      simp [onPacketStatusDelivery, hqueue, queueFrontIs, Checked.Avoids]
  | cons front queue =>
    by_cases hfront : front = id
    · cases status <;>
        simp [onPacketStatusDelivery, hqueue, queueFrontIs, queueFront, hfront, queuePop,
          Checked.Avoids, queueClear_faults, QueueFault]
    · cases status <;>
        simp [onPacketStatusDelivery, hqueue, queueFrontIs, queueFront, hfront,
          Checked.Avoids]

/-- The span holds a `LetsConnect` that passes `validate`. -/
def HoldsLetsConnect (b : Span) (mem : Memory) : Prop :=
  2 ≤ b.size ∧ mem b.off = 0 ∧ mem (b.off + 1) = 1 ∧ mem (b.off + 2) = 0 ∧
    ValidLimit (limitAt mem (b.off + 3))

instance (b : Span) (mem : Memory) : Decidable (HoldsLetsConnect b mem) :=
  inferInstanceAs (Decidable (_ ∧ _))

/-- What `read` does to the manager. -/
theorem read_cases (c : ConnectionManager) (b : Span) (mem : Memory) :
    (HoldsLetsConnect b mem ∧
      (c.read b mem).val.1 = { c with
        isFail := false
        numLetsConnectToSend :=
          if c.isInitiator then c.numLetsConnectToSend else c.config.numRedundantPackets + 1
        peerBandwidthLimit := some (limitAt mem (b.off + 3)) }) ∨
    (¬ HoldsLetsConnect b mem ∧ ∃ isFail, (c.read b mem).val.1 = { c with isFail := isFail }) := by
  rw [val_read, HoldsLetsConnect]
  -- the tests of `read`, in the order of the code
  by_cases hsize : b.size < 2 ∨ mem b.off ≠ 0
  · rw [if_pos hsize]
    refine Or.inr ⟨fun h => ?_, c.isFail, rfl⟩
    rcases hsize with hsize | hsize
    · omega
    · exact hsize h.2.1
  rw [if_neg hsize]
  push Not at hsize
  by_cases hone : mem (b.off + 1) = 1
  · rw [if_neg (not_not.mpr hone)]
    by_cases hzero : mem (b.off + 2) = 0
    · rw [if_pos hzero, received]
      by_cases hvalid : ValidLimit (limitAt mem (b.off + 3))
      · rw [if_pos hvalid]
        exact Or.inl ⟨⟨hsize.1, hsize.2, hone, hzero, hvalid⟩, rfl⟩
      · rw [if_neg hvalid]
        exact Or.inr ⟨fun h => hvalid h.2.2.2.2, true, rfl⟩
    · rw [if_neg hzero]
      refine Or.inr ⟨fun h => hzero h.2.2.2.1, c.isFail, ?_⟩
      split <;> rfl
  · rw [if_pos hone]
    exact Or.inr ⟨fun h => hone h.2.2.1, c.isFail, rfl⟩

end ConnectionManager

/-! ### Runs -/

open ConnectionManager

/-- A call of a `ConnectionManager`. -/
inductive HandshakeCall
  | connect
  | read (b : Span) (mem : Memory)
  | write (packetId : PacketId) (b : Span) (mem : Memory)
  | onPacketStatusDelivery (packetId : PacketId) (status : PacketDeliveryStatus)

/-- A manager and its past: whether it has taken part in a handshake, the
packets that were written, those of them that have no status yet, and the broken
obligations. -/
structure HandshakeState where
  manager : ConnectionManager
  tookPart : Bool := false
  written : List PacketId := []
  unresolved : List PacketId := []
  faults : List Fault := []

def HandshakeState.next (s : HandshakeState) : HandshakeCall → HandshakeState
  | .connect => { s with manager := s.manager.connect, tookPart := true }
  | .read b mem =>
    let result := s.manager.read b mem
    { s with
      manager := result.val.1
      tookPart := s.tookPart || decide (HoldsLetsConnect b mem)
      faults := s.faults ++ result.faults }
  | .write packetId b mem =>
    let result := s.manager.write packetId b mem
    { s with
      manager := result.val.1
      written := s.written ++ [packetId]
      unresolved := s.unresolved ++ [packetId]
      faults := s.faults ++ result.faults }
  | .onPacketStatusDelivery packetId status =>
    let result := s.manager.onPacketStatusDelivery packetId status
    { s with
      manager := result.val
      unresolved := s.unresolved.erase packetId
      faults := s.faults ++ result.faults }

/-- The runs of a manager, with any packet ids and statuses. -/
def handshake (config : ConnectionManagerConfig) : System HandshakeState HandshakeCall where
  init s := s = { manager := { config := config } }
  enabled _ _ := True
  next := HandshakeState.next

/-- The runs in which packet ids increase and every packet gets one status, in
the order of the packets. -/
def orderedHandshake (config : ConnectionManagerConfig) :
    System HandshakeState HandshakeCall where
  init s := s = { manager := { config := config } }
  enabled s call := match call with
    | .write packetId _ _ => ∀ p ∈ s.written, p < packetId
    | .onPacketStatusDelivery packetId _ => s.unresolved.head? = some packetId
    | _ => True
  next := HandshakeState.next

/-- No call so far has popped the queue of handshake packets, or read its front,
while it was empty. -/
def HandshakeState.QueueSafe (s : HandshakeState) : Prop := ∀ f ∈ s.faults, ¬ QueueFault f

/-- The call is not an ACK of the packet at the front of the queue. -/
def NoAckOfFront (s : HandshakeState) : HandshakeCall → Prop
  | .onPacketStatusDelivery packetId .ack => s.manager.inFlightLetsConnect.head? ≠ some packetId
  | _ => True

theorem HandshakeState.queueSafe_append {s : HandshakeState} {m : ConnectionManager}
    {tookPart : Bool} {written unresolved : List PacketId} {α : Type} (hs : s.QueueSafe)
    (x : Checked Fault α) :
    QueueSafe ⟨m, tookPart, written, unresolved, s.faults ++ x.faults⟩
      ↔ x.Avoids QueueFault := by
  constructor
  · exact fun h f hf => h f (List.mem_append_right _ hf)
  · intro h f hf
    rcases List.mem_append.mp hf with hf | hf
    · exact hs f hf
    · exact h f hf

theorem queueSafe_next_iff {s : HandshakeState} (hs : s.QueueSafe) (call : HandshakeCall) :
    (s.next call).QueueSafe ↔ NoAckOfFront s call := by
  cases call with
  | connect => exact iff_of_true hs trivial
  | read b mem =>
    exact iff_of_true ((HandshakeState.queueSafe_append hs _).mpr
      (read_avoids_queueFault _ _ _)) trivial
  | write packetId b mem =>
    exact iff_of_true ((HandshakeState.queueSafe_append hs _).mpr
      (write_avoids_queueFault _ _ _ _)) trivial
  | onPacketStatusDelivery packetId status =>
    rw [HandshakeState.next, HandshakeState.queueSafe_append hs, status_avoids_queueFault]
    cases status <;> simp [NoAckOfFront]

/-- **Queue safety**, exactly as far as the code has it: in every run the queue is
never used while empty iff no handshake packet is acknowledged while it is at
the front of the queue. -/
theorem queue_safe_iff (config : ConnectionManagerConfig) (calls : List HandshakeCall) :
    (handshake config).Along HandshakeState.QueueSafe { manager := { config := config } } calls
      ↔ (handshake config).RunOk NoAckOfFront { manager := { config := config } } calls := by
  have hrun : ∀ (calls : List HandshakeCall) (s : HandshakeState),
      (handshake config).RunOk System.anyAction s calls := by
    intro calls
    induction calls with
    | nil => exact fun s => trivial
    | cons call calls ih => exact fun s => ⟨trivial, trivial, ih _⟩
  refine System.along_iff_runOk (fun _ => True) (fun _ _ _ _ => trivial)
    (fun s call _ hs _ => queueSafe_next_iff hs call) trivial ?_ (hrun _ _)
  simp [HandshakeState.QueueSafe]

/-- The first acknowledgement of a handshake packet pops the queue that has just
been cleared. -/
theorem queue_not_safe_after_ack :
    let calls : List HandshakeCall :=
      [.connect, .write 0 ⟨12, 1388⟩ (fun _ => 0), .onPacketStatusDelivery 0 .ack]
    ¬ (handshake ⟨0, ⟨0, 1400, 0, 1400⟩⟩).Along HandshakeState.QueueSafe
      { manager := { config := ⟨0, ⟨0, 1400, 0, 1400⟩⟩ } } calls := by
  intro calls h
  exact h.2.2.2 .popEmpty (by decide +kernel) (Or.inl rfl)

/-! ### Getting stuck -/

/-- A manager that has taken part in a handshake, and none of whose handshake
packets was acknowledged, has one to send or in flight. -/
def HandshakeState.NotStuck (s : HandshakeState) : Prop :=
  s.tookPart = true → s.manager.selfIsConnected = false →
    s.manager.numLetsConnectToSend > 0 ∨ s.manager.inFlightLetsConnect ≠ []

/-- The call is not a DROP of the only handshake packet in flight while nothing
is left to send, the limits of the peer are known and no handshake packet was
acknowledged. -/
def NoLastDrop (s : HandshakeState) : HandshakeCall → Prop
  | .onPacketStatusDelivery packetId .drop =>
    ¬ (s.manager.inFlightLetsConnect = [packetId] ∧ s.manager.numLetsConnectToSend = 0 ∧
      s.manager.peerBandwidthLimit.isSome = true ∧ s.manager.selfIsConnected = false)
  | _ => True

/-- An initiator, and a manager that knows the limits of its peer, have taken
part in a handshake. -/
def HandshakeState.Involved (s : HandshakeState) : Prop :=
  (s.manager.isInitiator = true → s.tookPart = true) ∧
  (s.manager.peerBandwidthLimit.isSome = true → s.tookPart = true)

theorem HandshakeState.Involved.next {s : HandshakeState} (h : s.Involved)
    (call : HandshakeCall) : (s.next call).Involved := by
  cases call with
  | connect => exact ⟨fun _ => rfl, fun _ => rfl⟩
  | read b mem =>
    simp only [Involved, HandshakeState.next, Bool.or_eq_true, decide_eq_true_eq]
    rcases read_cases s.manager b mem with ⟨hholds, hread⟩ | ⟨-, isFail, hread⟩
    · exact ⟨fun _ => Or.inr hholds, fun _ => Or.inr hholds⟩
    · rw [hread]
      exact ⟨fun hi => Or.inl (h.1 hi), fun hl => Or.inl (h.2 hl)⟩
  | write packetId b mem =>
    simp only [Involved, HandshakeState.next, ConnectionManager.write_state]
    split <;> exact h
  | onPacketStatusDelivery packetId status =>
    simp only [Involved, HandshakeState.next]
    rcases status_cases s.manager packetId status with ⟨-, hval⟩ | ⟨-, -, hval⟩ | ⟨-, -, hval⟩ <;>
      rw [hval] <;> exact h

theorem notStuck_read {s : HandshakeState} (hinv : s.Involved) (hs : s.NotStuck) (b : Span)
    (mem : Memory) : (s.next (.read b mem)).NotStuck := by
  simp only [HandshakeState.NotStuck, HandshakeState.next, Bool.or_eq_true, decide_eq_true_eq]
  rcases read_cases s.manager b mem with ⟨-, hread⟩ | ⟨hholds, isFail, hread⟩
  · rw [hread]
    intro _ hself
    dsimp only
    by_cases hinit : s.manager.isInitiator = true
    · rw [if_pos hinit]
      exact hs (hinv.1 hinit) hself
    · rw [if_neg hinit]
      exact Or.inl (Nat.succ_pos _)
  · rw [hread]
    rintro (htook | hholds') hself
    · exact hs htook hself
    · exact absurd hholds' hholds

theorem notStuck_write {s : HandshakeState} (hs : s.NotStuck) (packetId : PacketId) (b : Span)
    (mem : Memory) : (s.next (.write packetId b mem)).NotStuck := by
  simp only [HandshakeState.NotStuck, HandshakeState.next, ConnectionManager.write_state]
  split
  · intro _ _
    exact Or.inr (by simp)
  · exact hs

theorem notStuck_status_iff {s : HandshakeState} (hinv : s.Involved) (hs : s.NotStuck)
    (packetId : PacketId) (status : PacketDeliveryStatus) :
    (s.next (.onPacketStatusDelivery packetId status)).NotStuck
      ↔ NoLastDrop s (.onPacketStatusDelivery packetId status) := by
  simp only [HandshakeState.NotStuck, HandshakeState.next]
  rcases status_cases s.manager packetId status with
    ⟨hhead, hval⟩ | ⟨-, rfl, hval⟩ | ⟨hhead, rfl, hval⟩
  · -- the status is not for the front of the queue
    rw [hval]
    refine iff_of_true hs ?_
    cases status with
    | ack => trivial
    | drop =>
      rintro ⟨hqueue, -⟩
      rw [hqueue] at hhead
      exact hhead rfl
  · rw [hval]
    exact iff_of_true (fun _ h => absurd h (by simp)) trivial
  · rw [hval]
    -- the front has been dropped: what is left is `rest`, and a new message if the peer is unknown
    obtain ⟨rest, hqueue⟩ : ∃ rest, s.manager.inFlightLetsConnect = packetId :: rest :=
      List.head?_eq_some_iff.mp hhead
    simp only [NoLastDrop, hqueue, List.tail_cons]
    constructor
    · rintro h ⟨hrest, hnum, hlimit, hself⟩
      rcases h (hinv.2 hlimit) hself with hpos | hne
      · rw [if_pos hlimit, hnum] at hpos
        exact Nat.lt_irrefl 0 hpos
      · exact hne (List.cons.inj hrest).2
    · intro h htook hself
      by_contra hcontra
      push Not at hcontra
      obtain ⟨hnum, hrest⟩ := hcontra
      by_cases hlimit : s.manager.peerBandwidthLimit.isSome = true
      · rw [if_pos hlimit] at hnum
        exact h ⟨by rw [hrest], Nat.le_zero.mp hnum, hlimit, hself⟩
      · rw [if_neg hlimit] at hnum
        omega

end Neptun
