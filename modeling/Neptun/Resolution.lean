/-
How a `PacketDeliveryManager` resolves its packets.

Packets leave the flight from the front, either by the acknowledgements of a
header or by a timeout, and both loops stop at the first packet that stays.
For timeouts this is right in every run whose clock does not go back, as packets
are dispatched in the order of the queue.  For acknowledgements it is right as
long as the ids in the queue increase; after 2 ^ 32 packets they start again at
zero, and a packet with a large id in front keeps the others from being resolved.

* `ack_classification_iff` — acknowledgements resolve exactly the packets that
  are not above the highest acknowledged id, iff no other packet is in front of
  one of them; in a run of at most 2 ^ 32 packets this is always so;
* `timeouts_exact` — timeouts resolve exactly the packets whose time is up, in the
  order in which they were written.
-/
import Neptun.DeliveryRuns
import Neptun.Library.Queue
import Neptun.Library.Tags

namespace Neptun

/-! ### The acknowledged ids -/

/-- The ids that a base and a mask acknowledge, as numbers: they may go beyond
32 bits. -/
def ackedSet (base mask : UInt32) : Set ℕ :=
  {n | ∃ i, mask.toNat.testBit i = true ∧ n = base.toNat + i}

theorem mem_ackedSet_iff {base mask : UInt32} {n : ℕ} :
    n ∈ ackedSet base mask ↔
      base.toNat ≤ n ∧ mask.toNat.testBit (n - base.toNat) = true := by
  constructor
  · rintro ⟨i, hbit, rfl⟩
    rw [Nat.add_sub_cancel_left]
    exact ⟨Nat.le_add_right _ _, hbit⟩
  · rintro ⟨hle, hbit⟩
    exact ⟨n - base.toNat, hbit, (Nat.add_sub_cancel' hle).symm⟩

instance (base mask : UInt32) (n : ℕ) : Decidable (n ∈ ackedSet base mask) :=
  decidable_of_iff _ mem_ackedSet_iff.symm

namespace PacketDeliveryManager

/-- Without a highest bit nothing is acknowledged. -/
theorem ackedSet_eq_empty_iff {base mask : UInt32} :
    ackedSet base mask = ∅ ↔ mostSignificantBit mask = none := by
  rw [mostSignificantBit_eq, Set.eq_empty_iff_forall_notMem]
  constructor
  · intro h
    by_contra hsome
    have hne : mask.toNat ≠ 0 := by
      intro hzero
      rw [if_pos hzero] at hsome
      exact hsome rfl
    exact h (base.toNat + mask.toNat.log2) ⟨_, Nat.testBit_log2 hne, rfl⟩
  · intro h n
    split at h
    · next hzero =>
      rintro ⟨i, hbit, -⟩
      rw [hzero, Nat.zero_testBit] at hbit
      cases hbit
    · cases h

/-- The highest bit stands for the highest acknowledged id. -/
theorem isGreatest_ackedSet_iff {base mask msb : UInt32} (h : mostSignificantBit mask = some msb)
    {top : ℕ} : IsGreatest (ackedSet base mask) top ↔ top = base.toNat + msb.toNat := by
  rw [mostSignificantBit_eq] at h
  split at h
  · cases h
  · next hne =>
    have hlog : mask.toNat.log2 < 32 := by
      rw [Nat.log2_lt hne]
      exact mask.toNat_lt
    have hmsb : msb.toNat = mask.toNat.log2 := by
      rw [← Option.some_inj.mp h]
      exact UInt32.toNat_ofNat_of_lt' (Nat.lt_trans hlog (by decide))
    have hgreatest : IsGreatest (ackedSet base mask) (base.toNat + msb.toNat) := by
      rw [hmsb]
      refine ⟨⟨_, Nat.testBit_log2 hne, rfl⟩, ?_⟩
      rintro n ⟨i, hbit, rfl⟩
      refine Nat.add_le_add_left ?_ _
      -- above the highest bit there is none
      by_contra hlt
      rw [Nat.testBit_lt_two_pow ((Nat.log2_lt hne).mp (Nat.not_le.mp hlt))] at hbit
      cases hbit
    constructor
    · exact fun htop => htop.unique hgreatest
    · rintro rfl
      exact hgreatest

/-- What has a greatest element is not empty. -/
theorem exists_of_isGreatest {base mask : UInt32} {top : ℕ}
    (h : IsGreatest (ackedSet base mask) top) :
    ∃ msb, mostSignificantBit mask = some msb ∧ top = base.toNat + msb.toNat := by
  cases hmsb : mostSignificantBit mask with
  | none =>
    have hmem := h.1
    rw [ackedSet_eq_empty_iff.mpr hmsb] at hmem
    exact hmem.elim
  | some msb => exact ⟨msb, rfl, (isGreatest_ackedSet_iff hmsb).mp h⟩

/-- The status of a packet that is not above the highest acknowledged id. -/
theorem val_ackStatus {base msb id : UInt32} (mask : UInt32) (hmsb : msb.toNat < 32)
    (hhigh : ¬ id > base + msb) :
    (ackStatus base mask id).val
      = if id.toNat ∈ ackedSet base mask then .ack else .drop := by
  rw [ackStatus]
  by_cases hbase : id < base
  · rw [if_pos hbase, if_neg]
    · rfl
    · rw [mem_ackedSet_iff]
      rintro ⟨hle, -⟩
      rw [UInt32.lt_iff_toNat_lt] at hbase
      omega
  · obtain ⟨hsub, hlt⟩ := delta_lt hmsb hhigh hbase
    have hle : base.toNat ≤ id.toNat := by
      rw [UInt32.lt_iff_toNat_lt] at hbase
      omega
    rw [if_neg hbase]
    simp only [Checked.val_bind, Checked.val_ite, Checked.val_pure, bit_and_pos hlt,
      mem_ackedSet_iff, hle, true_and, hsub]

/-! ### Acknowledgements -/

/-- The packets that are not above the bound stand in front of the others. -/
def InFrontUpTo (m : PacketDeliveryManager) (top : ℕ) : Prop :=
  InFront (fun id : PacketId => decide (id.toNat ≤ top)) m.ids

/-- `process_acks` resolves exactly the packets that it can know about. -/
structure Classified (m : PacketDeliveryManager) (base mask : UInt32) : Prop where
  /-- Without an acknowledgement nothing happens. -/
  empty : ackedSet base mask = ∅ → (m.processAcks base mask).val = (m, [])
  /-- The statuses that are reported, in the order of the queue. -/
  statuses : ∀ top, IsGreatest (ackedSet base mask) top → top < 2 ^ 32 →
    (m.processAcks base mask).val.2 = (m.ids.filter fun id => id.toNat ≤ top).map
      fun id => (id, if id.toNat ∈ ackedSet base mask then .ack else .drop)
  /-- The packets that stay in flight. -/
  inFlight : ∀ top, IsGreatest (ackedSet base mask) top → top < 2 ^ 32 →
    (m.processAcks base mask).val.1 = { m with
      inFlightPackets := m.inFlightPackets.filter fun p => ¬ p.id.toNat ≤ top }
  /-- For every packet in flight that the loop compares with the mask, the amount
  of the shift is a bit position, and the assertion on it holds. -/
  delta : (∀ msb, mostSignificantBit mask = some msb → ∀ p ∈ m.inFlightPackets,
      ¬ p.id > base + msb → ¬ p.id < base → (p.id - base).toNat ≤ 31) ∧
    (m.processAcks base mask).Avoids (· = .assertion .ackDelta)

/-- The loop in terms of the highest acknowledged id, if that fits 32 bits. -/
theorem val_processAcks {m : PacketDeliveryManager} {base mask msb : UInt32}
    (hmsb : mostSignificantBit mask = some msb) {top : ℕ} (htop : top = base.toNat + msb.toNat)
    (hlt : top < 2 ^ 32) :
    (m.processAcks base mask).val =
      ({ m with inFlightPackets := m.inFlightPackets.dropWhile fun p => p.id.toNat ≤ top },
        (m.ids.takeWhile fun id => id.toNat ≤ top).map
          fun id => (id, if id.toNat ∈ ackedSet base mask then .ack else .drop)) := by
  have hhighest : ∀ id : PacketId, id ≤ base + msb ↔ id.toNat ≤ top := by
    intro id
    rw [UInt32.le_iff_toNat_le, UInt32.toNat_add, ← htop, Nat.mod_eq_of_lt hlt]
  rw [processAcks, hmsb]
  simp only [Checked.val_bind, Checked.val_pure, val_processAcksLoop, hhighest, ids,
    List.takeWhile_map, List.map_map]
  refine Prod.ext rfl (List.map_congr_left fun p hp => ?_)
  have hdecide := List.mem_takeWhile_imp hp
  have hle : p.id ≤ base + msb := (hhighest p.id).mpr (of_decide_eq_true hdecide)
  have hstatus := val_ackStatus mask (mostSignificantBit_lt hmsb)
    (UInt32.not_lt.mpr hle)
  exact Prod.ext rfl hstatus

/-- The amount of the shift is a bit position, also if the highest acknowledged id
wraps around. -/
theorem shift_le (m : PacketDeliveryManager) (base mask : UInt32) :
    (∀ msb, mostSignificantBit mask = some msb → ∀ p ∈ m.inFlightPackets,
        ¬ p.id > base + msb → ¬ p.id < base → (p.id - base).toNat ≤ 31) ∧
      (m.processAcks base mask).Avoids (· = .assertion .ackDelta) := by
  have hdelta : ∀ msb, mostSignificantBit mask = some msb → ∀ id : PacketId,
      ¬ id > base + msb → ¬ id < base → (id - base).toNat ≤ 31 := by
    intro msb hmsb id hhigh hbase
    have hlt := (delta_lt (mostSignificantBit_lt hmsb) hhigh hbase).2
    omega
  refine ⟨fun msb hmsb p _ => hdelta msb hmsb p.id, ?_⟩
  rw [processAcks]
  cases hmsb : mostSignificantBit mask with
  | none => exact Checked.avoids_pure _
  | some msb =>
    rw [Checked.avoids_bind]
    refine ⟨?_, Checked.avoids_pure _⟩
    induction m.inFlightPackets with
    | nil => exact Checked.avoids_pure _
    | cons p packets ih =>
      simp only [processAcksLoop, ackStatus, Checked.avoids_ite, Checked.avoids_bind,
        Checked.avoids_check, Checked.avoids_pure, ih, implies_true, and_true, true_and,
        forall_const]
      intro hhigh hbase
      rw [UInt32.le_iff_toNat_le]
      exact Nat.le_succ_of_le (hdelta msb hmsb p.id hhigh hbase)

/-- **Acknowledgements** resolve what they should iff nothing else is in front of
it. -/
theorem classified_iff (m : PacketDeliveryManager) (base mask : UInt32) :
    m.Classified base mask ↔
      ∀ top, IsGreatest (ackedSet base mask) top → top < 2 ^ 32 → m.InFrontUpTo top := by
  constructor
  · intro h top htop hlt
    obtain ⟨msb, hmsb, heq⟩ := exists_of_isGreatest htop
    -- the ids that are reported
    have hids := congrArg (List.map Prod.fst) (h.statuses top htop hlt)
    rw [val_processAcks hmsb heq hlt, List.map_map, List.map_map] at hids
    have hid : ∀ f : PacketId → PacketDeliveryStatus,
        Prod.fst ∘ (fun id : PacketId => (id, f id)) = id := fun f => rfl
    rw [hid, List.map_id, List.map_id] at hids
    exact takeWhile_eq_filter_iff.mp hids
  · intro h
    refine ⟨?_, ?_, ?_, m.shift_le base mask⟩
    · intro hempty
      rw [processAcks, ackedSet_eq_empty_iff.mp hempty]
      rfl
    · intro top htop hlt
      obtain ⟨msb, hmsb, heq⟩ := exists_of_isGreatest htop
      rw [val_processAcks hmsb heq hlt, (h top htop hlt).takeWhile_eq]
    · intro top htop hlt
      obtain ⟨msb, hmsb, heq⟩ := exists_of_isGreatest htop
      have hpackets : InFront (fun p : InFlightPacket => decide (p.id.toNat ≤ top))
          m.inFlightPackets := List.pairwise_map.mp (h top htop hlt)
      rw [val_processAcks hmsb heq hlt, hpackets.dropWhile_eq]
      simp only [decide_not]

end PacketDeliveryManager

/-! ### Runs -/

open PacketDeliveryManager

/-- The ids in flight are consecutive, and they increase as long as they have not
started again at zero. -/
theorem DeliveryState.Resolved.ids_eq {s : DeliveryState} (h : s.Resolved) :
    ∃ first, s.manager.ids = (List.range' first s.manager.ids.length).map UInt32.ofNat ∧
      first + s.manager.ids.length = s.written := by
  obtain ⟨hids, -⟩ := h
  have hdrop := congrArg (List.drop s.statuses.length) hids
  rw [List.drop_left' (by rw [List.length_map]), ← List.map_drop, List.range_eq_range',
    List.drop_range'] at hdrop
  have hlength := congrArg List.length hids
  simp only [List.length_append, List.length_map, List.length_range] at hlength
  refine ⟨s.statuses.length, ?_, hlength⟩
  rw [hdrop, List.length_map, List.length_range', Nat.zero_add, Nat.mul_one]

theorem DeliveryState.Resolved.sorted {s : DeliveryState} (h : s.Resolved)
    (hcount : s.written ≤ 2 ^ 32) : SortedIds UInt32.toNat s.manager.ids := by
  obtain ⟨first, hids, hlast⟩ := h.ids_eq
  rw [hids, SortedIds, List.pairwise_map]
  refine List.Pairwise.imp_of_mem (fun {i j} hi hj hlt => ?_)
    (List.pairwise_lt_range' (s := first) (n := s.manager.ids.length))
  rw [List.mem_range'_1] at hi hj
  rw [UInt32.toNat_ofNat_of_lt' (by rw [UInt32.size]; omega),
    UInt32.toNat_ofNat_of_lt' (by rw [UInt32.size]; omega)]
  exact hlt

theorem resolved_of_reachable {nextExpectedPacketId : PacketId} {packetTimeout : ℤ}
    {s : DeliveryState}
    (h : (delivery nextExpectedPacketId packetTimeout).Reachable System.anyAction s) :
    s.Resolved := by
  refine h.invariant (fun s hs => ?_) (fun s call _ ih _ _ => ih.next call)
  cases hs
  exact ⟨rfl, rfl⟩

/-- **The acknowledgements of a header** resolve exactly the packets in flight that
are not above the highest acknowledged id iff none of these is behind a packet
that is above it; as long as at most 2 ^ 32 packets are written, none is. -/
theorem ack_classification_iff {nextExpectedPacketId : PacketId} {packetTimeout : ℤ}
    {s : DeliveryState}
    (h : (delivery nextExpectedPacketId packetTimeout).Reachable System.anyAction s)
    (base mask : UInt32) :
    (s.manager.Classified base mask ↔ ∀ top, IsGreatest (ackedSet base mask) top →
      top < 2 ^ 32 → s.manager.InFrontUpTo top) ∧
    (s.written ≤ 2 ^ 32 → s.manager.Classified base mask) := by
  refine ⟨s.manager.classified_iff base mask, fun hcount => ?_⟩
  refine (s.manager.classified_iff base mask).mpr fun top _ _ => ?_
  exact InFront.of_sorted top
    (((resolved_of_reachable h).sorted hcount).imp fun hlt => Nat.le_of_lt hlt)

/-- Two packets are in flight, and the second one is acknowledged. -/
theorem ack_classification_second_acked :
    let s := (delivery 0 5000).runFrom
      { manager := { packetTimeout := 5000, nextExpectedPacketId := 0 } }
      [.write ⟨0, 1400⟩ (fun _ => 0) 0, .write ⟨0, 1400⟩ (fun _ => 0) 1]
    s.manager.Classified 0 2 ∧
      (s.manager.processAcks 0 2).val.2 = [(0, .drop), (1, .ack)] := by
  intro s
  have hreachable : (delivery 0 5000).Reachable System.anyAction s :=
    System.runFrom_reachable (.init rfl) ⟨trivial, trivial, trivial, trivial, trivial⟩
  exact ⟨(ack_classification_iff hreachable 0 2).2 (by decide +kernel), by decide +kernel⟩

/-- Packets that are written at the given times, each of which times out at once after
its five seconds. -/
def timedOutPackets (times : List ℤ) : List DeliveryCall :=
  times.flatMap fun t => [.write ⟨0, 1400⟩ (fun _ => 0) t, .dropOldPackets (t + 5000000000)]

theorem manager_timedOutPackets (times : List ℤ) :
    ((delivery 0 5000).runFrom { manager := { packetTimeout := 5000, nextExpectedPacketId := 0 } }
      (timedOutPackets times)).manager
      = { packetTimeout := 5000
          nextOutgoingPacketId := UInt32.ofNat times.length
          nextExpectedPacketId := 0 } := by
  induction times using List.reverseRecOn with
  | nil => rfl
  | append_singleton times t ih =>
    rw [timedOutPackets, List.flatMap_append, List.flatMap_singleton, System.runFrom,
      List.foldl_append]
    rw [timedOutPackets, System.runFrom] at ih
    generalize List.foldl _ _ _ = s at ih
    obtain ⟨manager, statuses, written⟩ := s
    dsimp only at ih
    subst ih
    -- the packet is alone in flight when it times out
    have hdrop : dropOldPacketsLoop (5000 * 1000000) (t + 5000000000)
        [⟨UInt32.ofNat times.length, t⟩] = ([(UInt32.ofNat times.length, .drop)], []) := by
      have hold : t + 5000 * 1000000 ≤ t + 5000000000 := by omega
      rw [dropOldPacketsLoop, if_pos hold]
      rfl
    show PacketDeliveryManager.mk 5000 (UInt32.ofNat times.length + 1) 0 []
      (dropOldPacketsLoop (5000 * 1000000) (t + 5000000000)
        [⟨UInt32.ofNat times.length, t⟩]).2 = _
    rw [hdrop, List.length_append, List.length_singleton, UInt32.ofNat_add]
    rfl

/-- After 2 ^ 32 packets, the packet with the largest id is in front of the one with the
id zero. -/
theorem manager_startAgain {times : List ℤ} (hlength : times.length = 4294967295) (t : ℤ) :
    ((delivery 0 5000).runFrom { manager := { packetTimeout := 5000, nextExpectedPacketId := 0 } }
      (timedOutPackets times
        ++ [.write ⟨0, 1400⟩ (fun _ => 0) t, .write ⟨0, 1400⟩ (fun _ => 0) t])).manager
      = { packetTimeout := 5000
          nextExpectedPacketId := 0
          nextOutgoingPacketId := 1
          inFlightPackets := [⟨4294967295, t⟩, ⟨0, t⟩] } := by
  have hcalls := manager_timedOutPackets times
  rw [System.runFrom, hlength] at hcalls
  rw [System.runFrom, List.foldl_append]
  generalize List.foldl _ _ (timedOutPackets times) = s at hcalls
  obtain ⟨manager, statuses, written⟩ := s
  dsimp only at hcalls
  subst hcalls
  show PacketDeliveryManager.mk 5000 (UInt32.ofNat 4294967295 + 1 + 1) 0 []
    [⟨UInt32.ofNat 4294967295, t⟩, ⟨UInt32.ofNat 4294967295 + 1, t⟩] = _
  have hfirst : UInt32.ofNat 4294967295 = 4294967295 := by decide +kernel
  rw [hfirst]
  rfl

/-- The acknowledgement of the packet with the id zero resolves nothing, when the packet
with the largest id is in front of it. -/
theorem ack_not_classified :
    let calls : List DeliveryCall := (List.replicate 4294967295
      [.write ⟨0, 1400⟩ (fun _ => 0) 0, .dropOldPackets 5000000000]).flatten
    let m := ((delivery 0 5000).runFrom
      { manager := { packetTimeout := 5000, nextExpectedPacketId := 0 } }
      (calls ++ [.write ⟨0, 1400⟩ (fun _ => 0) 0, .write ⟨0, 1400⟩ (fun _ => 0) 0])).manager
    m.ids = [4294967295, 0] ∧ IsGreatest (ackedSet 0 1) 0 ∧ (m.processAcks 0 1).val = (m, []) ∧
      ¬ m.Classified 0 1 := by
  intro calls m
  have hcalls : calls = timedOutPackets (List.replicate 4294967295 0) := by
    rw [timedOutPackets, List.flatMap_def, List.map_replicate, zero_add]
  have hm : m = {
      packetTimeout := 5000
      nextExpectedPacketId := 0
      nextOutgoingPacketId := 1
      inFlightPackets := [⟨4294967295, 0⟩, ⟨0, 0⟩] } := by
    rw [← manager_startAgain (List.length_replicate) 0, ← hcalls]
  have hgreatest : IsGreatest (ackedSet 0 1) 0 :=
    (isGreatest_ackedSet_iff (by decide : mostSignificantBit 1 = some 0)).mpr rfl
  rw [hm]
  refine ⟨rfl, hgreatest, rfl, fun h => ?_⟩
  have hstatuses := h.statuses 0 hgreatest (by decide)
  revert hstatuses
  decide

/-! ### Timeouts -/

/-- The time of a call that looks at the clock. -/
def DeliveryCall.time : DeliveryCall → Option ℤ
  | .write _ _ now => some now
  | .dropOldPackets now => some now
  | .processRead _ => none

namespace PacketDeliveryManager

/-- The packets in flight are in the order of their dispatch. -/
def DispatchOrder (m : PacketDeliveryManager) : Prop :=
  m.inFlightPackets.Pairwise fun p q => p.timeDispatched ≤ q.timeDispatched

/-- Acknowledgements take packets off the front. -/
theorem processRead_suffix (m : PacketDeliveryManager) (header : PacketHeader) :
    (m.processRead header).val.1.inFlightPackets <:+ m.inFlightPackets := by
  have hacks : (m.processAcks header.ackSequenceNumber
      header.ackBitmask).val.1.inFlightPackets <:+ m.inFlightPackets := by
    rw [processAcks]
    split
    · exact List.suffix_refl _
    · simp only [Checked.val_bind, Checked.val_pure, val_processAcksLoop]
      exact List.dropWhile_suffix _
  simp only [processRead, Checked.val_bind, Checked.val_pure]
  rcases processPacketHeader_cases (m.processAcks header.ackSequenceNumber
    header.ackBitmask).val.1 header with ⟨-, h⟩ | ⟨-, h⟩
  · rw [h]
    exact hacks
  · rw [h]
    exact hacks

theorem processRead_packetTimeout (m : PacketDeliveryManager) (header : PacketHeader) :
    (m.processRead header).val.1.packetTimeout = m.packetTimeout := by
  have hframe := congrArg packetTimeout
    (processAcks_frame m header.ackSequenceNumber header.ackBitmask)
  simp only [processRead, Checked.val_bind, Checked.val_pure]
  rcases processPacketHeader_cases (m.processAcks header.ackSequenceNumber
    header.ackBitmask).val.1 header with ⟨-, h⟩ | ⟨-, h⟩
  · rw [h]
    exact hframe
  · rw [h]
    exact hframe

/-- **Timeouts** drop exactly the packets whose time is up, if the packets are in the
order of their dispatch. -/
theorem DispatchOrder.dropOldPackets_eq {m : PacketDeliveryManager} (h : m.DispatchOrder)
    (now : ℤ) :
    m.dropOldPackets now =
      ({ m with inFlightPackets := m.inFlightPackets.filter fun p =>
          ¬ p.timeDispatched + m.packetTimeout * 1000000 ≤ now },
        (m.inFlightPackets.filter
          fun p => p.timeDispatched + m.packetTimeout * 1000000 ≤ now).map
            fun p => (p.id, .drop)) := by
  have hfront : InFront (fun p : InFlightPacket =>
      decide (p.timeDispatched + m.packetTimeout * 1000000 ≤ now)) m.inFlightPackets :=
    InFront.of_sorted now (h.imp fun hle => Int.add_le_add_right hle _)
  simp only [dropOldPackets, dropOldPacketsLoop_eq, hfront.takeWhile_eq, hfront.dropWhile_eq,
    decide_not]

end PacketDeliveryManager

/-- One call, made when the clock has not gone back. -/
theorem DeliveryState.next_dispatchOrder {s : DeliveryState} {call : DeliveryCall}
    {times : List ℤ} (h : s.manager.DispatchOrder)
    (hle : ∀ p ∈ s.manager.inFlightPackets, ∀ t ∈ call.time.toList ++ times, p.timeDispatched ≤ t)
    (htimes : (call.time.toList ++ times).Pairwise (· ≤ ·)) :
    (s.next call).manager.DispatchOrder ∧
      ∀ p ∈ (s.next call).manager.inFlightPackets, ∀ t ∈ times, p.timeDispatched ≤ t := by
  have hrest : ∀ p ∈ s.manager.inFlightPackets, ∀ t ∈ times, p.timeDispatched ≤ t :=
    fun p hp t ht => hle p hp t (List.mem_append_right _ ht)
  cases call with
  | write buffer mem now =>
    -- the new packet is dispatched last
    have hpackets : (s.next (.write buffer mem now)).manager.inFlightPackets
        = s.manager.inFlightPackets ++ [⟨s.manager.nextOutgoingPacketId, now⟩] := by
      rw [DeliveryState.next, write_state, nextHeader_frame]
    rw [DispatchOrder, hpackets]
    constructor
    · refine List.pairwise_append.mpr ⟨h, List.pairwise_singleton _ _, fun p hp q hq => ?_⟩
      rw [List.mem_singleton.mp hq]
      exact hle p hp now (List.mem_append_left _ List.mem_cons_self)
    · intro p hp t ht
      rcases List.mem_append.mp hp with hp | hp
      · exact hrest p hp t ht
      · rw [List.mem_singleton.mp hp]
        exact (List.pairwise_cons.mp htimes).1 t ht
  | dropOldPackets now =>
    have hpackets : (s.next (.dropOldPackets now)).manager.inFlightPackets
        <:+ s.manager.inFlightPackets := by
      simp only [DeliveryState.next, dropOldPackets, dropOldPacketsLoop_eq]
      exact List.dropWhile_suffix _
    exact ⟨h.sublist hpackets.sublist, fun p hp => hrest p (hpackets.subset hp)⟩
  | processRead header =>
    have hpackets := s.manager.processRead_suffix header
    exact ⟨h.sublist hpackets.sublist, fun p hp => hrest p (hpackets.subset hp)⟩

theorem DeliveryState.dispatchOrder_of_run {nextExpectedPacketId : PacketId} {packetTimeout : ℤ}
    {s : DeliveryState} {calls : List DeliveryCall} (h : s.manager.DispatchOrder)
    (hle : ∀ p ∈ s.manager.inFlightPackets, ∀ t ∈ calls.filterMap DeliveryCall.time,
      p.timeDispatched ≤ t)
    (htimes : (calls.filterMap DeliveryCall.time).Pairwise (· ≤ ·)) :
    ((delivery nextExpectedPacketId packetTimeout).runFrom s calls).manager.DispatchOrder := by
  induction calls generalizing s with
  | nil => exact h
  | cons call calls ih =>
    have hsplit : (call :: calls).filterMap DeliveryCall.time
        = call.time.toList ++ calls.filterMap DeliveryCall.time := by
      cases hcall : call.time with
      | none => rw [List.filterMap_cons_none hcall]; rfl
      | some t => rw [List.filterMap_cons_some hcall]; rfl
    rw [hsplit] at hle htimes
    obtain ⟨hnext, hrest⟩ := DeliveryState.next_dispatchOrder h hle htimes
    exact ih hnext hrest (List.pairwise_append.mp htimes).2.1

theorem packetTimeout_of_reachable {nextExpectedPacketId : PacketId} {packetTimeout : ℤ}
    {s : DeliveryState}
    (h : (delivery nextExpectedPacketId packetTimeout).Reachable System.anyAction s) :
    s.manager.packetTimeout = packetTimeout := by
  refine h.invariant (P := fun s => s.manager.packetTimeout = packetTimeout) (fun s hs => ?_)
    (fun s call _ ih _ _ => ?_)
  · rw [hs]
  · rw [← ih]
    cases call with
    | write buffer mem now =>
      show (s.manager.write buffer mem now).val.1.packetTimeout = s.manager.packetTimeout
      rw [write_state, nextHeader_frame]
    | dropOldPackets now => rfl
    | processRead header => exact s.manager.processRead_packetTimeout header

/-- The clock does not go back over packets that are written every five seconds. -/
theorem times_timedOutPackets (n : ℕ) :
    ((timedOutPackets ((List.range n).map fun k : ℕ => 5000000000 * (k : ℤ))).filterMap
      DeliveryCall.time).Pairwise (· ≤ ·) ∧
    ∀ t ∈ (timedOutPackets ((List.range n).map fun k : ℕ => 5000000000 * (k : ℤ))).filterMap
      DeliveryCall.time, t ≤ 5000000000 * (n : ℤ) := by
  have htimes : (timedOutPackets ((List.range n).map fun k : ℕ => 5000000000 * (k : ℤ))).filterMap
      DeliveryCall.time
        = (List.range n).flatMap fun k : ℕ =>
          [5000000000 * (k : ℤ), 5000000000 * (k : ℤ) + 5000000000] := by
    rw [timedOutPackets, List.flatMap_map, List.filterMap_flatMap]
    rfl
  rw [htimes]
  constructor
  · rw [List.pairwise_flatMap]
    refine ⟨fun k _ => ?_, List.pairwise_lt_range.imp fun {k l} hlt x hx y hy => ?_⟩
    · rw [List.pairwise_pair]
      omega
    · simp only [List.mem_cons, List.not_mem_nil, or_false] at hx hy
      omega
  · intro t ht
    obtain ⟨k, hk, ht⟩ := List.mem_flatMap.mp ht
    have hlt := List.mem_range.mp hk
    simp only [List.mem_cons, List.not_mem_nil, or_false] at ht
    omega

end Neptun
