/-
Acknowledgements between two `PacketDeliveryManager`s.

`AckLink m headers accepted` ties a manager to its past: `accepted` are the ids
its `process_read` has accepted, and both its pending acknowledgements and the
headers it has written speak about such ids only.  Every operation keeps the
link, and an id that a header of the link acknowledges is an accepted one,
however late the header arrives.

The second half lets two managers exchange headers: each side reads only
headers written by the other, but in any order, any number of times, or never.

* `ack_sound` — an id is reported as acknowledged only after the other side has
  accepted the packet; every accepted id was sent, and is accepted once.
-/
import Neptun.DeliveryRuns
import Neptun.World
import Neptun.Library.Tags

namespace Neptun

namespace PacketDeliveryManager

/-- The ids accepted so far, once the header has been processed. -/
def acceptedAfter (m : PacketDeliveryManager) (accepted : List PacketId)
    (header : PacketHeader) : List PacketId :=
  if (m.processRead header).val.2.1 ≠ 0 then accepted ++ [header.id] else accepted

/-- The two ways of a header: it is ignored, or it is accepted and its id is pending. -/
theorem acceptedAfter_cases (m : PacketDeliveryManager) (accepted : List PacketId)
    (header : PacketHeader) :
    (m.acceptedAfter accepted header = accepted ∧
      (m.processRead header).val.1.pendingAcks = m.pendingAcks) ∨
    (m.acceptedAfter accepted header = accepted ++ [header.id] ∧
      (m.processRead header).val.1.pendingAcks = m.pendingAcks ++ [header.id]) := by
  rcases processRead_cases m header with ⟨hcount, -, hpending, -⟩ | ⟨hcount, -, hpending, -⟩
  · exact Or.inl ⟨by rw [acceptedAfter, hcount, if_neg (by simp)], hpending⟩
  · exact Or.inr ⟨by rw [acceptedAfter, hcount, if_pos (by simp)], hpending⟩

/-- Accepted ids increase, and stay below the next expected one unless that wraps
around. -/
theorem acceptedAfter_sorted {m : PacketDeliveryManager} {accepted : List PacketId}
    (hsorted : SortedIds UInt32.toNat accepted)
    (hbelow : ∀ p ∈ accepted, p.toNat < m.nextExpectedPacketId.toNat) {header : PacketHeader}
    (hid : header.id.toNat + 1 < 2 ^ 32) :
    SortedIds UInt32.toNat (m.acceptedAfter accepted header) ∧
      ∀ p ∈ m.acceptedAfter accepted header,
        p.toNat < (m.processRead header).val.1.nextExpectedPacketId.toNat := by
  rcases processRead_cases m header with ⟨hcount, -, -, hexp⟩ | ⟨hcount, hge, -, hexp⟩
  · rw [acceptedAfter, hcount, if_neg (by simp), hexp]
    exact ⟨hsorted, hbelow⟩
  · rw [acceptedAfter, hcount, if_pos (by simp), hexp]
    have hnew : ∀ p ∈ accepted, p.toNat < header.id.toNat := by
      intro p hp
      rw [UInt32.lt_iff_toNat_lt] at hge
      exact Nat.lt_of_lt_of_le (hbelow p hp) (Nat.not_lt.mp hge)
    have hsucc : (header.id + 1).toNat = header.id.toNat + 1 := by
      rw [UInt32.toNat_add, UInt32.toNat_one, Nat.mod_eq_of_lt hid]
    refine ⟨hsorted.append_new hnew, fun p hp => ?_⟩
    rw [hsucc]
    rcases List.mem_append.mp hp with hp | hp
    · exact Nat.lt_succ_of_lt (hnew p hp)
    · rw [List.mem_singleton.mp hp]
      exact Nat.lt_succ_self _

end PacketDeliveryManager

open PacketDeliveryManager

/-- A manager that has accepted the packets `accepted` and written `headers`. -/
structure AckLink (m : PacketDeliveryManager) (headers : List PacketHeader)
    (accepted : List PacketId) : Prop where
  sorted : SortedIds UInt32.toNat accepted
  below : ∀ p ∈ accepted, p.toNat < m.nextExpectedPacketId.toNat
  pending : ∀ p ∈ m.pendingAcks, p ∈ accepted
  acked : ∀ h ∈ headers, ∀ p, h.Acks p → p ∈ accepted

namespace AckLink

variable {m m' : PacketDeliveryManager} {headers : List PacketHeader} {accepted : List PacketId}

theorem start (packetTimeout : ℤ) (nextExpectedPacketId : PacketId) :
    AckLink { packetTimeout := packetTimeout, nextExpectedPacketId := nextExpectedPacketId }
      [] [] where
  sorted := List.Pairwise.nil
  below := by simp
  pending := by simp
  acked := by simp

/-- Only the expected id and the pending acknowledgements matter. -/
theorem congr (h : AckLink m headers accepted)
    (hexp : m'.nextExpectedPacketId = m.nextExpectedPacketId)
    (hpending : ∀ p ∈ m'.pendingAcks, p ∈ m.pendingAcks) : AckLink m' headers accepted where
  sorted := h.sorted
  below := by rw [hexp]; exact h.below
  pending := fun p hp => h.pending p (hpending p hp)
  acked := h.acked

theorem dropOldPackets (h : AckLink m headers accepted) (now : ℤ) :
    AckLink (m.dropOldPackets now).1 headers accepted :=
  h.congr rfl fun _ hp => hp

theorem nextHeader (h : AckLink m headers accepted) (now : ℤ) :
    AckLink (m.nextHeader now).val.1 (headers ++ [(m.nextHeader now).val.2]) accepted := by
  have hexp := congrArg nextExpectedPacketId (nextHeader_frame m now)
  have h' := h.congr hexp fun p hp => nextHeader_pendingAcks_subset hp
  refine ⟨h'.sorted, h'.below, h'.pending, fun header hmem p hack => ?_⟩
  rcases List.mem_append.mp hmem with hmem | hmem
  · exact h.acked header hmem p hack
  · rw [List.mem_singleton] at hmem
    subst hmem
    exact h.pending p (mem_pendingAcks_of_nextHeader hack)

/-- An id that is accepted is new; the bound keeps the next expected id from
wrapping around. -/
theorem processRead (h : AckLink m headers accepted) {header : PacketHeader}
    (hid : header.id.toNat + 1 < 2 ^ 32) :
    AckLink (m.processRead header).val.1 headers (m.acceptedAfter accepted header) := by
  obtain ⟨hsorted, hbelow⟩ := acceptedAfter_sorted h.sorted h.below hid
  refine ⟨hsorted, hbelow, fun p hp => ?_, fun header' hmem p hack => ?_⟩
  · rcases acceptedAfter_cases m accepted header with ⟨haccepted, hpending⟩ | ⟨haccepted, hpending⟩
    · rw [hpending] at hp
      rw [haccepted]
      exact h.pending p hp
    · rw [hpending] at hp
      rw [haccepted]
      exact List.mem_append.mpr ((List.mem_append.mp hp).imp (h.pending p) id)
  · -- what was accepted stays so
    have hold := h.acked header' hmem p hack
    rcases acceptedAfter_cases m accepted header with ⟨haccepted, -⟩ | ⟨haccepted, -⟩
    · rw [haccepted]
      exact hold
    · rw [haccepted]
      exact List.mem_append_left _ hold

/-- A packet reported as acknowledged by a header of the link was accepted. -/
theorem mem_of_ack (h : AckLink m headers accepted) {header : PacketHeader}
    (hmem : header ∈ headers) {p : PacketId}
    (hack : (p, .ack) ∈ (m'.processRead header).val.2.2.1) : p ∈ accepted := by
  rw [processRead_statuses] at hack
  exact h.acked header hmem p (acks_of_processAcks hack)

end AckLink

/-- The manager has written the headers, with ids counting from zero. -/
structure Numbered (m : PacketDeliveryManager) (headers : List PacketHeader) : Prop where
  next : m.nextOutgoingPacketId = UInt32.ofNat headers.length
  ids : headers.map (·.id) = (List.range headers.length).map UInt32.ofNat

namespace Numbered

variable {m m' : PacketDeliveryManager} {headers : List PacketHeader}

theorem congr (h : Numbered m headers)
    (hnext : m'.nextOutgoingPacketId = m.nextOutgoingPacketId) : Numbered m' headers :=
  ⟨hnext.trans h.next, h.ids⟩

theorem nextHeader (h : Numbered m headers) (now : ℤ) :
    Numbered (m.nextHeader now).val.1 (headers ++ [(m.nextHeader now).val.2]) := by
  have hnext := congrArg nextOutgoingPacketId (nextHeader_frame m now)
  constructor
  · rw [hnext, h.next]
    simp
  · rw [List.map_append, h.ids, List.length_append, List.length_singleton, List.range_succ,
      List.map_append]
    simp [nextHeader_id, h.next]

/-- No id comes near the end of the range. -/
theorem id_lt (h : Numbered m headers) (hcount : headers.length < 2 ^ 32)
    {header : PacketHeader} (hmem : header ∈ headers) :
    header.id.toNat < headers.length := by
  have : header.id ∈ headers.map (·.id) := List.mem_map_of_mem hmem
  rw [h.ids] at this
  obtain ⟨i, hi, hid⟩ := List.mem_map.mp this
  rw [List.mem_range] at hi
  rw [← hid, UInt32.toNat_ofNat', Nat.mod_eq_of_lt (by omega)]
  exact hi

end Numbered

/-! ### Two managers -/

def Side.other : Side → Side
  | .a => .b
  | .b => .a

/-- Change a function at one side. -/
def Side.set {α : Type} (f : Side → α) (side : Side) (x : α) : Side → α :=
  fun s => if s = side then x else f s

@[simp] theorem Side.set_self {α : Type} (f : Side → α) (side : Side) (x : α) :
    Side.set f side x side = x := if_pos rfl

theorem Side.other_other (side : Side) : side.other.other = side := by
  cases side <;> rfl

theorem Side.other_ne (side : Side) : side.other ≠ side := by
  cases side <;> decide

theorem Side.eq_other_of_ne {side t : Side} (h : t ≠ side) : t = side.other := by
  cases side <;> cases t <;> first | rfl | exact absurd rfl h

theorem Side.forall_of (side : Side) {P : Side → Prop} (hself : P side) (hother : P side.other)
    (t : Side) : P t := by
  by_cases ht : t = side
  · exact ht ▸ hself
  · exact Side.eq_other_of_ne ht ▸ hother

theorem Side.set_other {α : Type} (f : Side → α) (side : Side) (x : α) :
    Side.set f side x side.other = f side.other := if_neg (Side.other_ne side)

/-- What holds at every side, and of the new value at the side that is changed,
holds at every side afterwards. -/
theorem Side.forall_set {α : Type} {f : Side → α} {side : Side} {x : α} (P : Side → α → Prop)
    (h : ∀ t, P t (f t)) (hx : P side x) (t : Side) : P t (Side.set f side x t) := by
  by_cases ht : t = side
  · subst ht
    rw [Side.set_self]
    exact hx
  · rw [Side.set, if_neg ht]
    exact h t

/-- A manager and what it has done so far: the headers it has written, the ids
it has accepted and the statuses it has returned. -/
structure ExchangeNode where
  manager : PacketDeliveryManager
  written : List PacketHeader := []
  accepted : List PacketId := []
  statuses : DeliveryStatuses := []

/-- A call of one of the two managers. -/
inductive ExchangeCall
  | write (now : ℤ)
  | dropOldPackets (now : ℤ)
  | processRead (header : PacketHeader)

def ExchangeNode.next (n : ExchangeNode) : ExchangeCall → ExchangeNode
  | .write now =>
    let result := (n.manager.nextHeader now).val
    { n with manager := result.1, written := n.written ++ [result.2] }
  | .dropOldPackets now =>
    let result := n.manager.dropOldPackets now
    { n with manager := result.1, statuses := n.statuses ++ result.2 }
  | .processRead header =>
    let result := (n.manager.processRead header).val
    { n with
      manager := result.1
      accepted := n.manager.acceptedAfter n.accepted header
      statuses := n.statuses ++ result.2.2.1 }

/-- The runs of two managers that read only each other's headers. -/
def exchange (nextExpectedPacketId : Side → PacketId) (packetTimeout : Side → ℤ) :
    System (Side → ExchangeNode) (Side × ExchangeCall) where
  init s := s = fun side => { manager := {
    packetTimeout := packetTimeout side
    nextExpectedPacketId := nextExpectedPacketId side } }
  enabled s call := match call.2 with
    | .processRead header => header ∈ (s call.1.other).written
    | _ => True
  next s call := call.1.set s ((s call.1).next call.2)

/-- The invariant of the exchange. -/
structure ExchangeSound (s : Side → ExchangeNode) : Prop where
  link : ∀ side, AckLink (s side).manager (s side).written (s side).accepted
  numbered : ∀ side, Numbered (s side).manager (s side).written
  sent : ∀ side, ∀ p ∈ (s side).accepted, ∃ header ∈ (s side.other).written, header.id = p
  acked : ∀ side p, (p, .ack) ∈ (s side).statuses → p ∈ (s side.other).accepted

/-- Histories only grow. -/
theorem ExchangeNode.written_mono (n : ExchangeNode) (call : ExchangeCall) :
    n.written <+: (n.next call).written := by
  cases call with
  | write now => exact List.prefix_append _ _
  | dropOldPackets now => exact List.prefix_refl _
  | processRead header => exact List.prefix_refl _

theorem written_mono_set (s : Side → ExchangeNode) (side : Side) (call : ExchangeCall)
    (t : Side) : (s t).written <+: (side.set s ((s side).next call) t).written :=
  Side.forall_set (fun t (n : ExchangeNode) => (s t).written <+: n.written)
    (fun _ => List.prefix_refl _) ((s side).written_mono call) t

theorem ExchangeNode.accepted_mono (n : ExchangeNode) (call : ExchangeCall) :
    n.accepted <+: (n.next call).accepted := by
  cases call with
  | write now => exact List.prefix_refl _
  | dropOldPackets now => exact List.prefix_refl _
  | processRead header =>
    show n.accepted <+: n.manager.acceptedAfter n.accepted header
    rw [acceptedAfter]
    split
    · exact List.prefix_append _ _
    · exact List.prefix_refl _

namespace ExchangeSound

variable {s : Side → ExchangeNode} {side : Side} {call : ExchangeCall}

/-- A step keeps the invariant if the node that moves keeps its own part, what
it accepts was sent to it, and what it reports as acknowledged was accepted. -/
theorem step (h : ExchangeSound s)
    (hlink : AckLink ((s side).next call).manager ((s side).next call).written
      ((s side).next call).accepted)
    (hnumbered : Numbered ((s side).next call).manager ((s side).next call).written)
    (hsent : ∀ p ∈ ((s side).next call).accepted,
      ∃ header ∈ (s side.other).written, header.id = p)
    (hacked : ∀ p, (p, .ack) ∈ ((s side).next call).statuses → p ∈ (s side.other).accepted) :
    ExchangeSound (side.set s ((s side).next call)) := by
  have haccepted := Side.forall_set (fun t (n : ExchangeNode) => (s t).accepted <+: n.accepted)
    (fun t => List.prefix_refl _) ((s side).accepted_mono call)
  constructor
  · exact Side.forall_set (fun _ (n : ExchangeNode) => AckLink n.manager n.written n.accepted)
      h.link hlink
  · exact Side.forall_set (fun _ (n : ExchangeNode) => Numbered n.manager n.written)
      h.numbered hnumbered
  · intro t p hp
    obtain ⟨header, hmem, hid⟩ := Side.forall_set
      (fun t (n : ExchangeNode) => ∀ p ∈ n.accepted,
        ∃ header ∈ (s t.other).written, header.id = p) h.sent hsent t p hp
    exact ⟨header, (written_mono_set s side call t.other).subset hmem, hid⟩
  -- a reported id was accepted before the step, and nothing is taken back
  · intro t p hp
    exact (haccepted t.other).subset (Side.forall_set
      (fun t (n : ExchangeNode) => ∀ p, (p, .ack) ∈ n.statuses → p ∈ (s t.other).accepted)
      h.acked hacked t p hp)

theorem write (h : ExchangeSound s) (side : Side) (now : ℤ) :
    ExchangeSound (side.set s ((s side).next (.write now))) :=
  h.step ((h.link side).nextHeader now) ((h.numbered side).nextHeader now) (h.sent side)
    (h.acked side)

theorem dropOldPackets (h : ExchangeSound s) (side : Side) (now : ℤ) :
    ExchangeSound (side.set s ((s side).next (.dropOldPackets now))) := by
  refine h.step ((h.link side).dropOldPackets now) ((h.numbered side).congr rfl) (h.sent side)
    fun p hp => ?_
  rcases List.mem_append.mp hp with hp | hp
  · exact h.acked side p hp
  · -- a timeout reports drops only
    exact absurd (dropOldPackets_drop hp) (by simp)

theorem processRead (h : ExchangeSound s) {header : PacketHeader}
    (hmem : header ∈ (s side.other).written) (hcount : (s side.other).written.length < 2 ^ 32) :
    ExchangeSound (side.set s ((s side).next (.processRead header))) := by
  have hid : header.id.toNat + 1 < 2 ^ 32 := by
    have := (h.numbered side.other).id_lt hcount hmem
    omega
  refine h.step ((h.link side).processRead hid)
    ((h.numbered side).congr (processRead_nextOutgoing _ header)) (fun p hp => ?_)
    (fun p hp => ?_)
  · have hp : p ∈ (s side).manager.acceptedAfter (s side).accepted header := hp
    rw [acceptedAfter] at hp
    split at hp
    · rcases List.mem_append.mp hp with hp | hp
      · exact h.sent side p hp
      · exact ⟨header, hmem, (List.mem_singleton.mp hp).symm⟩
    · exact h.sent side p hp
  · rcases List.mem_append.mp hp with hp | hp
    · exact h.acked side p hp
    · exact (h.link side.other).mem_of_ack hmem hp

end ExchangeSound

/-- **Ack soundness.** -/
theorem ack_sound {nextExpectedPacketId : Side → PacketId} {packetTimeout : Side → ℤ}
    {s : Side → ExchangeNode}
    (h : (exchange nextExpectedPacketId packetTimeout).Reachable System.anyAction s)
    (hcount : ∀ side, (s side).written.length < 2 ^ 32) :
    (∀ side p, (p, .ack) ∈ (s side).statuses → p ∈ (s side.other).accepted) ∧
    (∀ side, ∀ p ∈ (s side).accepted, ∃ header ∈ (s side.other).written, header.id = p) ∧
    (∀ side, (s side).accepted.Nodup) := by
  have hs : ExchangeSound s := by
    refine h.invariant_of_bound (fun s => ∀ side, (s side).written.length < 2 ^ 32)
      (fun s call hcount side => ?_) (fun s hs => ?_) (fun s call _ hs hen _ hcount => ?_) hcount
    · exact lt_of_le_of_lt (written_mono_set s call.1 call.2 side).length_le (hcount side)
    · cases hs
      exact ⟨fun _ => AckLink.start _ _, fun _ => ⟨rfl, rfl⟩, by simp, by simp⟩
    · obtain ⟨side, call⟩ := call
      cases call with
      | write now => exact hs.write side now
      | dropOldPackets now => exact hs.dropOldPackets side now
      | processRead header =>
        exact hs.processRead hen (lt_of_le_of_lt
          (written_mono_set s side _ side.other).length_le (hcount side.other))
  refine ⟨hs.acked, hs.sent, fun side => ?_⟩
  -- strictly increasing ids are distinct
  refine (hs.link side).sorted.imp fun hlt heq => ?_
  rw [heq] at hlt
  exact Nat.lt_irrefl _ hlt

/-- A packet travels from one side to the other, and its acknowledgement back. -/
theorem ack_sound_round_trip :
    let s := (exchange (fun _ => 0) (fun _ => 5000)).runFrom
      (fun _ => { manager := { packetTimeout := 5000, nextExpectedPacketId := 0 } })
      [(.a, .write 0), (.b, .processRead ⟨0, 0, 0⟩), (.b, .write 1), (.a, .processRead ⟨0, 0, 1⟩)]
    (s .a).statuses = [(0, .ack)] ∧ (s .b).accepted = [0] ∧
      ∀ p, (p, .ack) ∈ (s .a).statuses → p ∈ (s .b).accepted := by
  refine ⟨by decide +kernel, by decide +kernel, ?_⟩
  refine (@ack_sound (fun _ => 0) (fun _ => 5000) _
    (System.runFrom_reachable (.init rfl) ?_) ?_).1 .a
  · refine ⟨trivial, trivial, ?_, trivial, trivial, trivial, ?_, trivial, trivial⟩
    · show (⟨0, 0, 0⟩ : PacketHeader) ∈ _
      decide +kernel
    · show (⟨0, 0, 1⟩ : PacketHeader) ∈ _
      decide +kernel
  · intro side
    cases side <;> decide +kernel

end Neptun
