/-
Retransmission of a window of numbered items.

A sender is given items one after the other and sends them in packets.  The
first `base` items are acknowledged; the items behind them are in flight, each
tagged with the packet it went with last.  A packet carries the items of a
range.  The receiver accepts packets in increasing order only, and takes from a
packet the items that continue what it has taken.

`Window` ties the two sides together.  Its heart is `covered`: items at the front
of the window whose packets are all accepted have been taken.  This is what makes
it safe to give up items on an acknowledgement, although packets get lost, are
given up wrongly, and items travel in several packets.

* `Window.write` — items are put into flight with a new packet;
* `Window.drop` — all items in flight are taken back;
* `Window.ack` — an accepted packet is acknowledged;
* `Window.accept` — the receiver accepts a packet.
-/
import Mathlib.Tactic
import Mathlib.Data.List.TakeWhile

variable {α : Type}

/-- What the receiver has taken after a packet with the items from `range.1` up to
`range.2`. -/
def takenAfter (range : ℕ × ℕ) (taken : ℕ) : ℕ :=
  if range.1 ≤ taken then max taken range.2 else taken

theorem le_takenAfter (range : ℕ × ℕ) (taken : ℕ) : taken ≤ takenAfter range taken := by
  rw [takenAfter]
  split
  · exact Nat.le_max_left _ _
  · exact Nat.le_refl _

/-- A sender that was given `total` items, has `base` of them acknowledged and the
following ones in flight with the packets `tags`, and a receiver that has
accepted the packets `accepted` and taken the first `taken` items. -/
structure Window (key : α → ℕ) (range : α → ℕ × ℕ) (total base : ℕ) (tags : List α)
    (accepted : List α) (taken : ℕ) : Prop where
  sorted : tags.Pairwise fun x y => key x ≤ key y
  inRange : ∀ j x, tags[j]? = some x → (range x).1 ≤ base + j ∧ base + j < (range x).2
  range_le : ∀ x, (range x).2 ≤ total
  covered : ∀ m ≤ tags.length, (∀ x ∈ tags.take m, x ∈ accepted) → base + m ≤ taken
  taken_le : taken ≤ total

namespace Window

variable {key : α → ℕ} {range : α → ℕ × ℕ} {total base taken : ℕ} {tags accepted : List α}

/-- Nothing is acknowledged that was not taken. -/
theorem base_le (h : Window key range total base tags accepted taken) : base ≤ taken :=
  h.covered 0 (Nat.zero_le _) (by simp)

/-- More items may be given to the sender. -/
theorem grow (h : Window key range total base tags accepted taken) {total' : ℕ}
    (htotal : total ≤ total') : Window key range total' base tags accepted taken :=
  ⟨h.sorted, h.inRange, fun x => le_trans (h.range_le x) htotal, h.covered,
    le_trans h.taken_le htotal⟩

theorem drop (h : Window key range total base tags accepted taken) :
    Window key range total base [] accepted taken where
  sorted := List.Pairwise.nil
  inRange := by simp
  range_le := h.range_le
  covered := by
    intro m hm _
    rw [List.length_nil, Nat.le_zero] at hm
    rw [hm]
    exact h.base_le
  taken_le := h.taken_le

/-- An acknowledgement takes off the items in front that are tagged with the
packet. -/
theorem ack [DecidableEq α] (h : Window key range total base tags accepted taken) {x : α}
    (hx : x ∈ accepted) :
    Window key range total (base + (tags.takeWhile fun y => y = x).length)
      (tags.dropWhile fun y => y = x) accepted taken := by
  set front := tags.takeWhile (fun y => y = x) with hfront
  set rest := tags.dropWhile (fun y => y = x) with hrest
  have htags : front ++ rest = tags := List.takeWhile_append_dropWhile
  have hmem : ∀ y ∈ front, y ∈ accepted := by
    intro y hy
    have : y = x := by simpa using List.mem_takeWhile_imp hy
    rwa [this]
  constructor
  · exact h.sorted.sublist (List.dropWhile_sublist _)
  · intro j y hy
    rw [Nat.add_assoc]
    refine h.inRange (front.length + j) y ?_
    rw [← htags, List.getElem?_append_right (Nat.le_add_right _ _), Nat.add_sub_cancel_left]
    exact hy
  · exact h.range_le
  · intro m hm hall
    -- a prefix of the rest is a prefix of all tags, behind the ones that were taken off
    have htake : tags.take (front.length + m) = front ++ rest.take m := by
      rw [← htags, List.take_length_add_append]
    rw [Nat.add_assoc]
    refine h.covered (front.length + m) ?_ ?_
    · rw [← htags, List.length_append]
      exact Nat.add_le_add_left hm _
    · intro y hy
      rw [htake] at hy
      rcases List.mem_append.mp hy with hy | hy
      · exact hmem y hy
      · exact hall y hy
  · exact h.taken_le

/-- Items are put into flight with a packet that the receiver cannot know yet. -/
theorem write (h : Window key range total base tags accepted taken) {x : α} {count : ℕ}
    {range' : α → ℕ × ℕ} (hfresh : ∀ y ∈ tags, key y < key x) (hnew : x ∉ accepted)
    (hold : ∀ y ∈ tags, range' y = range y)
    (hrange : range' x = (base + tags.length, base + tags.length + count))
    (hrange_le : ∀ y, (range' y).2 ≤ total) :
    Window key range' total base (tags ++ List.replicate count x) accepted taken := by
  constructor
  · refine List.pairwise_append.mpr ⟨h.sorted, ?_, fun y hy z hz => ?_⟩
    · exact List.pairwise_replicate.mpr (Or.inr (Nat.le_refl _))
    · rw [List.eq_of_mem_replicate hz]
      exact Nat.le_of_lt (hfresh y hy)
  · intro j y hy
    -- an old item, or one of the new packet
    by_cases hj : j < tags.length
    · rw [List.getElem?_append_left hj] at hy
      rw [hold y (List.mem_of_getElem? hy)]
      exact h.inRange j y hy
    · rw [List.getElem?_append_right (by omega), List.getElem?_replicate] at hy
      split at hy
      · next hlt =>
        rw [← Option.some_inj.mp hy, hrange]
        dsimp only
        omega
      · simp at hy
  · exact hrange_le
  · intro m hm hall
    by_cases hle : m ≤ tags.length
    · rw [List.take_append_of_le_length hle] at hall
      exact h.covered m hle hall
    · -- the prefix contains the new packet, which is not accepted
      have hlength : m - tags.length ≤ count := by
        rw [List.length_append, List.length_replicate] at hm
        omega
      refine absurd (hall x ?_) hnew
      rw [List.take_append, List.take_replicate, Nat.min_eq_left hlength]
      exact List.mem_append_right _ (List.mem_replicate.mpr ⟨by omega, rfl⟩)
  · exact h.taken_le

/-- The receiver accepts a packet above all that it has accepted. -/
theorem accept [DecidableEq α] (h : Window key range total base tags accepted taken) {x : α}
    (hnew : ∀ y ∈ accepted, key y < key x) :
    Window key range total base tags (accepted ++ [x]) (takenAfter (range x) taken) := by
  refine ⟨h.sorted, h.inRange, h.range_le, fun m hm hall => ?_, ?_⟩
  · by_cases hx : x ∈ tags.take m
    · -- the items in front of the first one tagged with `x` have been taken
      obtain ⟨front, rest, hsplit, hfront⟩ := List.eq_append_cons_of_mem hx
      have hm' : m = front.length + (rest.length + 1) := by
        have := congrArg List.length hsplit
        rwa [List.length_take_of_le hm, List.length_append, List.length_cons] at this
      have htake : tags.take front.length = front := by
        have := congrArg (List.take front.length) hsplit
        rwa [List.take_take, Nat.min_eq_left (by omega), List.take_left] at this
      have hbase : base + front.length ≤ taken := by
        refine h.covered front.length (by omega) fun y hy => ?_
        rw [htake] at hy
        have hne : y ≠ x := fun heq => hfront (heq ▸ hy)
        have hacc := hall y (by rw [hsplit]; exact List.mem_append_left _ hy)
        rcases List.mem_append.mp hacc with hacc | hacc
        · exact hacc
        · exact absurd (List.mem_singleton.mp hacc) hne
      -- from there on every item of the prefix is tagged with `x`
      have hsorted := h.sorted.sublist (List.take_sublist m tags)
      rw [hsplit] at hsorted
      have hrest : ∀ y ∈ x :: rest, y = x := by
        intro y hy
        rcases List.mem_cons.mp hy with rfl | hy'
        · rfl
        have hle := (List.pairwise_cons.mp (List.pairwise_append.mp hsorted).2.1).1 y hy'
        have hacc := hall y (by rw [hsplit]; exact List.mem_append_right _ hy)
        rcases List.mem_append.mp hacc with hacc | hacc
        · have := hnew y hacc
          omega
        · exact List.mem_singleton.mp hacc
      have hget : ∀ i, i < rest.length + 1 → tags[front.length + i]? = some x := by
        intro i hi
        have hi' : (tags.take m)[front.length + i]? = (x :: rest)[i]? := by
          rw [hsplit, List.getElem?_append_right (Nat.le_add_right _ _), Nat.add_sub_cancel_left]
        rw [List.getElem?_take_of_lt (by omega)] at hi'
        obtain ⟨y, hy⟩ : ∃ y, (x :: rest)[i]? = some y :=
          ⟨_, List.getElem?_eq_getElem (by simpa using hi)⟩
        rw [hi', hy, hrest y (List.mem_of_getElem? hy)]
      have hfirst := (h.inRange _ x (hget 0 (Nat.succ_pos _))).1
      have hlast := (h.inRange _ x (hget rest.length (Nat.lt_succ_self _))).2
      rw [takenAfter, if_pos (by omega)]
      refine le_trans ?_ (Nat.le_max_right _ _)
      omega
    · refine le_trans (h.covered m hm fun y hy => ?_) (le_takenAfter _ _)
      rcases List.mem_append.mp (hall y hy) with hy' | hy'
      · exact hy'
      · rw [List.mem_singleton] at hy'
        rw [hy'] at hy
        exact absurd hy hx
  · rw [takenAfter]
    split
    · exact Nat.max_le.mpr ⟨h.taken_le, h.range_le x⟩
    · exact h.taken_le

end Window
