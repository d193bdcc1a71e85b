/-
Sorted tags drawn from a sorted list of ids.

A sender numbers its packets with increasing ids and remembers, for every item
it has sent, the id of the packet the item went with.  The ids still open are a
strictly sorted list `ids`; the tags of the items are a list that is sorted and
has all its members in `ids`.  Ordering is by a key in `ℕ`.

* `Tagged.resolve` — when the smallest open id is resolved and its items are
  taken off the front, the remaining tags are open ids again;
* `Tagged.head_le` — the smallest open id bounds the first tag from below;
* `Tagged.extend` — a new largest id may be opened and used as a tag.
-/
import Mathlib.Tactic

variable {α : Type} {key : α → ℕ}

/-- Strictly sorted by key. -/
def SortedIds (key : α → ℕ) (ids : List α) : Prop :=
  ids.Pairwise fun x y => key x < key y

/-- Sorted by key, with every member among `ids`. -/
structure Tagged (key : α → ℕ) (ids tags : List α) : Prop where
  sorted : tags.Pairwise fun x y => key x ≤ key y
  mem : ∀ x ∈ tags, x ∈ ids

theorem SortedIds.append_new {ids : List α} {x : α} (h : SortedIds key ids)
    (hx : ∀ y ∈ ids, key y < key x) : SortedIds key (ids ++ [x]) := by
  refine List.pairwise_append.mpr ⟨h, List.pairwise_singleton _ _, fun y hy z hz => ?_⟩
  rw [List.mem_singleton] at hz
  rw [hz]
  exact hx y hy

/-- Below a bound there is room for so many ids. -/
theorem SortedIds.length_le {ids : List α} (h : SortedIds key ids) {n : ℕ}
    (hlt : ∀ x ∈ ids, key x < n) : ids.length ≤ n := by
  have hnodup : (ids.map key).Nodup := List.pairwise_map.mpr (h.imp Nat.ne_of_lt)
  have hsub : ids.map key ⊆ List.range n := by
    intro k hk
    obtain ⟨x, hx, rfl⟩ := List.mem_map.mp hk
    exact List.mem_range.mpr (hlt x hx)
  have hlength := (List.subperm_of_subset hnodup hsub).length_le
  rwa [List.length_map, List.length_range] at hlength

namespace Tagged

variable {ids tags : List α} {x : α}

theorem nil : Tagged key ids [] := ⟨List.Pairwise.nil, by simp⟩

/-- Every tag is at least the smallest open id. -/
theorem le_of_mem (hids : SortedIds key (x :: ids)) (h : Tagged key (x :: ids) tags) {y : α}
    (hy : y ∈ tags) : key x ≤ key y := by
  rcases List.mem_cons.mp (h.mem y hy) with rfl | hmem
  · exact Nat.le_refl _
  · exact Nat.le_of_lt ((List.pairwise_cons.mp hids).1 y hmem)

theorem head_le (hids : SortedIds key (x :: ids)) (h : Tagged key (x :: ids) tags) {y : α}
    (hy : y ∈ tags.head?) : key x ≤ key y :=
  h.le_of_mem hids (List.mem_of_mem_head? hy)

theorem of_sublist {tags' : List α} (h : Tagged key ids tags) (hsub : tags'.Sublist tags) :
    Tagged key ids tags' :=
  ⟨h.sorted.sublist hsub, fun y hy => h.mem y (hsub.subset hy)⟩

/-- Tags that avoid the smallest open id are still open when it is resolved. -/
theorem of_cons (h : Tagged key (x :: ids) tags) (hx : x ∉ tags) : Tagged key ids tags := by
  refine ⟨h.sorted, fun y hy => ?_⟩
  rcases List.mem_cons.mp (h.mem y hy) with rfl | hmem
  · exact absurd hy hx
  · exact hmem

/-- If the first tag is not the smallest open id, no tag is. -/
theorem notMem_of_head [DecidableEq α] (hids : SortedIds key (x :: ids))
    (h : Tagged key (x :: ids) tags) (hhead : tags.head? ≠ some x) : x ∉ tags := by
  cases tags with
  | nil => simp
  | cons y tags =>
    have hne : y ≠ x := by simpa using hhead
    have hy : y ∈ ids := (List.mem_cons.mp (h.mem y List.mem_cons_self)).resolve_left hne
    have hlt : key x < key y := (List.pairwise_cons.mp hids).1 y hy
    intro hmem
    rcases List.mem_cons.mp hmem with heq | hmem
    · exact hne heq.symm
    · have := (List.pairwise_cons.mp h.sorted).1 x hmem
      omega

/-- Behind the tags equal to the smallest open id come only larger ones. -/
theorem lt_of_mem_dropWhile [DecidableEq α] (hids : SortedIds key (x :: ids))
    (h : Tagged key (x :: ids) tags) :
    ∀ y ∈ tags.dropWhile (fun y => y = x), key x < key y := by
  induction tags with
  | nil => simp
  | cons y tags ih =>
    by_cases hy : y = x
    · rw [List.dropWhile_cons_of_pos (by simpa using hy)]
      exact ih (h.of_sublist (List.sublist_cons_self _ _))
    · rw [List.dropWhile_cons_of_neg (by simpa using hy)]
      have hxy : key x < key y := (List.pairwise_cons.mp hids).1 y
        ((List.mem_cons.mp (h.mem y List.mem_cons_self)).resolve_left hy)
      intro z hz
      rcases List.mem_cons.mp hz with rfl | hz
      · exact hxy
      · exact Nat.lt_of_lt_of_le hxy ((List.pairwise_cons.mp h.sorted).1 z hz)

/-- **Resolving the smallest open id**: its items are at the front. -/
theorem resolve [DecidableEq α] (hids : SortedIds key (x :: ids))
    (h : Tagged key (x :: ids) tags) :
    Tagged key ids (tags.dropWhile fun y => y = x) := by
  refine (h.of_sublist (List.dropWhile_sublist _)).of_cons fun hx => ?_
  exact Nat.lt_irrefl _ (h.lt_of_mem_dropWhile hids x hx)

/-- Open a new largest id, and tag new items with it. -/
theorem extend (h : Tagged key ids tags) (hx : ∀ y ∈ ids, key y < key x) {new : List α}
    (hnew : ∀ y ∈ new, y = x) : Tagged key (ids ++ [x]) (tags ++ new) := by
  constructor
  · refine List.pairwise_append.mpr ⟨h.sorted, ?_, fun y hy z hz => ?_⟩
    · refine List.pairwise_of_forall_mem_list fun y hy z hz => ?_
      exact Nat.le_of_eq (by rw [hnew y hy, hnew z hz])
    · rw [hnew z hz]
      exact Nat.le_of_lt (hx y (h.mem y hy))
  · intro y hy
    rcases List.mem_append.mp hy with hy | hy
    · exact List.mem_append_left _ (h.mem y hy)
    · rw [hnew y hy]
      exact List.mem_append_right _ List.mem_cons_self

end Tagged
