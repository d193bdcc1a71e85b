/-
Items one behind the other at the beginning of a list of symbols.

Each item `x` has a code `encode x`, and only some items are valid.  A reader
that takes up to `n` items stops at the first place where no valid item begins.
If different valid items never begin the same list (`UniquelyRead`), what it takes
is determined by the symbols: it is the longest list of items that they begin with.

* `LongestItems.zero`, `LongestItems.stuck`, `LongestItems.cons` — the three turns
  of a reader;
* `LongestItems.unique` — there is only one such list;
* `LongestItems.length_eq_iff` — it has `n` items iff the symbols begin with `n` items.
-/
import Mathlib.Tactic

variable {α β : Type} {encode : α → List β} {ok : α → Prop}

/-- No list begins with two different valid items. -/
def UniquelyRead (encode : α → List β) (ok : α → Prop) : Prop :=
  ∀ ⦃x y : α⦄, ok x → ok y → ∀ ⦃s t : List β⦄, encode x ++ s = encode y ++ t → x = y

/-- The longest list of at most `n` valid items that `bs` begins with. -/
structure LongestItems (encode : α → List β) (ok : α → Prop) (n : ℕ) (bs : List β)
    (xs : List α) : Prop where
  valid : ∀ x ∈ xs, ok x
  isPrefix : xs.flatMap encode <+: bs
  length_le : xs.length ≤ n
  longest : ∀ ys : List α, (∀ y ∈ ys, ok y) → ys.flatMap encode <+: bs → ys.length ≤ n →
    ys <+: xs

namespace LongestItems

variable {n : ℕ} {bs : List β} {xs ys : List α}

theorem zero (bs : List β) : LongestItems encode ok 0 bs [] where
  valid := by simp
  isPrefix := List.nil_prefix
  length_le := Nat.le_refl 0
  longest ys _ _ hlength := by
    rw [List.length_eq_zero_iff.mp (Nat.le_zero.mp hlength)]

/-- No valid item begins here. -/
theorem stuck (n : ℕ) (h : ∀ x, ok x → ¬ encode x <+: bs) :
    LongestItems encode ok n bs [] where
  valid := by simp
  isPrefix := List.nil_prefix
  length_le := Nat.zero_le n
  longest ys hvalid hprefix _ := by
    cases ys with
    | nil => exact List.prefix_refl []
    | cons y ys =>
      rw [List.flatMap_cons] at hprefix
      exact absurd ((List.prefix_append _ _).trans hprefix) (h y (hvalid y List.mem_cons_self))

/-- An item, and the items behind it. -/
theorem cons (hread : UniquelyRead encode ok) {x : α} (hx : ok x)
    (h : LongestItems encode ok n bs xs) :
    LongestItems encode ok (n + 1) (encode x ++ bs) (x :: xs) where
  valid := List.forall_mem_cons.mpr ⟨hx, h.valid⟩
  isPrefix := by
    rw [List.flatMap_cons]
    exact (List.prefix_append_right_inj _).mpr h.isPrefix
  length_le := Nat.succ_le_succ h.length_le
  longest ys hvalid hprefix hlength := by
    cases ys with
    | nil => exact List.nil_prefix
    | cons y ys =>
      obtain ⟨hy, hys⟩ := List.forall_mem_cons.mp hvalid
      rw [List.flatMap_cons] at hprefix
      obtain ⟨rest, hrest⟩ := hprefix
      rw [List.append_assoc] at hrest
      -- the symbols begin with `x` and with `y`
      obtain rfl := hread hy hx hrest
      rw [List.append_cancel_left_eq] at hrest
      exact (List.prefix_cons_inj _).mpr
        (h.longest ys hys ⟨rest, hrest⟩ (Nat.le_of_succ_le_succ hlength))

theorem unique (h : LongestItems encode ok n bs xs) (h' : LongestItems encode ok n bs ys) :
    xs = ys := by
  have hle := h'.longest xs h.valid h.isPrefix h.length_le
  have hge := h.longest ys h'.valid h'.isPrefix h'.length_le
  exact hle.eq_of_length (Nat.le_antisymm hle.length_le hge.length_le)

theorem length_eq_iff (h : LongestItems encode ok n bs xs) :
    xs.length = n ↔
      ∃ ys : List α, ys.length = n ∧ (∀ y ∈ ys, ok y) ∧ ys.flatMap encode <+: bs := by
  constructor
  · exact fun hlength => ⟨xs, hlength, h.valid, h.isPrefix⟩
  · rintro ⟨ys, hlength, hvalid, hprefix⟩
    have hle := (h.longest ys hvalid hprefix (Nat.le_of_eq hlength)).length_le
    exact Nat.le_antisymm h.length_le (hlength ▸ hle)

end LongestItems
