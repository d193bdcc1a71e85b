/-
Taking elements off the front of a queue.

A loop that pops a queue as long as its front satisfies a condition stops at the
first element that does not.  It takes exactly the elements that satisfy the
condition iff none of them stands behind one that does not, which is so in
particular if the queue is sorted and the condition is a bound.

* `takeWhile_eq_filter_iff` — exactly when the loop takes all of them;
* `InFront.dropWhile_eq` — it leaves the others;
* `InFront.of_sorted` — a bound on the keys of a sorted queue.
-/
import Mathlib.Tactic
import Mathlib.Data.List.TakeWhile

variable {α : Type} {p : α → Bool} {l : List α}

/-- Nothing that satisfies the condition stands behind something that does not. -/
def InFront (p : α → Bool) (l : List α) : Prop := l.Pairwise fun x y => p y = true → p x = true

theorem InFront.eq_nil_of_head {x : α} (h : InFront p (x :: l)) (hx : ¬ p x = true) :
    l.filter p = [] := by
  refine List.filter_eq_nil_iff.mpr fun y hy hpy => ?_
  exact hx ((List.pairwise_cons.mp h).1 y hy hpy)

/-- **Popping while the condition holds** takes all elements that satisfy it iff
these are in front. -/
theorem takeWhile_eq_filter_iff : l.takeWhile p = l.filter p ↔ InFront p l := by
  induction l with
  | nil => exact iff_of_true rfl List.Pairwise.nil
  | cons x l ih =>
    by_cases hx : p x = true
    · rw [List.takeWhile_cons_of_pos hx, List.filter_cons_of_pos hx, List.cons.injEq,
        and_iff_right rfl, ih, InFront, InFront, List.pairwise_cons]
      exact (and_iff_right fun y _ _ => hx).symm
    · rw [List.takeWhile_cons_of_neg hx, List.filter_cons_of_neg hx]
      constructor
      · -- nothing behind `x` satisfies the condition
        intro hnil
        have hnone : ∀ y ∈ l, ¬ p y = true := List.filter_eq_nil_iff.mp hnil.symm
        refine List.pairwise_cons.mpr ⟨fun y hy hpy => absurd hpy (hnone y hy), ?_⟩
        exact List.pairwise_of_forall_mem_list fun y _ z hz hpz => absurd hpz (hnone z hz)
      · intro h
        exact (h.eq_nil_of_head hx).symm

theorem InFront.takeWhile_eq (h : InFront p l) : l.takeWhile p = l.filter p :=
  takeWhile_eq_filter_iff.mpr h

/-- The loop leaves the elements that do not satisfy the condition. -/
theorem InFront.dropWhile_eq (h : InFront p l) : l.dropWhile p = l.filter fun x => !p x := by
  induction l with
  | nil => rfl
  | cons x l ih =>
    by_cases hx : p x = true
    · rw [List.dropWhile_cons_of_pos hx, List.filter_cons_of_neg (by simpa using hx)]
      exact ih (List.pairwise_cons.mp h).2
    · rw [List.dropWhile_cons_of_neg hx, List.filter_cons_of_pos (by simpa using hx)]
      congr 1
      refine (List.filter_eq_self.mpr fun y hy => ?_).symm
      have hnone := List.filter_eq_nil_iff.mp (h.eq_nil_of_head hx) y hy
      simpa using hnone

/-- A bound on the keys of a sorted queue. -/
theorem InFront.of_sorted {β : Type} [Preorder β] [DecidableLE β] {key : α → β} (bound : β)
    (h : l.Pairwise fun x y => key x ≤ key y) : InFront (fun x => decide (key x ≤ bound)) l := by
  refine h.imp fun hle hy => ?_
  rw [decide_eq_true_eq] at hy ⊢
  exact le_trans hle hy
