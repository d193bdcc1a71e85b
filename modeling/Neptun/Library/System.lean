/-
Transition systems and their runs.

A `System σ α` has initial states, actions that are enabled in some states and
not in others, and a next-state function.  `S.Reachable ok s` says that `s` is
reached from an initial state by enabled actions that all satisfy the side
condition `ok` in the state in which they are taken; the plain reachable states
are those of the trivial side condition.

* `System.Reachable.invariant` — a property that holds initially and is kept by
  every step allowed by `ok` holds in every state reached that way;
* `System.Reachable.invariant_of_bound` — the same, for runs that stay within a
  bound;
* `System.Reachable.mono` — weaker side conditions reach more states;
* `System.Reachable.simulate` — if every step is matched by a step of another system,
  or by none, what is reached is reached there as well;
* `System.runFrom_reachable` — a finite list of actions, each enabled where it
  is taken, is a run;
* `System.along_iff_runOk`, `System.along_iff_runOk_of_bound` — if `ok` is exactly
  what a step needs to keep a property, the property holds all along a run iff
  all its steps are `ok`;
* `System.along_iff_runOk_of_invariant` — the same, where it takes a stronger
  invariant to carry the property through the steps that are `ok`.
-/
import Mathlib.Tactic

/-- Initial states, enabled actions and the state an action leads to. -/
structure System (σ α : Type) where
  init : σ → Prop
  enabled : σ → α → Prop
  next : σ → α → σ

namespace System

variable {σ α : Type} {S : System σ α} {ok ok' : σ → α → Prop} {P : σ → Prop}

/-- The states reached by enabled actions that all satisfy `ok`. -/
inductive Reachable (S : System σ α) (ok : σ → α → Prop) : σ → Prop
  | init {s : σ} : S.init s → Reachable S ok s
  | step {s : σ} {a : α} :
      Reachable S ok s → S.enabled s a → ok s a → Reachable S ok (S.next s a)

/-- No side condition on the actions of a run. -/
def anyAction (_ : σ) (_ : α) : Prop := True

/-- **The invariant rule.**  What holds initially and is kept by every allowed
step holds in every reachable state.  The step may use that the state it starts
from is reachable itself. -/
theorem Reachable.invariant (hinit : ∀ s, S.init s → P s)
    (hstep : ∀ s a, S.Reachable ok s → P s → S.enabled s a → ok s a → P (S.next s a))
    {s : σ} (h : S.Reachable ok s) : P s := by
  induction h with
  | init hs => exact hinit _ hs
  | step hs hen hok ih => exact hstep _ _ hs ih hen hok

/-- **The invariant rule under a bound.**  If a bound on the whole run is given
at its end, and steps only use it up, it is there at every step. -/
theorem Reachable.invariant_of_bound (bound : σ → Prop)
    (hbound : ∀ s a, bound (S.next s a) → bound s) (hinit : ∀ s, S.init s → P s)
    (hstep : ∀ s a, S.Reachable ok s → P s → S.enabled s a → ok s a →
      bound (S.next s a) → P (S.next s a))
    {s : σ} (h : S.Reachable ok s) (hs : bound s) : P s := by
  induction h with
  | init h => exact hinit _ h
  | step h hen hok ih => exact hstep _ _ h (ih (hbound _ _ hs)) hen hok hs

/-- A run under a stronger side condition is a run under a weaker one. -/
theorem Reachable.mono (hok : ∀ s a, ok s a → ok' s a) {s : σ}
    (h : S.Reachable ok s) : S.Reachable ok' s := by
  induction h with
  | init hs => exact .init hs
  | step _ hen hs ih => exact .step ih hen (hok _ _ hs)

/-- **The simulation rule.**  `f` maps every step to one of `T`, or to none. -/
theorem Reachable.simulate {τ β : Type} {T : System τ β} (f : σ → τ)
    (hinit : ∀ s, S.init s → T.init (f s))
    (hstep : ∀ s a, S.Reachable ok s → S.enabled s a → ok s a →
      f (S.next s a) = f s ∨ ∃ b, T.enabled (f s) b ∧ f (S.next s a) = T.next (f s) b)
    {s : σ} (h : S.Reachable ok s) : T.Reachable anyAction (f s) := by
  refine h.invariant (P := fun s => T.Reachable anyAction (f s)) (fun s hs => .init (hinit s hs))
    fun s a hs ih hen hok => ?_
  rcases hstep s a hs hen hok with hstutter | ⟨b, hb, hnext⟩
  · rw [hstutter]
    exact ih
  · rw [hnext]
    exact .step ih hb trivial

/-- Run a list of actions. -/
def runFrom (S : System σ α) (s : σ) (as : List α) : σ := as.foldl S.next s

/-- Every action of the list is enabled, and allowed by `ok`, where it is
taken. -/
def RunOk (S : System σ α) (ok : σ → α → Prop) : σ → List α → Prop
  | _, [] => True
  | s, a :: as => S.enabled s a ∧ ok s a ∧ RunOk S ok (S.next s a) as

instance (s : σ) (a : α) : Decidable (anyAction s a) := isTrue trivial

instance RunOk.decidable [hen : ∀ s a, Decidable (S.enabled s a)]
    [hok : ∀ s a, Decidable (ok s a)] : ∀ s as, Decidable (S.RunOk ok s as)
  | _, [] => isTrue trivial
  | s, a :: as =>
    @instDecidableAnd _ _ (hen s a)
      (@instDecidableAnd _ _ (hok s a) (RunOk.decidable (S.next s a) as))

/-- Where every action is enabled, every list of actions is a run. -/
theorem runOk_anyAction (hen : ∀ s a, S.enabled s a) (s : σ) (as : List α) :
    S.RunOk anyAction s as := by
  induction as generalizing s with
  | nil => trivial
  | cons a as ih => exact ⟨hen s a, trivial, ih _⟩

theorem runFrom_reachable {s : σ} (hs : S.Reachable ok s) {as : List α}
    (h : S.RunOk ok s as) : S.Reachable ok (S.runFrom s as) := by
  induction as generalizing s with
  | nil => exact hs
  | cons a as ih =>
    obtain ⟨hen, hok, hrest⟩ := h
    exact ih (.step hs hen hok) hrest

/-- The property holds in every state of the run. -/
def Along (S : System σ α) (P : σ → Prop) : σ → List α → Prop
  | s, [] => P s
  | s, a :: as => P s ∧ Along S P (S.next s a) as

instance Along.decidable [hP : ∀ s, Decidable (P s)] : ∀ s as, Decidable (S.Along P s as)
  | s, [] => hP s
  | s, a :: as => @instDecidableAnd _ _ (hP s) (Along.decidable (S.next s a) as)

theorem Along.head {s : σ} {as : List α} (h : S.Along P s as) : P s := by
  cases as with
  | nil => exact h
  | cons a as => exact h.1

theorem bound_of_runFrom {bound : σ → Prop} (hbound : ∀ s a, bound (S.next s a) → bound s)
    {s : σ} {as : List α} (h : bound (S.runFrom s as)) : bound s := by
  induction as generalizing s with
  | nil => exact h
  | cons a as ih => exact hbound s a (ih h)

/-- **The exact condition of a run.**  Where `ok` says exactly when a step keeps
`P`, it says step by step when a whole run does.  `Inv` is an invariant that
holds whether or not the steps are `ok`, as long as the run stays within the
bound. -/
theorem along_iff_runOk_of_bound (Inv bound : σ → Prop)
    (hbound : ∀ s a, bound (S.next s a) → bound s)
    (hinv : ∀ s a, Inv s → S.enabled s a → bound (S.next s a) → Inv (S.next s a))
    (hiff : ∀ s a, Inv s → P s → S.enabled s a → bound (S.next s a) →
      (P (S.next s a) ↔ ok s a))
    {s : σ} (hs : Inv s) (hP : P s) {as : List α} (h : S.RunOk anyAction s as)
    (hend : bound (S.runFrom s as)) : S.Along P s as ↔ S.RunOk ok s as := by
  induction as generalizing s with
  | nil => exact ⟨fun _ => trivial, fun _ => hP⟩
  | cons a as ih =>
    obtain ⟨hen, -, hrest⟩ := h
    -- the bound at the end of the run holds after its first step
    have hnextBound : bound (S.next s a) := bound_of_runFrom hbound hend
    have hstep := hiff s a hs hP hen hnextBound
    have hnextInv := hinv s a hs hen hnextBound
    constructor
    · rintro ⟨-, halong⟩
      have hnext : P (S.next s a) := halong.head
      exact ⟨hen, hstep.mp hnext, (ih hnextInv hnext hrest hend).mp halong⟩
    · rintro ⟨-, hok, hrun⟩
      exact ⟨hP, (ih hnextInv (hstep.mpr hok) hrest hend).mpr hrun⟩

/-- The same without a bound. -/
theorem along_iff_runOk (Inv : σ → Prop)
    (hinv : ∀ s a, Inv s → S.enabled s a → Inv (S.next s a))
    (hiff : ∀ s a, Inv s → P s → S.enabled s a → (P (S.next s a) ↔ ok s a))
    {s : σ} (hs : Inv s) (hP : P s) {as : List α} (h : S.RunOk anyAction s as) :
    S.Along P s as ↔ S.RunOk ok s as :=
  along_iff_runOk_of_bound Inv (fun _ => True) (fun _ _ _ => trivial)
    (fun s a hs hen _ => hinv s a hs hen) (fun s a hs hP hen _ => hiff s a hs hP hen) hs hP h
    trivial

/-- A property that is kept together with an invariant `Inv` by the steps that
are `ok`, and that only such steps keep where `Inv` holds, holds all along a run
iff all its steps are `ok`. -/
theorem along_iff_runOk_of_invariant (Inv : σ → Prop) (hInv : ∀ s, Inv s → P s)
    (hkeep : ∀ s a, Inv s → S.enabled s a → ok s a → Inv (S.next s a))
    (hneeds : ∀ s a, Inv s → S.enabled s a → P (S.next s a) → ok s a)
    {s : σ} (hs : Inv s) {as : List α} (h : S.RunOk anyAction s as) :
    S.Along P s as ↔ S.RunOk ok s as := by
  induction as generalizing s with
  | nil => exact ⟨fun _ => trivial, fun _ => hInv s hs⟩
  | cons a as ih =>
    obtain ⟨hen, -, hrest⟩ := h
    constructor
    · rintro ⟨-, halong⟩
      have hnext : P (S.next s a) := halong.head
      have hok := hneeds s a hs hen hnext
      exact ⟨hen, hok, (ih (hkeep s a hs hen hok) hrest).mp halong⟩
    · rintro ⟨-, hok, hrun⟩
      exact ⟨hInv s hs, (ih (hkeep s a hs hen hok) hrest).mpr hrun⟩

end System
