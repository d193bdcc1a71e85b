/-
Computations that record the checks they violate.

`Checked ε α` is a value of type `α` together with the list of violated checks
of type `ε`, in the order in which they were made.  Unlike an error monad it
never stops: a violated check is written down and the computation goes on, so
that one definition answers both questions about a program with undefined or
asserted behaviour:

* what it computes (`val`), and
* which of its run-time obligations it broke on the way (`faults`).

The rules are the two projections of `pure`, `bind` and `check`; all of them
are simp lemmas, so that a proof about `val` never sees the checks and a proof
about `faults` sees only them.
-/
import Mathlib.Tactic

/-- A value and the checks that were violated while computing it. -/
@[ext]
structure Checked (ε α : Type) where
  val : α
  faults : List ε

namespace Checked

variable {ε α β : Type}

instance : Monad (Checked ε) where
  pure a := ⟨a, []⟩
  bind x f := ⟨(f x.val).val, x.faults ++ (f x.val).faults⟩

/-- Record `e` unless the condition holds. -/
def check (ok : Prop) [Decidable ok] (e : ε) : Checked ε Unit :=
  ⟨(), if ok then [] else [e]⟩

@[simp] theorem val_pure (a : α) : (pure a : Checked ε α).val = a := (rfl)

@[simp] theorem faults_pure (a : α) : (pure a : Checked ε α).faults = [] := (rfl)

@[simp] theorem val_bind (x : Checked ε α) (f : α → Checked ε β) :
    (x >>= f).val = (f x.val).val := (rfl)

@[simp] theorem faults_bind (x : Checked ε α) (f : α → Checked ε β) :
    (x >>= f).faults = x.faults ++ (f x.val).faults := (rfl)

theorem faults_check (ok : Prop) [Decidable ok] (e : ε) :
    (check ok e).faults = if ok then [] else [e] := (rfl)

@[simp] theorem mem_faults_check {ok : Prop} [Decidable ok] {e e' : ε} :
    e' ∈ (check ok e).faults ↔ ¬ ok ∧ e' = e := by
  rw [faults_check]
  by_cases h : ok <;> simp [h]

@[simp] theorem val_ite (c : Prop) [Decidable c] (x y : Checked ε α) :
    (if c then x else y).val = if c then x.val else y.val := apply_ite val c x y

@[simp] theorem faults_ite (c : Prop) [Decidable c] (x y : Checked ε α) :
    (if c then x else y).faults = if c then x.faults else y.faults :=
  apply_ite faults c x y

/-- The same computation with other names for its checks. -/
def mapFaults {ε' : Type} (f : ε → ε') (x : Checked ε α) : Checked ε' α :=
  ⟨x.val, x.faults.map f⟩

@[simp] theorem mapFaults_pure {ε' : Type} (f : ε → ε') (a : α) :
    (pure a : Checked ε α).mapFaults f = pure a := (rfl)

/-- A computation none of whose violated checks is of the kind `bad`. -/
def Avoids (x : Checked ε α) (bad : ε → Prop) : Prop := ∀ e ∈ x.faults, ¬ bad e

variable {bad : ε → Prop}

theorem Avoids.mono {x : Checked ε α} {bad' : ε → Prop} (h : x.Avoids bad)
    (hbad : ∀ e, bad' e → bad e) : x.Avoids bad' :=
  fun e he hbad' => h e he (hbad e hbad')

/-- A kind of fault and all the others are all of them. -/
theorem Avoids.faults_eq_nil {x : Checked ε α} (h : x.Avoids bad)
    (hothers : x.Avoids fun e => ¬ bad e) : x.faults = [] :=
  List.eq_nil_iff_forall_not_mem.mpr fun e he => hothers e he (h e he)

/-- A computation that violates no check at all is its value. -/
theorem eq_pure {x : Checked ε α} {a : α} (hval : x.val = a) (h : x.Avoids fun _ => True) :
    x = pure a := by
  ext1
  · exact hval
  · exact List.eq_nil_iff_forall_not_mem.mpr fun e he => h e he trivial

theorem avoids_of_eq_pure {x : Checked ε α} {a : α} (h : x = pure a) : x.Avoids bad := by
  rw [h]
  exact fun e he => absurd he List.not_mem_nil

theorem pure_bind (a : α) (f : α → Checked ε β) : (pure a >>= f) = f a := rfl

/-- A composed computation violates no check iff neither of its parts does. -/
theorem bind_eq_pure_iff {x : Checked ε α} {f : α → Checked ε β} {b : β} :
    (x >>= f) = pure b ↔ x = pure x.val ∧ f x.val = pure b := by
  rw [Checked.ext_iff, Checked.ext_iff, Checked.ext_iff]
  simp only [val_bind, faults_bind, val_pure, faults_pure, List.append_eq_nil_iff, true_and]
  exact and_left_comm

theorem check_eq_pure_iff {ok : Prop} [Decidable ok] {e : ε} {u : Unit} :
    check ok e = pure u ↔ ok := by
  rw [Checked.ext_iff, faults_check, faults_pure]
  by_cases h : ok <;> simp [h]

theorem check_of {ok : Prop} [Decidable ok] {e : ε} (h : ok) : check ok e = pure () :=
  check_eq_pure_iff.mpr h

theorem pure_inj {a b : α} (h : (pure a : Checked ε α) = pure b) : a = b :=
  congrArg val h

theorem avoids_pure (a : α) : (pure a : Checked ε α).Avoids bad := by
  intro e he
  simp at he

/-- A composed computation avoids a kind of fault iff both of its parts do. -/
theorem avoids_bind {x : Checked ε α} {f : α → Checked ε β} :
    (x >>= f).Avoids bad ↔ x.Avoids bad ∧ (f x.val).Avoids bad := by
  simp only [Avoids, faults_bind, List.mem_append]
  constructor
  · intro h
    exact ⟨fun e he => h e (Or.inl he), fun e he => h e (Or.inr he)⟩
  · rintro ⟨hx, hf⟩ e (he | he)
    · exact hx e he
    · exact hf e he

theorem avoids_check {ok : Prop} [Decidable ok] {e : ε} :
    (check ok e).Avoids bad ↔ (bad e → ok) := by
  simp only [Avoids, mem_faults_check]
  constructor
  · intro h hb
    by_contra hok
    exact h e ⟨hok, rfl⟩ hb
  · rintro h e' ⟨hok, rfl⟩ hb
    exact hok (h hb)

theorem avoids_ite {c : Prop} [Decidable c] {x y : Checked ε α} :
    (if c then x else y).Avoids bad ↔ (c → x.Avoids bad) ∧ (¬ c → y.Avoids bad) := by
  by_cases h : c <;> simp [h]

end Checked
