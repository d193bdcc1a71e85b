/-
What a system can still do.

A state leads to another one if some run does, by actions that all satisfy a side
condition.  What a system can do in rounds, each of which makes a measure smaller, it can
bring to its end.

* `Leads.descend` — the rule for rounds.
-/
import Neptun.Library.System

namespace System

variable {σ α : Type} {S : System σ α} {ok ok' : σ → α → Prop} {s t u : σ}

/-- Some run leads from a state to another one. -/
def Leads (S : System σ α) (ok : σ → α → Prop) (s t : σ) : Prop :=
  ∃ as, S.RunOk ok s as ∧ S.runFrom s as = t

theorem runOk_append {as bs : List α} (ha : S.RunOk ok s as)
    (hb : S.RunOk ok (S.runFrom s as) bs) : S.RunOk ok s (as ++ bs) := by
  induction as generalizing s with
  | nil => exact hb
  | cons a as ih =>
    obtain ⟨hen, hok, hrest⟩ := ha
    exact ⟨hen, hok, ih hrest hb⟩

theorem RunOk.mono (hok : ∀ s a, ok s a → ok' s a) {as : List α} (h : S.RunOk ok s as) :
    S.RunOk ok' s as := by
  induction as generalizing s with
  | nil => trivial
  | cons a as ih =>
    obtain ⟨hen, ha, hrest⟩ := h
    exact ⟨hen, hok _ _ ha, ih hrest⟩

namespace Leads

theorem refl (s : σ) : S.Leads ok s s := ⟨[], trivial, rfl⟩

theorem step {a : α} (hen : S.enabled s a) (hok : ok s a) : S.Leads ok s (S.next s a) :=
  ⟨[a], ⟨hen, hok, trivial⟩, rfl⟩

theorem trans (hst : S.Leads ok s t) (htu : S.Leads ok t u) : S.Leads ok s u := by
  obtain ⟨as, has, rfl⟩ := hst
  obtain ⟨bs, hbs, rfl⟩ := htu
  exact ⟨as ++ bs, runOk_append has hbs, List.foldl_append⟩

theorem reachable (hst : S.Leads ok s t) (hs : S.Reachable anyAction s) :
    S.Reachable anyAction t := by
  obtain ⟨as, has, rfl⟩ := hst
  exact runFrom_reachable hs (has.mono fun _ _ _ => trivial)

/-- **The rule for rounds.**  As long as the measure is not zero, some run makes it smaller
and keeps `P`. -/
theorem descend {P : σ → Prop} (measure : σ → ℕ)
    (hround : ∀ s, P s → measure s ≠ 0 → ∃ t, S.Leads ok s t ∧ P t ∧ measure t < measure s)
    (hs : P s) : ∃ t, S.Leads ok s t ∧ P t ∧ measure t = 0 := by
  generalize hm : measure s = m
  induction m using Nat.strong_induction_on generalizing s with
  | _ m ih =>
    by_cases hzero : measure s = 0
    · exact ⟨s, refl s, hs, hzero⟩
    · obtain ⟨t, hst, ht, hlt⟩ := hround s hs hzero
      obtain ⟨u, htu, hu, hend⟩ := ih (measure t) (hm ▸ hlt) ht rfl
      exact ⟨u, hst.trans htu, hu, hend⟩

end Leads

end System
