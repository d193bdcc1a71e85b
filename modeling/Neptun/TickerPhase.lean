/-
The phase of a `Ticker`.

A ticker carries the time since the last tick over to the next one, so that it
does not drift, however irregularly it is called: it fires exactly when an
integral multiple of the interval since its creation has been passed.

* `Ticker.InPhase` — the carried time is the time since the creation, modulo the
  interval;
* `ticker_phase_law` — every call keeps this and fires at the multiples, and the
  number of times it has fired is bounded by the number of intervals.
-/
import Neptun.Ticker

namespace Neptun

namespace Ticker

/-- Call `tick` at each of the times; the results, in order. -/
def ticks (t : Ticker) : List ℤ → Ticker × List Bool
  | [] => (t, [])
  | now :: times =>
    let (t, fired) := (t.tick now).val
    let (t, results) := ticks t times
    (t, fired :: results)

theorem ticks_cons (t : Ticker) (now : ℤ) (times : List ℤ) :
    t.ticks (now :: times) = (((t.tick now).val.1.ticks times).1,
      (t.tick now).val.2 :: ((t.tick now).val.1.ticks times).2) := rfl

variable {t : Ticker} {created last now interval : ℤ}

/-- The ticker was last called at `last`, and carries the time since its creation
modulo the interval. -/
structure InPhase (t : Ticker) (created last interval : ℤ) : Prop where
  lastKnownNow : t.lastKnownNow = some last
  tickInterval : t.tickInterval = some interval
  carried : t.timeSinceLastTick = (last - created) % interval

theorem InPhase.start (created interval : ℤ) :
    (ofNow created (some interval)).InPhase created created interval := by
  refine ⟨rfl, rfl, ?_⟩
  rw [sub_self, Int.zero_emod]
  rfl

/-- The intervals that are passed between two times. -/
theorem ediv_add (hpos : 0 < interval) (a d : ℤ) :
    (a + d) / interval = a / interval + (a % interval + d) / interval := by
  have hsplit : a + d = a % interval + d + interval * (a / interval) := by
    have := Int.mul_ediv_add_emod a interval
    omega
  rw [hsplit, Int.add_mul_ediv_left _ _ hpos.ne', Int.add_comm (a / interval)]

/-- **One call** keeps the phase, and it fires iff a multiple of the interval is
passed. -/
theorem InPhase.tick (h : t.InPhase created last interval) (hpos : 0 < interval)
    (hle : last ≤ now) :
    (t.tick now).val.1.InPhase created now interval ∧
      ((t.tick now).val.2 = true ↔
        (now - created) / interval > (last - created) / interval) := by
  have hlow := Int.emod_nonneg (last - created) hpos.ne'
  have hhigh := Int.emod_lt_of_pos (last - created) hpos
  have hsum : now - created = last - created + (now - last) := by omega
  have hcarried : ((last - created) % interval + (now - last)) % interval
      = (now - created) % interval := by
    rw [Int.emod_add_emod, ← hsum]
  have hpassed := ediv_add hpos (last - created) (now - last)
  rw [← hsum] at hpassed
  rw [val_tick h.tickInterval h.lastKnownNow, h.carried, hpassed]
  split
  · next hfire =>
    have hquotient : 1 ≤ ((last - created) % interval + (now - last)) / interval :=
      Int.le_ediv_of_mul_le hpos (by omega)
    refine ⟨⟨rfl, rfl, ?_⟩, iff_of_true rfl (by omega)⟩
    -- the carried time is not negative, so both remainders are the same
    rw [← hcarried]
    exact Int.tmod_eq_emod_of_nonneg (by omega)
  · next hwait =>
    have hquotient : ((last - created) % interval + (now - last)) / interval = 0 :=
      Int.ediv_eq_zero_of_lt (by omega) (by omega)
    have hsame : ((last - created) % interval + (now - last)) % interval
        = (last - created) % interval + (now - last) := Int.emod_eq_of_lt (by omega) (by omega)
    exact ⟨⟨rfl, rfl, hsame.symm.trans hcarried⟩, iff_of_false (by simp) (by omega)⟩

/-- The calls of a run whose clock does not go back. -/
theorem InPhase.ticks (h : t.InPhase created last interval) (hpos : 0 < interval)
    {times : List ℤ} (htimes : (last :: times).Pairwise (· ≤ ·)) :
    (t.ticks times).1.InPhase created (times.getLastD last) interval := by
  induction times generalizing t last with
  | nil => exact h
  | cons now times ih =>
    obtain ⟨hle, hrest⟩ := List.pairwise_cons.mp htimes
    rw [List.getLastD_cons]
    exact ih (h.tick hpos (hle now List.mem_cons_self)).1 hrest

/-- The number of times that the ticker fires. -/
theorem InPhase.count_le (h : t.InPhase created last interval) (hpos : 0 < interval)
    {times : List ℤ} (htimes : (last :: times).Pairwise (· ≤ ·)) :
    ((t.ticks times).2.count true : ℤ)
        ≤ (times.getLastD last - created) / interval - (last - created) / interval ∧
      ((last :: times).IsChain (fun x y => y - x ≤ interval) →
        ((t.ticks times).2.count true : ℤ)
          = (times.getLastD last - created) / interval - (last - created) / interval) := by
  induction times generalizing t last with
  | nil => simp [Ticker.ticks]
  | cons now times ih =>
    obtain ⟨hle, hrest⟩ := List.pairwise_cons.mp htimes
    have hnow := hle now List.mem_cons_self
    obtain ⟨hphase, hfires⟩ := h.tick hpos hnow
    obtain ⟨hcount, hequal⟩ := ih hphase hrest
    have hsum : now - created = last - created + (now - last) := by omega
    have hpassed := ediv_add hpos (last - created) (now - last)
    rw [← hsum] at hpassed
    have hlow := Int.emod_nonneg (last - created) hpos.ne'
    have hnonneg : 0 ≤ ((last - created) % interval + (now - last)) / interval :=
      Int.ediv_nonneg (by omega) hpos.le
    rw [ticks_cons, List.getLastD_cons]
    dsimp only
    by_cases hfired : (t.tick now).val.2 = true
    · have hmore := hfires.mp hfired
      rw [hfired, List.count_cons_self, Nat.cast_add, Nat.cast_one]
      refine ⟨by omega, fun hgaps => ?_⟩
      -- a gap of at most one interval passes at most one multiple
      obtain ⟨hgap, hgaps⟩ := List.isChain_cons_cons.mp hgaps
      have hhigh := Int.emod_lt_of_pos (last - created) hpos
      have hone : ((last - created) % interval + (now - last)) / interval < 2 :=
        Int.ediv_lt_of_lt_mul hpos (by omega)
      have := hequal hgaps
      omega
    · have hsame := mt hfires.mpr hfired
      rw [Bool.not_eq_true] at hfired
      rw [hfired, List.count_cons_of_ne (by decide)]
      refine ⟨by omega, fun hgaps => ?_⟩
      have := hequal (List.isChain_cons_cons.mp hgaps).2
      omega

end Ticker

end Neptun
