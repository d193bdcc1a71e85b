/-
`Ticker`: the rate limiter.  Times and intervals are nanoseconds.

* `val_tick` — what a tick computes if an interval is set;
* `tick_frame` — a tick keeps the interval and remembers its time.
-/
import Neptun.Types

namespace Neptun

structure Ticker where
  lastKnownNow : Option ℤ
  tickInterval : Option ℤ
  timeSinceLastTick : ℤ := 0

namespace Ticker

def ofNow (now : ℤ) (tickInterval : Option ℤ) : Ticker := ⟨some now, tickInterval, 0⟩

def calcElapsedTime (t : Ticker) (now : ℤ) : Option ℤ := t.lastKnownNow.map (now - ·)

def tick (t : Ticker) (now : ℤ) : Checked Fault (Ticker × Bool) :=
  let elapsedTime := t.calcElapsedTime now
  let t := { t with lastKnownNow := some now }
  match elapsedTime, t.tickInterval with
  | some elapsed, some interval =>
    let timeSinceLastTick := t.timeSinceLastTick + elapsed
    if timeSinceLastTick ≥ interval then do
      Checked.check (interval ≠ 0) .moduloZero
      -- `%` truncates towards zero
      pure ({ t with timeSinceLastTick := timeSinceLastTick.tmod interval }, true)
    else
      pure ({ t with timeSinceLastTick := timeSinceLastTick }, false)
  | _, _ => pure ({ t with timeSinceLastTick := 0 }, true)

def setTickInterval (t : Ticker) (interval : ℤ) : Ticker :=
  { t with tickInterval := some interval }

def clearTickInterval (t : Ticker) : Ticker := { t with tickInterval := none }

variable {t : Ticker} {now last interval : ℤ}

/-- What `tick` computes if an interval is set. -/
theorem val_tick (ht : t.tickInterval = some interval) (hlast : t.lastKnownNow = some last)
    (now : ℤ) :
    let elapsed := t.timeSinceLastTick + (now - last)
    (t.tick now).val =
      if elapsed ≥ interval then
        (⟨some now, some interval, elapsed.tmod interval⟩, true)
      else (⟨some now, some interval, elapsed⟩, false) := by
  intro elapsed
  simp only [tick, calcElapsedTime, hlast, ht, Option.map_some, Checked.val_ite, Checked.val_bind,
    Checked.val_pure, elapsed]

theorem val_tick_of_none (h : t.lastKnownNow = none ∨ t.tickInterval = none) (now : ℤ) :
    (t.tick now).val = (⟨some now, t.tickInterval, 0⟩, true) := by
  obtain ⟨last, interval, since⟩ := t
  rcases h with h | h <;> cases h
  · rfl
  · cases last <;> rfl

theorem tick_frame (t : Ticker) (now : ℤ) :
    (t.tick now).val.1.tickInterval = t.tickInterval ∧
      (t.tick now).val.1.lastKnownNow = some now := by
  cases hlast : t.lastKnownNow with
  | none =>
    rw [val_tick_of_none (Or.inl hlast)]
    exact ⟨rfl, rfl⟩
  | some last =>
    cases ht : t.tickInterval with
    | none =>
      rw [val_tick_of_none (Or.inr ht)]
      exact ⟨ht, rfl⟩
    | some interval =>
      rw [val_tick ht hlast]
      split <;> exact ⟨rfl, rfl⟩

end Ticker

end Neptun
