/-
The interval of a `Ticker` as a divisor.

A ticker that fires divides the time since the last tick by its interval.  A zero
interval is one that always has passed, and the division kills the program; neither
the constructor nor `set_tick_interval` keeps it out.

* `ticker_safe_iff` — a run of a ticker divides by zero iff it ticks while the
  interval is zero, unless the clock has gone back;
* `tickerSafe_of_reachable` — the tickers of an endpoint never have a zero interval, as
  a rate of zero clears it.
-/
import Neptun.RateLimit

namespace Neptun

/-- A call of a `Ticker`. -/
inductive TickerCall
  | tick (now : ℤ)
  | setTickInterval (interval : ℤ)
  | clearTickInterval
  deriving DecidableEq, Repr

/-- A ticker and the obligations it has broken. -/
structure TickerState where
  ticker : Ticker
  faults : List Fault := []

def TickerState.next (s : TickerState) : TickerCall → TickerState
  | .tick now =>
    let result := s.ticker.tick now
    { ticker := result.val.1, faults := s.faults ++ result.faults }
  | .setTickInterval interval => { s with ticker := s.ticker.setTickInterval interval }
  | .clearTickInterval => { s with ticker := s.ticker.clearTickInterval }

/-- The runs of a ticker from its construction on. -/
def ticking (created : ℤ) (interval : Option ℤ) : System TickerState TickerCall where
  init s := s = { ticker := Ticker.ofNow created interval }
  enabled _ _ := True
  next := TickerState.next

/-- No remainder was taken modulo a zero interval. -/
def TickerState.NeverModuloZero (s : TickerState) : Prop := Fault.moduloZero ∉ s.faults

/-- The call is not a tick with a zero interval, unless the time since the last tick
would become negative. -/
def NoZeroTick (s : TickerState) : TickerCall → Prop
  | .tick now => s.ticker.tickInterval = some 0 →
      ∀ elapsed ∈ s.ticker.calcElapsedTime now, s.ticker.timeSinceLastTick + elapsed < 0
  | _ => True

/-! ### Runs of a ticker -/

/-- When a tick divides by zero. -/
theorem Ticker.moduloZero_mem_tick_iff (t : Ticker) (now : ℤ) :
    Fault.moduloZero ∈ (t.tick now).faults ↔ t.tickInterval = some 0 ∧
      ∃ elapsed ∈ t.calcElapsedTime now, 0 ≤ t.timeSinceLastTick + elapsed := by
  obtain ⟨last, interval, since⟩ := t
  cases last with
  | none => simp [tick, calcElapsedTime]
  | some last =>
    cases interval with
    | none => simp [tick]
    | some interval =>
      simp only [tick, calcElapsedTime, Option.map_some, Checked.faults_ite, Checked.faults_bind,
        Checked.faults_pure, List.append_nil, Option.mem_some_iff, Option.some.injEq,
        exists_eq_left']
      split
      · next hfire =>
        rw [Checked.mem_faults_check]
        constructor
        · rintro ⟨hzero, -⟩
          have : interval = 0 := not_not.mp hzero
          exact ⟨this, by omega⟩
        · rintro ⟨hzero, -⟩
          exact ⟨not_not.mpr hzero, rfl⟩
      · next hwait =>
        refine iff_of_false List.not_mem_nil ?_
        rintro ⟨rfl, hle⟩
        exact hwait hle

/-- What one call does to the obligation. -/
theorem neverModuloZero_next_iff {s : TickerState} (hs : s.NeverModuloZero) (call : TickerCall) :
    (s.next call).NeverModuloZero ↔ NoZeroTick s call := by
  cases call with
  | tick now =>
    simp only [TickerState.NeverModuloZero, TickerState.next, List.mem_append, not_or,
      Ticker.moduloZero_mem_tick_iff, NoZeroTick, not_and, not_exists, not_le]
    exact and_iff_right hs
  | setTickInterval interval => exact iff_of_true hs trivial
  | clearTickInterval => exact iff_of_true hs trivial

/-- Without a zero interval in the calls there is never one in the ticker. -/
theorem runOk_noZeroTick {created : ℤ} {interval : Option ℤ} {calls : List TickerCall}
    {s : TickerState} (hs : s.ticker.tickInterval ≠ some 0)
    (hcalls : TickerCall.setTickInterval 0 ∉ calls) :
    (ticking created interval).RunOk NoZeroTick s calls := by
  induction calls generalizing s with
  | nil => trivial
  | cons call calls ih =>
    rw [List.mem_cons, not_or] at hcalls
    obtain ⟨hcall, hrest⟩ := hcalls
    cases call with
    | tick now =>
      refine ⟨trivial, fun hzero => absurd hzero hs, ih ?_ hrest⟩
      show (s.ticker.tick now).val.1.tickInterval ≠ some 0
      rw [(Ticker.tick_frame s.ticker now).1]
      exact hs
    | setTickInterval interval =>
      refine ⟨trivial, trivial, ih (fun hzero => hcall ?_) hrest⟩
      rw [Option.some.inj hzero]
    | clearTickInterval => exact ⟨trivial, trivial, ih (fun hzero => by cases hzero) hrest⟩

/-- `update_send_rate` never sets a zero interval. -/
theorem Peer.updateSendRate_nonzero (p : Peer) (rate : UInt8) :
    (p.updateSendRate rate).sendPacketTicker.tickInterval ≠ some 0 := by
  rw [updateSendRate_ticker]
  dsimp only
  split
  · exact fun h => by cases h
  · next hrate => exact fun h => (one_second_div_pos hrate).ne' (Option.some.inj h)

namespace Peer

variable {p : Peer}

/-- The ticker of an entry may be asked at any time. -/
def TickerSafe (p : Peer) : Prop := p.sendPacketTicker.tickInterval ≠ some 0

theorem TickerSafe.read (h : p.TickerSafe) (config : ConnectionManagerConfig) (b : Span)
    (mem : Memory) : (p.read config b mem).val.1.TickerSafe := by
  obtain ⟨interval, hticker, hinterval⟩ := read_ticker config p b mem
  rw [TickerSafe, hticker]
  rcases hinterval with rfl | ⟨peerRate, selfRate, rfl⟩
  · exact h
  · exact fun hzero => (sendInterval_pos hzero).ne' rfl

theorem TickerSafe.dropOldPackets (h : p.TickerSafe) (now : ℤ) :
    (p.dropOldPackets now).val.1.TickerSafe := by
  rw [TickerSafe, dropOldPackets_ticker]
  exact h

theorem TickerSafe.write (h : p.TickerSafe) (config : ConnectionManagerConfig) (mem : Memory)
    (now : ℤ) : (p.write config mem now).val.1.TickerSafe := by
  rw [TickerSafe, write_ticker, (Ticker.tick_frame _ now).1]
  exact h

end Peer

open PeerMap

theorem Endpoint.tickerSafe_new (n : Endpoint) (now : ℤ) : (n.createPeer 0 now).TickerSafe :=
  fun hzero => by cases hzero

/-- The tickers of all entries are safe in every run. -/
theorem tickerSafe_of_reachable {config : ConnectionManagerConfig} {packetTimeout : ℤ}
    {n : Endpoint} (h : (neptun config packetTimeout).Reachable System.anyAction n) :
    All (fun _ => Peer.TickerSafe) n.peers := by
  refine h.invariant (P := fun n => All (fun _ => Peer.TickerSafe) n.peers) (fun n hn => ?_)
    (fun n call _ ih _ _ => ?_)
  · rw [hn]
    exact all_nil
  · exact Endpoint.next_all (fun _ now => n.tickerSafe_new now) (fun _ _ hp => hp)
      (fun _ _ _ hp => hp) (fun _ _ _ hp => hp) (fun _ _ now hp => hp.dropOldPackets now)
      (fun _ _ b mem hp => hp.read _ b mem) (fun _ _ mem now hp => hp.write _ mem now) ih call

end Neptun
