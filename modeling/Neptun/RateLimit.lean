/-
The rate of packets.

The interval of the ticker is set at the end of the connection stage of `read`,
after several early returns; what makes it the right one in every state is that
the limits of the peer are stored right before.  The ticker then pays for every
packet with an interval of time, and never owns more than one interval when a
tick ends.

* `Endpoint.Paced` — every connected peer has the interval that belongs to the
  limits;
* `Endpoint.sentToAll_le` — what is sent during a window is paid for by its
  length and by what the ticker owned before;
* `packet_rate` — both together, for every run.
-/
import Neptun.AckLog
import Neptun.EndpointRuns

namespace Neptun

/-! ### The ticker -/

namespace Ticker

variable {t : Ticker} {now last interval : ℤ}

/-- After a tick less than an interval is left. -/
theorem tick_timeSinceLastTick_lt (hpos : 0 < interval) (ht : t.tickInterval = some interval)
    (now : ℤ) : (t.tick now).val.1.timeSinceLastTick < interval := by
  cases hlast : t.lastKnownNow with
  | none =>
    rw [val_tick_of_none (Or.inl hlast)]
    exact hpos
  | some last =>
    rw [val_tick ht hlast]
    split
    · exact Int.tmod_lt_of_pos _ hpos
    · next hlt => exact Int.not_le.mp hlt

/-- Every packet is paid for with an interval of time. -/
theorem tick_pays (hpos : 0 < interval) (ht : t.tickInterval = some interval)
    (hlast : t.lastKnownNow = some last) (hle : last ≤ now) :
    interval * (if (t.tick now).val.2 then 1 else 0)
        + max (t.tick now).val.1.timeSinceLastTick 0
      ≤ max t.timeSinceLastTick 0 + (now - last) := by
  rw [val_tick ht hlast]
  split
  · next hfire =>
    -- the remainder is at least an interval shorter
    have hnonneg : 0 ≤ t.timeSinceLastTick + (now - last) := by omega
    have hmod : (t.timeSinceLastTick + (now - last)).tmod interval
        ≤ t.timeSinceLastTick + (now - last) - interval := by
      rw [Int.tmod_eq_emod_of_nonneg hnonneg]
      have hquotient : 1 ≤ (t.timeSinceLastTick + (now - last)) / interval :=
        Int.le_ediv_of_mul_le hpos (by omega)
      have hsum := Int.mul_ediv_add_emod (t.timeSinceLastTick + (now - last)) interval
      nlinarith
    simp only [if_true]
    omega
  · simp only [Bool.false_eq_true, if_false]
    omega

end Ticker

/-! ### The interval of a connected peer -/

/-- The interval that belongs to two rates: that of the smaller one, where a rate
of zero is no limit. -/
def sendInterval (peerRate selfRate : UInt8) : Option ℤ :=
  (([peerRate, selfRate].filter (· ≠ 0)).min?).map fun rate => 1000000000 / (rate.toNat : ℤ)

/-- A second is longer than the number of packets that any rate allows in it. -/
theorem one_second_div_pos {rate : UInt8} (h : rate ≠ 0) : 0 < 1000000000 / (rate.toNat : ℤ) := by
  have hpos : 0 < rate.toNat :=
    Nat.pos_of_ne_zero fun hzero => h (UInt8.toNat_inj.mp hzero)
  have hlt := rate.toNat_lt
  exact Int.lt_of_lt_of_le Int.one_pos (Int.le_ediv_of_mul_le (by omega) (by omega))

theorem sendInterval_pos {peerRate selfRate : UInt8} {interval : ℤ}
    (h : sendInterval peerRate selfRate = some interval) : 0 < interval := by
  obtain ⟨rate, hrate, rfl⟩ := Option.map_eq_some_iff.mp h
  have hnonzero : rate ≠ 0 := by
    simpa using (List.mem_filter.mp (List.min?_mem hrate)).2
  exact one_second_div_pos hnonzero

/-- A malformed handshake changes nothing. -/
theorem ConnectionManager.read_error {c : ConnectionManager} {b : Span} {mem : Memory}
    {e : NeptunError} (h : (c.read b mem).val.2 = .error e) : (c.read b mem).val.1 = c := by
  rw [val_read] at h ⊢
  split_ifs at h ⊢ <;> rfl

theorem ConnectionManager.write_isFullyConnected (c : ConnectionManager) (id : PacketId)
    (b : Span) (mem : Memory) :
    (c.write id b mem).val.1.isFullyConnected = c.isFullyConnected := by
  rw [write_state]
  split <;> rfl

namespace Peer

variable {p : Peer} {config : ConnectionManagerConfig}

theorem updateSendRate_ticker (p : Peer) (rate : UInt8) :
    (p.updateSendRate rate).sendPacketTicker = { p.sendPacketTicker with
      tickInterval := if rate = 0 then none else some (1000000000 / (rate.toNat : ℤ)) } := by
  rw [updateSendRate]
  split
  · rfl
  · rw [Int.tdiv_eq_ediv_of_nonneg (by decide)]
    rfl

/-- The three cases of `read` give the interval of the smaller rate. -/
theorem updateSendRate_sendInterval (p : Peer) (peerRate selfRate : UInt8) :
    (if peerRate = 0 then p.updateSendRate selfRate
      else if selfRate = 0 then p.updateSendRate peerRate
      else p.updateSendRate (min peerRate selfRate)).sendPacketTicker
    = { p.sendPacketTicker with tickInterval := sendInterval peerRate selfRate } := by
  have hmin : peerRate ≠ 0 → selfRate ≠ 0 → min peerRate selfRate ≠ 0 := by
    intro hpeer hself
    show (if peerRate ≤ selfRate then peerRate else selfRate) ≠ 0
    split
    · exact hpeer
    · exact hself
  by_cases hpeer : peerRate = 0
  · rw [if_pos hpeer, updateSendRate_ticker]
    by_cases hself : selfRate = 0
    · simp [sendInterval, hpeer, hself]
    · simp [sendInterval, hpeer, hself]
  · rw [if_neg hpeer]
    by_cases hself : selfRate = 0
    · rw [if_pos hself, updateSendRate_ticker]
      simp [sendInterval, hpeer, hself]
    · rw [if_neg hself, updateSendRate_ticker, if_neg (hmin hpeer hself)]
      simp [sendInterval, hpeer, hself]

/-- A connected peer has the interval that belongs to its limits and the own
ones. -/
def Paced (config : ConnectionManagerConfig) (p : Peer) : Prop :=
  ∀ limit ∈ p.connectionManager.peerLimit, p.sendPacketTicker.tickInterval
    = sendInterval limit.maxReadPacketRate config.limit.maxSendPacketRate

theorem processDeliveryStatuses_ticker (p : Peer) (statuses : DeliveryStatuses) :
    (p.processDeliveryStatuses statuses).val.sendPacketTicker = p.sendPacketTicker := by
  induction statuses generalizing p with
  | nil => rfl
  | cons s statuses ih =>
    simp only [processDeliveryStatuses, Checked.val_bind]
    rw [ih]

theorem dropOldPackets_ticker (p : Peer) (now : ℤ) :
    (p.dropOldPackets now).val.1.sendPacketTicker = p.sendPacketTicker := by
  rw [val_dropOldPackets, processDeliveryStatuses_ticker]

theorem readStreams_ticker (config : ConnectionManagerConfig) (p : Peer)
    (limit : BandwidthLimit) (b : Span) (mem : Memory) (report : ReadReport) :
    (readStreams config p limit b mem report).val.1.sendPacketTicker = { p.sendPacketTicker with
      tickInterval := sendInterval limit.maxReadPacketRate config.limit.maxSendPacketRate } := by
  rw [← updateSendRate_sendInterval, readStreams]
  generalize (if limit.maxReadPacketRate = 0 then _ else _ : Peer) = q
  simp only [Checked.val_bind]
  split
  · rfl
  · simp only [Checked.val_bind]
    split <;> rfl

/-- Reading may change the interval, to that of two rates, and nothing else of the ticker. -/
theorem readConnection_ticker (config : ConnectionManagerConfig) (p : Peer) (b : Span)
    (mem : Memory) (report : ReadReport) :
    ∃ interval, (readConnection config p b mem report).val.1.sendPacketTicker
        = { p.sendPacketTicker with tickInterval := interval } ∧
      (interval = p.sendPacketTicker.tickInterval ∨
        ∃ peerRate selfRate, interval = sendInterval peerRate selfRate) := by
  rw [readConnection]
  simp only [Checked.val_bind]
  split
  · exact ⟨_, rfl, Or.inl rfl⟩
  · simp only [Checked.val_bind]
    split
    · exact ⟨_, rfl, Or.inl rfl⟩
    · rw [readStreams_ticker]
      exact ⟨_, rfl, Or.inr ⟨_, _, rfl⟩⟩

theorem read_ticker (config : ConnectionManagerConfig) (p : Peer) (b : Span) (mem : Memory) :
    ∃ interval, (p.read config b mem).val.1.sendPacketTicker
        = { p.sendPacketTicker with tickInterval := interval } ∧
      (interval = p.sendPacketTicker.tickInterval ∨
        ∃ peerRate selfRate, interval = sendInterval peerRate selfRate) := by
  rcases read_cases config p b mem with ⟨-, hval⟩ | ⟨-, hval⟩
  · rw [hval]
    exact ⟨_, rfl, Or.inl rfl⟩
  · rw [hval]
    generalize hp' : (Peer.processDeliveryStatuses _ _).val = p'
    have hticker : p'.sendPacketTicker = p.sendPacketTicker := by
      rw [← hp', processDeliveryStatuses_ticker]
    rw [← hticker]
    exact readConnection_ticker config p' _ mem _

/-- Reading sets the interval whenever the limits are set. -/
theorem Paced.readConnection (h : p.Paced config) (b : Span) (mem : Memory)
    (report : ReadReport) : (readConnection config p b mem report).val.1.Paced config := by
  rw [Paced, readConnection_connection, Peer.readConnection]
  simp only [Checked.val_bind]
  -- the interval is set exactly when the connection manager knows the limits
  cases hresult : (p.connectionManager.read b mem).val.2 with
  | error e =>
    intro limit hlimit
    rw [ConnectionManager.read_error hresult] at hlimit
    exact h limit hlimit
  | ok count =>
    simp only [Checked.val_bind]
    cases hlimit : (p.connectionManager.read b mem).val.1.peerLimit with
    | none =>
      intro limit hsome
      cases hsome
    | some limit =>
      dsimp only
      rw [readStreams_ticker]
      intro limit' hsome
      cases hsome
      rfl

theorem Paced.read (h : p.Paced config) (b : Span) (mem : Memory) :
    (p.read config b mem).val.1.Paced config := by
  rcases read_cases config p b mem with ⟨-, hval⟩ | ⟨-, hval⟩
  · rw [hval]
    exact h
  · rw [hval]
    refine Paced.readConnection ?_ _ _ _
    intro limit hlimit
    rw [ConnectionManager.peerLimit,
      processDeliveryStatuses_connection _ ConnectionManager.status_peerLimit] at hlimit
    rw [processDeliveryStatuses_ticker]
    exact h limit hlimit

theorem Paced.dropOldPackets (h : p.Paced config) (now : ℤ) :
    (p.dropOldPackets now).val.1.Paced config := by
  intro limit hlimit
  rw [ConnectionManager.peerLimit,
    Peer.dropOldPackets_connection _ ConnectionManager.status_peerLimit] at hlimit
  rw [dropOldPackets_ticker]
  exact h limit hlimit

theorem write_ticker (config : ConnectionManagerConfig) (p : Peer) (mem : Memory) (now : ℤ) :
    (p.write config mem now).val.1.sendPacketTicker = (p.sendPacketTicker.tick now).val.1 := by
  rcases write_cases config p mem now with hval | ⟨-, hval⟩
  · rw [hval]
  · rw [hval]
    rfl

theorem Paced.write (h : p.Paced config) (mem : Memory) (now : ℤ) :
    (p.write config mem now).val.1.Paced config := by
  intro limit hlimit
  rw [ConnectionManager.peerLimit,
    Peer.write_connection _ ConnectionManager.write_peerLimit] at hlimit
  rw [write_ticker, (Ticker.tick_frame _ now).1]
  exact h limit hlimit

/-- A packet to a fully connected peer is one that the ticker allows. -/
theorem write_length_le_tick (hfull : p.connectionManager.isFullyConnected = true)
    (config : ConnectionManagerConfig) (mem : Memory) (now : ℤ) :
    (p.write config mem now).val.2.2.toList.length
      ≤ if (p.sendPacketTicker.tick now).val.2 then 1 else 0 := by
  rcases write_cases config p mem now with hval | ⟨hsend, hval⟩
  · rw [hval]
    exact Nat.zero_le _
  · rw [hval]
    rcases hsend with htick | hnot
    · rw [if_pos htick]
      exact Nat.le_refl 1
    · rw [hfull] at hnot
      cases hnot

end Peer

/-! ### Runs -/

/-- The time of a tick. -/
def EndpointCall.tickTime : EndpointCall → Option ℤ
  | .tick now _ => some now
  | _ => none

open PeerMap

namespace Endpoint

variable {n : Endpoint} {ip : IpAddress} {p : Peer}

/-- All connected peers have the interval of their limits. -/
def Paced (n : Endpoint) : Prop := All (fun _ => Peer.Paced n.connectionManagerConfig) n.peers

theorem Paced.next (h : n.Paced) (call : EndpointCall) : (n.next call).Paced := by
  rw [Paced, next_config]
  refine next_all (Q := fun _ => Peer.Paced n.connectionManagerConfig) ?_
    (fun _ _ hp => hp) (fun _ _ _ hp => hp) (fun _ _ _ hp => hp)
    (fun _ _ now hp => hp.dropOldPackets now) (fun _ _ b mem hp => hp.read b mem)
    (fun _ _ mem now hp => hp.write mem now) h call
  intro ip now limit hlimit
  cases hlimit

theorem Paced.beforeWrite (h : n.Paced) (now : ℤ) (incoming : Option (IpAddress × List UInt8)) :
    All (fun _ => Peer.Paced n.connectionManagerConfig) (n.beforeWrite now incoming).peers := by
  refine beforeWrite_all (Q := fun _ => Peer.Paced n.connectionManagerConfig) ?_
    (fun _ _ now hp => hp.dropOldPackets now) (fun _ _ b mem hp => hp.read b mem)
    h now incoming
  intro ip now limit hlimit
  cases hlimit

/-- The number of packets that a call sends to an address. -/
def sentTo (n : Endpoint) (ip : IpAddress) : EndpointCall → ℕ
  | .tick now incoming =>
    ((n.tick now incoming).val.2.sent.filter fun sent => sent.1 = ip).length
  | _ => 0

/-- The number of packets that a run sends to an address. -/
def sentToAll (ip : IpAddress) : Endpoint → List EndpointCall → ℕ
  | _, [] => 0
  | n, call :: calls => n.sentTo ip call + sentToAll ip (n.next call) calls

/-- The peer is fully connected, with the given limits. -/
def ConnectedWith (ip : IpAddress) (limit : BandwidthLimit) (n : Endpoint) : Prop :=
  ∃ p, n.peers.find ip = some p ∧ p.connectionManager.isFullyConnected = true ∧
    p.connectionManager.peerLimit = some limit

instance (ip : IpAddress) (limit : BandwidthLimit) (n : Endpoint) :
    Decidable (ConnectedWith ip limit n) :=
  inferInstanceAs (Decidable (∃ p ∈ n.peers.find ip,
    p.connectionManager.isFullyConnected = true ∧ p.connectionManager.peerLimit = some limit))

/-- **A tick** pays for what it sends to a connected peer. -/
theorem tick_pays (hdistinct : n.Distinct) (hpaced : n.Paced) (hp : n.peers.find ip = some p)
    {last now interval : ℤ} {limit : BandwidthLimit} {incoming : Option (IpAddress × List UInt8)}
    (hlast : p.sendPacketTicker.lastKnownNow = some last) (hle : last ≤ now)
    (hinterval : sendInterval limit.maxReadPacketRate
      n.connectionManagerConfig.limit.maxSendPacketRate = some interval)
    (hconnected : (n.next (.tick now incoming)).ConnectedWith ip limit) :
    ∃ p', (n.next (.tick now incoming)).peers.find ip = some p' ∧
      p'.sendPacketTicker.lastKnownNow = some now ∧
      interval * n.sentTo ip (.tick now incoming) + max p'.sendPacketTicker.timeSinceLastTick 0
        ≤ max p.sendPacketTicker.timeSinceLastTick 0 + (now - last) := by
  -- the entry that is written to
  obtain ⟨q, hq, hcases⟩ := find_beforeWrite hp now incoming
  obtain ⟨interval', hticker⟩ : ∃ interval', q.sendPacketTicker
      = { p.sendPacketTicker with tickInterval := interval' } := by
    rcases hcases with rfl | ⟨b, mem, rfl⟩
    · exact ⟨_, Peer.dropOldPackets_ticker p now⟩
    · obtain ⟨interval', hread, -⟩ := Peer.read_ticker n.connectionManagerConfig
        (p.dropOldPackets now).val.1 b mem
      rw [Peer.dropOldPackets_ticker] at hread
      exact ⟨interval', hread⟩
  obtain ⟨mem, hfind, hsent⟩ := hdistinct.tick_entry now incoming hq
  -- it was connected, with the same limits
  obtain ⟨p', hp', hfull, hlimit⟩ := hconnected
  have heq : p' = (q.write n.connectionManagerConfig mem now).val.1 :=
    Option.some_inj.mp (hp'.symm.trans hfind)
  rw [heq, Peer.write_connection _ ConnectionManager.write_isFullyConnected] at hfull
  rw [heq, ConnectionManager.peerLimit,
    Peer.write_connection _ ConnectionManager.write_peerLimit] at hlimit
  have hset : q.sendPacketTicker.tickInterval = some interval :=
    ((hpaced.beforeWrite now incoming).find hq limit hlimit).trans hinterval
  have hqlast : q.sendPacketTicker.lastKnownNow = some last := by
    rw [hticker]
    exact hlast
  have hpays := Ticker.tick_pays (sendInterval_pos hinterval) hset hqlast hle
  have hcount : n.sentTo ip (.tick now incoming)
      ≤ if (q.sendPacketTicker.tick now).val.2 then 1 else 0 := by
    rw [sentTo, hsent, List.length_map]
    exact Peer.write_length_le_tick hfull _ mem now
  refine ⟨_, hfind, ?_, ?_⟩
  · rw [Peer.write_ticker, (Ticker.tick_frame _ now).2]
  · rw [Peer.write_ticker]
    have hsince : q.sendPacketTicker.timeSinceLastTick = p.sendPacketTicker.timeSinceLastTick := by
      rw [hticker]
    rw [hsince] at hpays
    have hmul : interval * (n.sentTo ip (.tick now incoming) : ℤ)
        ≤ interval * (if (q.sendPacketTicker.tick now).val.2 then 1 else 0) := by
      refine Int.mul_le_mul_of_nonneg_left ?_ (sendInterval_pos hinterval).le
      exact_mod_cast hcount
    omega

/-- The ticker of an entry after a tick. -/
theorem ticker_after_tick {now interval : ℤ} {incoming : Option (IpAddress × List UInt8)}
    (hp : (n.next (.tick now incoming)).peers.find ip = some p)
    (hset : p.sendPacketTicker.tickInterval = some interval) (hpos : 0 < interval) :
    p.sendPacketTicker.lastKnownNow = some now ∧
      p.sendPacketTicker.timeSinceLastTick < interval := by
  have hmem : (ip, p) ∈ (n.written now incoming).1 := by
    rw [← (n.tick_written now incoming).1]
    exact mem_of_find hp
  obtain ⟨q, mem, -, heq, -⟩ := mem_write hmem
  have hticker : p.sendPacketTicker = (q.sendPacketTicker.tick now).val.1 := by
    rw [← Peer.write_ticker n.connectionManagerConfig q mem now, ← heq]
  rw [hticker] at hset ⊢
  obtain ⟨hframe, hlast⟩ := q.sendPacketTicker.tick_frame now
  exact ⟨hlast, Ticker.tick_timeSinceLastTick_lt hpos (hframe.symm.trans hset) now⟩

/-- The other calls leave the ticker alone. -/
theorem find_next_of_not_tick (hp : n.peers.find ip = some p) {call : EndpointCall}
    (hcall : call.tickTime = none) :
    ∃ p', (n.next call).peers.find ip = some p' ∧ p'.sendPacketTicker = p.sendPacketTicker := by
  -- each of them is an update of one entry, maybe of one that it creates
  have hupdate : ∀ target now (f : Peer → Peer),
      (∀ q, (f q).sendPacketTicker = q.sendPacketTicker) →
      ∃ p', ((n.findOrCreatePeer 0 target now).1.peers.update target
          (f (n.findOrCreatePeer 0 target now).2)).find ip = some p' ∧
        p'.sendPacketTicker = p.sendPacketTicker := by
    intro target now f hf
    refine ⟨_, find_update_created hp target now f, ?_⟩
    split
    · exact hf p
    · rfl
  cases call with
  | connect target now => exact hupdate target now (fun q => { q with
      connectionManager := q.connectionManager.connect }) fun _ => rfl
  | sendReliableTo target fn now => exact hupdate target now (fun q => { q with
      reliableStream := (q.reliableStream.send fn).val }) fun _ => rfl
  | sendUnreliableTo target fn now => exact hupdate target now (fun q => { q with
      unreliableStream := (q.unreliableStream.send fn).val }) fun _ => rfl
  | tick now incoming => cases hcall

/-- **A window** pays for what it sends: with its length, and with what the ticker
owned before. -/
theorem sentToAll_le {config : ConnectionManagerConfig} {packetTimeout : ℤ}
    (hconfig : n.connectionManagerConfig = config) (hdistinct : n.Distinct) (hpaced : n.Paced)
    (hp : n.peers.find ip = some p) {last tb interval : ℤ} {limit : BandwidthLimit}
    (hlast : p.sendPacketTicker.lastKnownNow = some last)
    (hinterval : sendInterval limit.maxReadPacketRate config.limit.maxSendPacketRate
      = some interval)
    {calls : List EndpointCall}
    (hwindow : (neptun config packetTimeout).Along (ConnectedWith ip limit) n calls)
    (htimes : (last :: calls.filterMap EndpointCall.tickTime).Pairwise (· ≤ ·))
    (hend : ∀ t ∈ last :: calls.filterMap EndpointCall.tickTime, t ≤ tb) :
    interval * sentToAll ip n calls
      ≤ max p.sendPacketTicker.timeSinceLastTick 0 + (tb - last) := by
  -- over the calls of the window; the time that the ticker owns is what is carried along
  induction calls generalizing n p last with
  | nil =>
    have hle := hend last List.mem_cons_self
    simp only [sentToAll]
    omega
  | cons call calls ih =>
    obtain ⟨-, hrest⟩ := hwindow
    have hnext := (n.next_config call).trans hconfig
    have hsum : (sentToAll ip n (call :: calls) : ℤ)
        = n.sentTo ip call + sentToAll ip (n.next call) calls := Nat.cast_add _ _
    rw [hsum, mul_add]
    cases htick : call.tickTime with
    | none =>
      -- no time passes for the ticker, and nothing is sent
      obtain ⟨p', hp', hticker⟩ := find_next_of_not_tick hp htick
      rw [List.filterMap_cons_none htick] at htimes hend
      have hbound := ih hnext (hdistinct.next call) (hpaced.next call) hp'
        (by rw [hticker]; exact hlast) hrest htimes hend
      have hnone : n.sentTo ip call = 0 := by
        cases call with
        | tick now incoming => cases htick
        | _ => rfl
      rw [hticker] at hbound
      rw [hnone]
      omega
    | some now =>
      rw [List.filterMap_cons_some htick] at htimes hend
      obtain ⟨hle, htimes⟩ := List.pairwise_cons.mp htimes
      cases call with
      | tick now' incoming =>
        cases htick
        -- the tick pays for its packet, the rest of the window for the others
        obtain ⟨p', hp', hlast', hpays⟩ := tick_pays hdistinct hpaced hp hlast
          (hle _ List.mem_cons_self) (by rw [hconfig]; exact hinterval) hrest.head
        have hbound := ih hnext (hdistinct.next _) (hpaced.next _) hp' hlast' hrest htimes
          fun t ht => hend t (List.mem_cons_of_mem _ ht)
        omega
      | connect | sendReliableTo | sendUnreliableTo => cases htick

end Endpoint

theorem paced_of_reachable {config : ConnectionManagerConfig} {packetTimeout : ℤ} {n : Endpoint}
    (h : (neptun config packetTimeout).Reachable System.anyAction n) :
    n.connectionManagerConfig = config ∧ n.Distinct ∧ n.Paced := by
  refine h.invariant (P := fun n => n.connectionManagerConfig = config ∧ n.Distinct ∧ n.Paced)
    (fun n hn => ?_) (fun n call _ ih _ _ => ?_)
  · rw [hn]
    exact ⟨rfl, List.nodup_nil, all_nil⟩
  · obtain ⟨hconfig, hdistinct, hpaced⟩ := ih
    exact ⟨(n.next_config call).trans hconfig, hdistinct.next call, hpaced.next call⟩

/-- **The rate of packets.**  In every reachable state a connected peer has the
interval of the smaller of the two rates.  A window of calls begins right after
a tick at `ta` that was made with an interval, and ends at `tb`; if the peer
stays fully connected with the same limits, it is sent at most one packet for
every interval that fits into the window, and one more. -/
theorem packet_rate {config : ConnectionManagerConfig} {packetTimeout : ℤ} {n : Endpoint}
    (h : (neptun config packetTimeout).Reachable System.anyAction n) :
    (∀ ip p limit, n.peers.find ip = some p → p.connectionManager.peerLimit = some limit →
      p.sendPacketTicker.tickInterval
        = sendInterval limit.maxReadPacketRate config.limit.maxSendPacketRate) ∧
    ∀ ta tb incoming ip p limit interval calls,
      (n.next (.tick ta incoming)).peers.find ip = some p →
      p.sendPacketTicker.tickInterval = some interval →
      (neptun config packetTimeout).Along (Endpoint.ConnectedWith ip limit)
        (n.next (.tick ta incoming)) calls →
      (ta :: calls.filterMap EndpointCall.tickTime).Pairwise (· ≤ ·) →
      (∀ t ∈ ta :: calls.filterMap EndpointCall.tickTime, t ≤ tb) →
      (Endpoint.sentToAll ip (n.next (.tick ta incoming)) calls : ℤ)
        ≤ (tb - ta) / interval + 1 := by
  obtain ⟨hconfig, hdistinct, hpaced⟩ := paced_of_reachable h
  constructor
  · intro ip p limit hp hlimit
    rw [← hconfig]
    exact hpaced.find hp limit hlimit
  · intro ta tb incoming ip p limit interval calls hp hset hwindow htimes hend
    have hreachable : (neptun config packetTimeout).Reachable System.anyAction
        (n.next (.tick ta incoming)) :=
      h.step (a := EndpointCall.tick ta incoming) trivial trivial
    obtain ⟨hconfig', hdistinct', hpaced'⟩ := paced_of_reachable hreachable
    -- the interval of the tick belongs to the limits of the window
    obtain ⟨p', hp', -, hlimit⟩ := hwindow.head
    obtain rfl : p' = p := Option.some_inj.mp (hp'.symm.trans hp)
    have hinterval : sendInterval limit.maxReadPacketRate config.limit.maxSendPacketRate
        = some interval := by
      rw [← hset, ← hconfig']
      exact (hpaced'.find hp limit hlimit).symm
    have hpos := sendInterval_pos hinterval
    obtain ⟨hlast, hlt⟩ := Endpoint.ticker_after_tick hp hset hpos
    have hbound := Endpoint.sentToAll_le hconfig' hdistinct' hpaced' hp hlast hinterval hwindow
      htimes hend
    -- less than an interval was owned before
    have hle := hend ta List.mem_cons_self
    refine Int.le_add_of_sub_right_le (Int.le_ediv_of_mul_le hpos ?_)
    rw [sub_mul, mul_comm]
    omega

/-- The peer reads ten packets a second: two of four ticks send. -/
theorem packet_rate_ten_a_second :
    let config : ConnectionManagerConfig := ⟨0, ⟨0, 1400, 50, 1400⟩⟩
    let request : List UInt8 :=
      [0, 0, 0, 0, 0, 0, 0, 0, 0, 0, 0, 0, 0, 1, 0, 0, 10, 0, 5, 120, 5, 120]
    let acknowledgement : List UInt8 := [0, 0, 0, 1, 0, 0, 0, 0, 0, 0, 0, 1]
    let requested := (neptun config 5000000000).runFrom
      { packetTimeout := 5000000000, connectionManagerConfig := config }
      [.tick 0 (some (⟨2, 1⟩, request))]
    let n := requested.next (.tick 1 (some (⟨2, 1⟩, acknowledgement)))
    let calls : List EndpointCall :=
      [.tick 99999999 none, .tick 100000001 none, .tick 150000000 none, .tick 200000001 none]
    n.ConnectedWith ⟨2, 1⟩ ⟨10, 1400, 0, 1400⟩ ∧ n.sentToAll ⟨2, 1⟩ calls = 2 ∧
      (n.sentToAll ⟨2, 1⟩ calls : ℤ) ≤ (200000001 - 1) / 100000000 + 1 := by
  intro config request acknowledgement requested n calls
  have hreachable : (neptun config 5000000000).Reachable System.anyAction requested :=
    System.runFrom_reachable (.init rfl) ⟨trivial, trivial, trivial⟩
  have hconnected : n.ConnectedWith ⟨2, 1⟩ ⟨10, 1400, 0, 1400⟩ := by decide +kernel
  refine ⟨hconnected, by decide +kernel, ?_⟩
  obtain ⟨p, hp, -, -⟩ := hconnected
  have hset : ∀ q ∈ n.peers.find ⟨2, 1⟩, q.sendPacketTicker.tickInterval = some 100000000 := by
    decide +kernel
  exact (packet_rate hreachable).2 1 200000001 _ ⟨2, 1⟩ p ⟨10, 1400, 0, 1400⟩ 100000000 calls hp
    (hset p hp) (by decide +kernel) (by decide) (by decide)

end Neptun
