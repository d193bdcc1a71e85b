/-
The metrics of an endpoint.

`Metrics` has a counter for every key.  A `Neptun` object counts in
`process_delivery_statuses` the packets that were acknowledged and those that were given
up.  The statuses that come with a datagram that is ignored are not processed, so they
are not counted either, although their packets are not in flight any more.

* `Endpoint.inFlight_tick` — what one tick settles and sends;
* `Metered.Accounted` — every packet is counted, in flight, or one of those;
* `metrics_account` — this holds in every run, and the counters are exact below `2 ^ 64`.
-/
import Neptun.AckLog
import Neptun.EndpointRuns

namespace Neptun

/-- `metric_key_count` and `metric_key_index`. -/
class MetricKey (κ : Type) where
  count : ℕ
  index : κ → Fin count

structure Metrics (κ : Type) [MetricKey κ] where
  values : Fin (MetricKey.count κ) → UInt64 := fun _ => 0

namespace Metrics

variable {κ : Type} [MetricKey κ]

def inc (m : Metrics κ) (key : κ) (value : UInt64) : Metrics κ where
  values := Function.update m.values (MetricKey.index key)
    (m.values (MetricKey.index key) + value)

def value (m : Metrics κ) (key : κ) : UInt64 := m.values (MetricKey.index key)

theorem value_inc (m : Metrics κ) (key key' : κ) (value : UInt64) :
    (m.inc key value).value key' = if MetricKey.index key' = MetricKey.index key
      then m.value key + value else m.value key' := by
  rw [Metrics.value, inc]
  dsimp only
  rw [Function.update_apply]
  rfl

end Metrics

inductive NeptunMetricKey
  | packetAcks
  | packetDrops
  deriving DecidableEq, Repr

instance : MetricKey NeptunMetricKey where
  count := 2
  index
    | .packetAcks => 0
    | .packetDrops => 1

abbrev NeptunMetrics := Metrics NeptunMetricKey

/-- The part of `process_delivery_statuses` that counts. -/
def NeptunMetrics.processDeliveryStatuses : NeptunMetrics → DeliveryStatuses → NeptunMetrics
  | m, [] => m
  | m, (_, status) :: statuses =>
    let m := match status with
      | .ack => m.inc .packetAcks 1
      | .drop => m.inc .packetDrops 1
    processDeliveryStatuses m statuses

theorem NeptunMetrics.processDeliveryStatuses_append (m : NeptunMetrics)
    (first second : DeliveryStatuses) :
    processDeliveryStatuses m (first ++ second)
      = processDeliveryStatuses (processDeliveryStatuses m first) second := by
  induction first generalizing m with
  | nil => rfl
  | cons s first ih =>
    obtain ⟨id, status⟩ := s
    exact ih _

/-- An endpoint with its metrics, the number of packets it has sent, and the statuses it has
processed and those it has not. -/
structure Metered where
  endpoint : Endpoint
  metrics : NeptunMetrics := {}
  sent : ℕ := 0
  processed : DeliveryStatuses := []
  unprocessed : DeliveryStatuses := []

namespace Metered

/-- One call of `process_delivery_statuses`, as far as the metrics go. -/
def process (m : Metered) (statuses : DeliveryStatuses) : Metered :=
  { m with
    metrics := NeptunMetrics.processDeliveryStatuses m.metrics statuses
    processed := m.processed ++ statuses }

/-- A tick processes the timeouts of every peer and then the statuses of the datagram. -/
def tick (m : Metered) (now : ℤ) (incoming : Option (IpAddress × List UInt8)) : Metered :=
  let result := (m.endpoint.tick now incoming).val
  let m := { m with
    endpoint := result.1
    sent := m.sent + result.2.sent.length }
  let m := result.2.dropped.foldl (fun m dropped => m.process dropped.2) m
  match result.2.read with
  | none => m
  | some (_, report) =>
    if report.accepted then m.process report.statuses
    else { m with unprocessed := m.unprocessed ++ report.statuses }

def next (m : Metered) : EndpointCall → Metered
  | .tick now incoming => m.tick now incoming
  | call => { m with endpoint := m.endpoint.next call }

end Metered

/-- The runs of an endpoint with its metrics. -/
def metered (config : ConnectionManagerConfig) (packetTimeout : ℤ) :
    System Metered EndpointCall where
  init m := m = { endpoint := {
    packetTimeout := packetTimeout
    connectionManagerConfig := config } }
  enabled _ _ := True
  next := Metered.next

/-! ### Sums over the peers -/

namespace PeerMap

variable {peers : PeerMap} {ip : IpAddress} {p q : Peer}

def total (f : Peer → ℕ) (peers : PeerMap) : ℕ := (peers.map fun e => f e.2).sum

theorem total_insert (f : Peer → ℕ) (peers : PeerMap) (ip : IpAddress) (p : Peer) :
    (peers.insert ip p).total f = f p + peers.total f := by
  induction peers with
  | nil => rfl
  | cons e peers ih =>
    obtain ⟨key, q⟩ := e
    rw [insert]
    split
    · rfl
    · rw [total, total] at ih
      rw [total, total, List.map_cons, List.map_cons, List.sum_cons, List.sum_cons, ih]
      omega

theorem total_update (f : Peer → ℕ) (hp : peers.find ip = some p) (q : Peer) :
    (peers.update ip q).total f + f p = peers.total f + f q := by
  induction peers with
  | nil => cases hp
  | cons e peers ih =>
    obtain ⟨key, first⟩ := e
    rw [find] at hp
    rw [update]
    split at hp
    · next hkey =>
      cases hp
      rw [if_pos hkey, total, total, List.map_cons, List.map_cons, List.sum_cons, List.sum_cons]
      dsimp only
      omega
    · next hkey =>
      have htail := ih hp
      rw [total, total] at htail
      rw [if_neg hkey, total, total, List.map_cons, List.map_cons, List.sum_cons, List.sum_cons]
      omega

end PeerMap

/-! ### Packets in flight -/

namespace Peer

/-- The number of packets that wait for their statuses. -/
def inFlight (p : Peer) : ℕ := p.packetDeliveryManager.inFlightPackets.length

theorem inFlight_eq_ids (p : Peer) : p.inFlight = p.packetDeliveryManager.ids.length :=
  List.length_map _ |>.symm

theorem inFlight_dropOldPackets (p : Peer) (now : ℤ) :
    (p.dropOldPackets now).val.2.length + (p.dropOldPackets now).val.1.inFlight = p.inFlight := by
  have hids := congrArg List.length (p.packetDeliveryManager.dropOldPackets_ids now)
  rw [List.length_append, List.length_map, ← Peer.dropOldPackets_delivery] at hids
  rw [inFlight_eq_ids, inFlight_eq_ids]
  exact hids

/-- A datagram takes the packets whose statuses it brings out of flight, also where it is
ignored. -/
theorem inFlight_read (config : ConnectionManagerConfig) (p : Peer) (b : Span) (mem : Memory) :
    (p.read config b mem).val.2.statuses.length + (p.read config b mem).val.1.inFlight
      = p.inFlight := by
  have hids := congrArg List.length
    (p.packetDeliveryManager.processRead_ids (PacketHeader.read b mem).val)
  rw [List.length_append, List.length_map, ← Peer.read_delivery config p b mem,
    ← (Peer.read_report config p b mem).2.2] at hids
  rw [inFlight_eq_ids, inFlight_eq_ids]
  exact hids

theorem inFlight_write (config : ConnectionManagerConfig) (p : Peer) (mem : Memory) (now : ℤ) :
    (p.write config mem now).val.1.inFlight
      = p.inFlight + (p.write config mem now).val.2.2.toList.length := by
  rcases Peer.write_cases config p mem now with hval | ⟨-, hval⟩
  · rw [hval]
    rfl
  · rw [hval]
    dsimp only
    rw [inFlight, (Peer.writeToPeer_frame _ mem now _).1, PacketDeliveryManager.nextHeader_frame]
    exact List.length_append

end Peer

namespace Endpoint

open PeerMap

/-- The number of packets that wait for their statuses, over all peers. -/
def inFlight (n : Endpoint) : ℕ := n.peers.total Peer.inFlight

/-- A new entry has nothing in flight. -/
theorem inFlight_findOrCreatePeer (n : Endpoint) (ip : IpAddress) (now : ℤ) (q : Peer) :
    ((n.findOrCreatePeer 0 ip now).1.peers.update ip q).total Peer.inFlight
        + (n.findOrCreatePeer 0 ip now).2.inFlight
      = n.inFlight + q.inFlight := by
  rw [total_update _ (n.find_findOrCreatePeer 0 ip now), findOrCreatePeer]
  cases hfind : n.peers.find ip with
  | some p => rfl
  | none =>
    dsimp only
    rw [total_insert]
    exact congrArg (· + _) (Nat.zero_add _)

theorem inFlight_dropOldPackets (now : ℤ) (peers : PeerMap) :
    ((dropOldPackets now peers).val.2.map fun dropped => dropped.2.length).sum
        + (dropOldPackets now peers).val.1.total Peer.inFlight
      = peers.total Peer.inFlight := by
  induction peers with
  | nil => rfl
  | cons e peers ih =>
    obtain ⟨ip, p⟩ := e
    have hpeer := p.inFlight_dropOldPackets now
    rw [total, total] at ih
    rw [dropOldPackets]
    simp only [Checked.val_bind, Checked.val_pure, total, List.map_cons, List.sum_cons]
    omega

theorem inFlight_write (config : ConnectionManagerConfig) (now : ℤ) (peers : PeerMap)
    (mem : Memory) :
    (write config now peers mem).val.1.total Peer.inFlight
      = peers.total Peer.inFlight + (write config now peers mem).val.2.2.length := by
  induction peers generalizing mem with
  | nil => rfl
  | cons e peers ih =>
    obtain ⟨ip, p⟩ := e
    have hpeer := Peer.inFlight_write config p mem now
    have hrest := ih (p.write config mem now).val.2.1
    rw [total, total] at hrest
    rw [write]
    simp only [Checked.val_bind, Checked.val_pure, total, List.map_cons, List.sum_cons,
      List.length_append, List.length_map, hpeer, hrest]
    ac_rfl

theorem inFlight_read (n : Endpoint) (now : ℤ) (incoming : Option (IpAddress × List UInt8)) :
    ((n.read now incoming).val.2.map fun read => read.2.statuses.length).getD 0
        + (n.read now incoming).val.1.inFlight
      = n.inFlight := by
  cases incoming with
  | none => exact Nat.zero_add _
  | some datagram =>
    obtain ⟨sender, payload⟩ := datagram
    rw [(n.read_some now sender payload).1, Option.map_some, Option.getD_some]
    -- The entry that was found or created is replaced by what it becomes.
    have hpeer := Peer.inFlight_read n.connectionManagerConfig (n.findOrCreatePeer 0 sender now).2
      ⟨0, (payload.take kJustAboveMtu).length⟩
      (n.networkBuffer.storeList 0 (payload.take kJustAboveMtu))
    have htotal := n.inFlight_findOrCreatePeer sender now
      ((n.findOrCreatePeer 0 sender now).2.read n.connectionManagerConfig
        ⟨0, (payload.take kJustAboveMtu).length⟩
        (n.networkBuffer.storeList 0 (payload.take kJustAboveMtu))).val.1
    rw [inFlight]
    dsimp only
    omega

/-- A tick settles some packets and sends new ones. -/
theorem inFlight_tick (n : Endpoint) (now : ℤ) (incoming : Option (IpAddress × List UInt8)) :
    let result := (n.tick now incoming).val
    (result.2.dropped.map fun dropped => dropped.2.length).sum
        + (result.2.read.map fun read => read.2.statuses.length).getD 0 + result.1.inFlight
      = n.inFlight + result.2.sent.length := by
  intro result
  let dropped : Endpoint := { n with peers := (dropOldPackets now n.peers).val.1 }
  have hdropped : (result.2.dropped.map fun dropped => dropped.2.length).sum + dropped.inFlight
      = n.inFlight := inFlight_dropOldPackets now n.peers
  have hread : (result.2.read.map fun read => read.2.statuses.length).getD 0
      + (dropped.read now incoming).val.1.inFlight = dropped.inFlight :=
    dropped.inFlight_read now incoming
  have hwrite : result.1.inFlight
      = (dropped.read now incoming).val.1.inFlight + result.2.sent.length :=
    inFlight_write _ now _ _
  omega

/-- Connecting and sending leave the packets in flight alone. -/
theorem inFlight_next (n : Endpoint) {call : EndpointCall}
    (hcall : ∀ now incoming, call ≠ .tick now incoming) :
    (n.next call).inFlight = n.inFlight := by
  have hupdate : ∀ ip now q, q.inFlight = (n.findOrCreatePeer 0 ip now).2.inFlight →
      ((n.findOrCreatePeer 0 ip now).1.peers.update ip q).total Peer.inFlight = n.inFlight := by
    intro ip now q hq
    have hsum := n.inFlight_findOrCreatePeer ip now q
    omega
  cases call with
  | connect ip now =>
    refine hupdate ip now _ ?_
    rfl
  | sendReliableTo ip fn now =>
    refine hupdate ip now _ ?_
    rfl
  | sendUnreliableTo ip fn now =>
    refine hupdate ip now _ ?_
    rfl
  | tick now incoming => exact absurd rfl (hcall now incoming)

end Endpoint

/-! ### Counting -/

/-- The counters count the statuses. -/
theorem NeptunMetrics.value_processDeliveryStatuses (m : NeptunMetrics)
    (statuses : DeliveryStatuses) :
    (processDeliveryStatuses m statuses).value .packetAcks
        = m.value .packetAcks + UInt64.ofNat (statuses.countP fun s => s.2 = .ack) ∧
      (processDeliveryStatuses m statuses).value .packetDrops
        = m.value .packetDrops + UInt64.ofNat (statuses.countP fun s => s.2 = .drop) := by
  induction statuses generalizing m with
  | nil => exact ⟨(UInt64.add_zero _).symm, (UInt64.add_zero _).symm⟩
  | cons s statuses ih =>
    obtain ⟨id, status⟩ := s
    cases status with
    | ack =>
      obtain ⟨hacks, hdrops⟩ := ih (m.inc .packetAcks 1)
      refine ⟨hacks.trans ?_, hdrops⟩
      rw [Metrics.value_inc, if_pos rfl, List.countP_cons_of_pos (by rfl), UInt64.ofNat_add,
        UInt64.add_assoc, UInt64.add_comm (UInt64.ofNat _)]
      rfl
    | drop =>
      obtain ⟨hacks, hdrops⟩ := ih (m.inc .packetDrops 1)
      refine ⟨hacks, hdrops.trans ?_⟩
      rw [Metrics.value_inc, if_pos rfl, List.countP_cons_of_pos (by rfl), UInt64.ofNat_add,
        UInt64.add_assoc, UInt64.add_comm (UInt64.ofNat _)]
      rfl

theorem countP_ack_add_countP_drop (statuses : DeliveryStatuses) :
    (statuses.countP fun s => s.2 = .ack) + (statuses.countP fun s => s.2 = .drop)
      = statuses.length := by
  rw [List.length_eq_countP_add_countP fun s : PacketId × PacketDeliveryStatus => s.2 = .ack]
  congr 2
  funext s
  cases s.2 <;> rfl

namespace Metered

/-- The counters hold the statuses that were processed, and every packet that was sent has
been processed, had its status ignored, or is in flight. -/
structure Accounted (m : Metered) : Prop where
  metrics : m.metrics = NeptunMetrics.processDeliveryStatuses {} m.processed
  packets : m.processed.length + m.unprocessed.length + m.endpoint.inFlight = m.sent

theorem process_metrics {m : Metered}
    (h : m.metrics = NeptunMetrics.processDeliveryStatuses {} m.processed)
    (statuses : DeliveryStatuses) :
    (m.process statuses).metrics
      = NeptunMetrics.processDeliveryStatuses {} (m.process statuses).processed := by
  simp only [process]
  rw [h, NeptunMetrics.processDeliveryStatuses_append]

/-- The timeouts of all peers are processed one peer after the other. -/
theorem foldl_process (dropped : List (IpAddress × DeliveryStatuses)) (m : Metered) :
    dropped.foldl (fun m dropped => m.process dropped.2) m
      = m.process (dropped.flatMap Prod.snd) := by
  induction dropped generalizing m with
  | nil =>
    rw [List.foldl_nil, List.flatMap_nil, process, List.append_nil]
    rfl
  | cons d dropped ih =>
    rw [List.foldl_cons, ih, List.flatMap_cons]
    simp only [process, List.append_assoc, NeptunMetrics.processDeliveryStatuses_append]

theorem Accounted.tick {m : Metered} (h : m.Accounted) (now : ℤ)
    (incoming : Option (IpAddress × List UInt8)) : (m.tick now incoming).Accounted := by
  have hpackets := h.packets
  have hinFlight := m.endpoint.inFlight_tick now incoming
  have hdropped : ((m.endpoint.tick now incoming).val.2.dropped.flatMap Prod.snd).length
      = ((m.endpoint.tick now incoming).val.2.dropped.map fun dropped => dropped.2.length).sum := by
    rw [List.length_flatMap]
  dsimp only at hinFlight
  rw [Metered.tick]
  simp only [foldl_process]
  cases hread : (m.endpoint.tick now incoming).val.2.read with
  | none =>
    rw [hread] at hinFlight
    refine ⟨process_metrics h.metrics _, ?_⟩
    simp only [process, List.length_append, Option.map_none, Option.getD_none] at hinFlight ⊢
    omega
  | some read =>
    obtain ⟨sender, report⟩ := read
    rw [hread] at hinFlight
    dsimp only
    split
    · refine ⟨process_metrics (process_metrics h.metrics _) _, ?_⟩
      simp only [process, List.length_append, Option.map_some, Option.getD_some] at hinFlight ⊢
      omega
    · refine ⟨process_metrics h.metrics _, ?_⟩
      simp only [process, List.length_append, Option.map_some, Option.getD_some] at hinFlight ⊢
      omega

theorem Accounted.next {m : Metered} (h : m.Accounted) (call : EndpointCall) :
    (m.next call).Accounted := by
  have hother : ∀ call, (∀ now incoming, call ≠ .tick now incoming) →
      Accounted { m with endpoint := m.endpoint.next call } := by
    intro call hcall
    refine ⟨h.metrics, ?_⟩
    rw [m.endpoint.inFlight_next hcall]
    exact h.packets
  cases call with
  | tick now incoming => exact h.tick now incoming
  | connect ip now => exact hother _ (by simp)
  | sendReliableTo ip fn now => exact hother _ (by simp)
  | sendUnreliableTo ip fn now => exact hother _ (by simp)

theorem accounted_of_reachable {config : ConnectionManagerConfig} {packetTimeout : ℤ}
    {m : Metered} (hm : (metered config packetTimeout).Reachable System.anyAction m) :
    m.Accounted := by
  refine hm.invariant ?_ fun m call _ h _ _ => h.next call
  intro m hinit
  obtain rfl : m = _ := hinit
  exact ⟨rfl, rfl⟩

end Metered

/-- In every run the two counters hold the numbers of the acknowledged and of the lost packets
whose statuses were processed, and together with the packets in flight and those whose
statuses were ignored these are all the packets that were sent. -/
theorem metrics_account {config : ConnectionManagerConfig} {packetTimeout : ℤ} {m : Metered}
    (hm : (metered config packetTimeout).Reachable System.anyAction m)
    (hsent : m.sent < 2 ^ 64) :
    (m.metrics.value .packetAcks).toNat = m.processed.countP (fun s => s.2 = .ack) ∧
      (m.metrics.value .packetDrops).toNat = m.processed.countP (fun s => s.2 = .drop) ∧
      (m.metrics.value .packetAcks).toNat + (m.metrics.value .packetDrops).toNat
        + m.unprocessed.length + m.endpoint.inFlight = m.sent := by
  have haccounted := Metered.accounted_of_reachable hm
  have hpackets := haccounted.packets
  have hcount := countP_ack_add_countP_drop m.processed
  obtain ⟨hacks, hdrops⟩ := NeptunMetrics.value_processDeliveryStatuses {} m.processed
  have hack : (m.metrics.value .packetAcks).toNat = m.processed.countP (fun s => s.2 = .ack) := by
    rw [haccounted.metrics, hacks, show Metrics.value ({} : NeptunMetrics) .packetAcks = 0 from rfl,
      UInt64.zero_add]
    exact UInt64.toNat_ofNat_of_lt' (show _ < 2 ^ 64 by omega)
  have hdrop : (m.metrics.value .packetDrops).toNat
      = m.processed.countP (fun s => s.2 = .drop) := by
    rw [haccounted.metrics, hdrops,
      show Metrics.value ({} : NeptunMetrics) .packetDrops = 0 from rfl, UInt64.zero_add]
    exact UInt64.toNat_ofNat_of_lt' (show _ < 2 ^ 64 by omega)
  exact ⟨hack, hdrop, by omega⟩

/-- Two packets are acknowledged, the second by a datagram that comes again and is ignored, and
the third one is lost. -/
theorem metrics_account_with_ignored_status :
    let ip : IpAddress := ⟨2, 7000⟩
    let datagram := fun acked => some (ip, (PacketHeader.mk 0 acked 1).encode)
    let m := (metered ⟨0, ⟨0, 1400, 0, 1400⟩⟩ 1).runFrom { endpoint := {
        packetTimeout := 1
        connectionManagerConfig := ⟨0, ⟨0, 1400, 0, 1400⟩⟩ } }
      [.connect ip 0, .tick 0 none, .tick 1 (datagram 0), .tick 2 (datagram 1),
        .tick 3000000 none]
    (m.metrics.value .packetAcks).toNat + (m.metrics.value .packetDrops).toNat
        + m.unprocessed.length + m.endpoint.inFlight = m.sent ∧
      m.metrics.value .packetAcks = 1 ∧ m.metrics.value .packetDrops = 1 ∧
      m.unprocessed = [(1, .ack)] ∧ m.endpoint.inFlight = 1 := by
  intro ip datagram m
  refine ⟨(metrics_account (System.runFrom_reachable (.init rfl)
    (System.runOk_anyAction (fun _ _ => trivial) _ _)) ?_).2.2, ?_⟩
  · decide
  · decide

end Neptun
