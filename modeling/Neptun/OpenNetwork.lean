/-
Two endpoints among strangers.

In the `network` of `World.lean` all datagrams come from the two endpoints.  Here
anybody may send anything to them: a tick may find any bytes from any address, and only
from the address of the other endpoint what this endpoint has sent, in any order and any
number of times.

* `openNetwork_simulates_link` — what the endpoints have to do with each other is a run
  of a `link`;
* `delivery_among_strangers` — reliable messages are delivered in order and without a gap,
  unreliable ones in order and at most once.
-/
import Neptun.Link

namespace Neptun

/-- The runs of two endpoints that anybody may send to. -/
def openNetwork (setup : Setup) : System (Side → Observed) (Side × EndpointCall) where
  init s := s = fun side => { endpoint := {
    packetTimeout := setup.packetTimeout side
    connectionManagerConfig := setup.config side } }
  enabled s call := match call.2 with
    | .tick _ (some (sender, payload)) => sender = setup.address call.1.other →
      payload ∈ ((s call.1.other).history (setup.address call.1)).packets
    | _ => True
  next s call := Side.set s call.1 ((s call.1).next call.2)

/-- What the endpoints have to do with each other. -/
def linkOf (setup : Setup) (s : Side → Observed) (side : Side) : PeerNode :=
  (s side).node (setup.address side.other)

/-- The entries of the endpoints are distinct, and the endpoints keep their setup. -/
structure Hosted (setup : Setup) (s : Side → Observed) : Prop where
  distinct : ∀ side, (s side).endpoint.Distinct
  config : ∀ side, (s side).endpoint.connectionManagerConfig = setup.config side
  packetTimeout : ∀ side, (s side).endpoint.packetTimeout = setup.packetTimeout side

theorem Hosted.next {setup : Setup} {s : Side → Observed} (h : Hosted setup s) (side : Side)
    (call : EndpointCall) : Hosted setup (Side.set s side ((s side).next call)) := by
  refine ⟨fun x => ?_, fun x => ?_, fun x => ?_⟩ <;> by_cases hx : x = side
  · rw [hx, Side.set_self]
    exact (h.distinct side).next call
  · rw [Side.set, if_neg hx]
    exact h.distinct x
  · rw [hx, Side.set_self]
    exact ((s side).endpoint.next_config call).trans (h.config side)
  · rw [Side.set, if_neg hx]
    exact h.config x
  · rw [hx, Side.set_self]
    exact ((s side).endpoint.next_packetTimeout call).trans (h.packetTimeout side)
  · rw [Side.set, if_neg hx]
    exact h.packetTimeout x

theorem hosted_of_reachable {setup : Setup} {s : Side → Observed}
    (h : (openNetwork setup).Reachable System.anyAction s) : Hosted setup s := by
  refine h.invariant (P := Hosted setup) (fun s hs => ?_) (fun s call _ ih _ _ =>
    ih.next call.1 call.2)
  rw [hs]
  exact ⟨fun _ => List.nodup_nil, fun _ => rfl, fun _ => rfl⟩

theorem EndpointCall.about_eq_tick {ip : IpAddress} {call : EndpointCall} {now : ℤ}
    {packet : List UInt8} {readBuffer writeBuffer readBuffer' writeBuffer' : Memory}
    (h : call.about ip readBuffer writeBuffer
      = some (.tick now (some packet) readBuffer' writeBuffer')) :
    call = .tick now (some (ip, packet)) := by
  cases call with
  | connect target now => simp [about] at h
  | sendReliableTo target fn now => simp [about] at h
  | sendUnreliableTo target fn now => simp [about] at h
  | tick now incoming =>
    simp only [about, Option.some.injEq, PeerCall.tick.injEq] at h
    obtain ⟨rfl, hreceived, -, -⟩ := h
    obtain ⟨⟨sender, payload⟩, rfl, hpayload⟩ := Option.bind_eq_some_iff.mp hreceived
    split at hpayload
    · next hsender =>
      rw [← hsender, ← Option.some_inj.mp hpayload]
    · cases hpayload

/-- **The open network simulates a link**: strangers do not matter. -/
theorem openNetwork_simulates_link {setup : Setup} {s : Side → Observed}
    (h : (openNetwork setup).Reachable System.anyAction s) :
    (link setup).Reachable System.anyAction (linkOf setup s) := by
  refine h.simulate (linkOf setup) (fun s hs => ?_) fun s call hs hen _ => ?_
  · rw [hs]
    rfl
  · obtain ⟨side, call⟩ := call
    obtain ⟨hdistinct, hconfig, htimeout⟩ := hosted_of_reachable hs
    obtain ⟨writeBuffer, hnode⟩ := Observed.node_next (hdistinct side)
      (setup.address side.other) call
    rw [hconfig, htimeout] at hnode
    have hset : linkOf setup ((openNetwork setup).next s (side, call)) = Side.set
        (linkOf setup s) side (((s side).next call).node (setup.address side.other)) := by
      funext x
      show (Side.set s side _ x).node _ = _
      by_cases hx : x = side
      · rw [hx, Side.set_self, Side.set_self]
      · rw [Side.set, if_neg hx, Side.set, if_neg hx]
        rfl
    rw [hset, hnode]
    cases habout : call.about (setup.address side.other) (s side).endpoint.networkBuffer
        writeBuffer with
    | none =>
      refine Or.inl ?_
      funext x
      by_cases hx : x = side
      · rw [hx, Side.set_self]
        rfl
      · rw [Side.set, if_neg hx]
    | some peerCall =>
      refine Or.inr ⟨(side, peerCall), ?_, rfl⟩
      -- only a tick that reads needs permission
      cases peerCall with
      | connect now => trivial
      | sendReliable fn now => trivial
      | sendUnreliable fn now => trivial
      | tick now incoming readBuffer writeBuffer =>
        cases incoming with
        | none => trivial
        | some packet =>
          rw [EndpointCall.about_eq_tick habout] at hen
          have hpacket : packet ∈ ((s side.other).history (setup.address side)).packets := hen rfl
          show packet ∈ ((s side.other).history (setup.address side.other.other)).packets
          rw [Side.other_other]
          exact hpacket

/-- What the two sides of a link have received from each other. -/
theorem LinkSound.delivered {setup : Setup} {s : Side → Observed} {t : Side → List PacketContent}
    (ht : LinkSound setup (linkOf setup s) t) (side : Side) :
    let sender := (s side).history (setup.address side.other)
    let receiver := (s side.other).history (setup.address side)
    receiver.reliableReceived = sender.reliableSent.take receiver.reliableReceived.length ∧
      receiver.unreliableReceived.Sublist sender.unreliableSent := by
  have hsending := (ht side).sending 0
  have hreceiving := (ht side.other).receiving 0
  rw [Side.other_other] at hreceiving
  have hhistory : (linkOf setup s side.other).history
      = (s side.other).history (setup.address side) := by
    rw [linkOf, Side.other_other]
    rfl
  rw [hhistory] at hreceiving
  refine ⟨hreceiving.received, (hreceiving.unreliable.trans ?_).trans hsending.accepted⟩
  exact (List.Sublist.flatMap (List.take_sublist _ _) _).trans (List.sublist_append_left _ _)

/-- **Delivery among strangers.**  Whatever anybody else sends to the endpoints, what one
of them has received from the other one are the first reliable messages that were accepted
there, and a subsequence of the unreliable ones. -/
theorem delivery_among_strangers {setup : Setup}
    (hrobust : ∀ side, (setup.config side).limit.Robust) {s : Side → Observed}
    (h : (openNetwork setup).Reachable System.anyAction s)
    (hcount : ∀ side : Side, let history := (s side).history (setup.address side.other)
      history.packets.length < 2 ^ 32 ∧ history.reliableSent.length < 2 ^ 32) (side : Side) :
    let sender := (s side).history (setup.address side.other)
    let receiver := (s side.other).history (setup.address side)
    receiver.reliableReceived = sender.reliableSent.take receiver.reliableReceived.length ∧
      receiver.unreliableReceived.Sublist sender.unreliableSent := by
  obtain ⟨t, ht⟩ := link_sound hrobust (openNetwork_simulates_link h) hcount
  exact ht.delivered side

/-- A stranger sends what one of the endpoints has sent, before the other one reads it. -/
theorem delivery_among_strangers_copied :
    let setup := Setup.alike ⟨0, ⟨0, 1400, 0, 1400⟩⟩ 5000
    let request := [0, 0, 0, 0, 0, 0, 0, 0, 0, 0, 0, 0, 0, 1, 0, 0, 0, 0, 5, 120, 5]
    let response := [0, 0, 0, 0, 0, 0, 0, 0, 0, 0, 0, 1, 0, 1, 0, 0, 0, 0, 5, 120, 5]
    let messages := [0, 0, 0, 2, 0, 0, 0, 0, 0, 0, 0, 0, 3, 1, 0, 0, 0, 0, 0, 2, 1, 2, 4, 1, 0, 1,
      3]
    let s := (openNetwork setup).runFrom (fun side => { endpoint := {
        packetTimeout := setup.packetTimeout side
        connectionManagerConfig := setup.config side } })
      [(.a, .connect ⟨2, 1⟩ 0), (.a, .tick 0 none), (.b, .tick 1 (some (⟨1, 1⟩, request))),
        (.a, .tick 2 (some (⟨2, 1⟩, response))), (.a, .sendReliableTo ⟨2, 1⟩ (.ofBytes [1, 2]) 3),
        (.a, .sendUnreliableTo ⟨2, 1⟩ (.ofBytes [3]) 3), (.a, .tick 3 none),
        (.b, .tick 4 (some (⟨9, 9⟩, messages))), (.b, .tick 5 (some (⟨1, 1⟩, messages)))]
    let sender := (s .a).history ⟨2, 1⟩
    let receiver := (s .b).history ⟨1, 1⟩
    (receiver.reliableReceived, receiver.unreliableReceived) = ([[1, 2]], [[3]]) ∧
      receiver.reliableReceived = sender.reliableSent.take receiver.reliableReceived.length ∧
      receiver.unreliableReceived.Sublist sender.unreliableSent := by
  refine ⟨by decide +kernel, ?_⟩
  have hrobust : BandwidthLimit.Robust ⟨0, 1400, 0, 1400⟩ := by decide
  refine @delivery_among_strangers (Setup.alike ⟨0, ⟨0, 1400, 0, 1400⟩⟩ 5000) (fun _ => hrobust) _
    (System.runFrom_reachable (.init rfl) ?_) ?_ .a
  · refine ⟨trivial, trivial, trivial, trivial, fun _ => ?_, trivial, fun _ => ?_, trivial, trivial,
      trivial, trivial, trivial, trivial, trivial, fun hstranger => ?_, trivial, fun _ => ?_,
      trivial, trivial⟩
    · show [0, 0, 0, 0, 0, 0, 0, 0, 0, 0, 0, 0, 0, 1, 0, 0, 0, 0, 5, 120, 5] ∈ _
      decide +kernel
    · show [0, 0, 0, 0, 0, 0, 0, 0, 0, 0, 0, 1, 0, 1, 0, 0, 0, 0, 5, 120, 5] ∈ _
      decide +kernel
    · cases hstranger
    · show [0, 0, 0, 2, 0, 0, 0, 0, 0, 0, 0, 0, 3, 1, 0, 0, 0, 0, 0, 2, 1, 2, 4, 1, 0, 1, 3] ∈ _
      decide +kernel
  · intro side
    cases side <;> decide +kernel

end Neptun
