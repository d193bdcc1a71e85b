/-
Two endpoints and the network between them.

The network keeps every datagram that was ever sent: a tick may read any of
those addressed to its endpoint, or none.  This is a network that loses,
duplicates, delays and reorders datagrams in any way, but neither alters nor
forges them.  Actions of the two endpoints are interleaved freely; an endpoint
may also connect to addresses at which nobody listens.

A `World` also keeps a log of what the calls did, so that statements can speak
about the past of a run.
-/
import Neptun.Endpoint
import Neptun.Library.System

namespace Neptun

/-- The two endpoints. -/
inductive Side
  | a
  | b
  deriving DecidableEq, Repr

/-- A packet on the network. -/
structure Datagram where
  sender : IpAddress
  receiver : IpAddress
  packet : Packet
  deriving DecidableEq, Repr

/-- The calls a user makes; a tick comes with the datagram it finds at the
socket. -/
inductive Action
  | connect (ip : IpAddress) (now : ℤ)
  | sendReliableTo (ip : IpAddress) (fn : WriteToBufferFn) (now : ℤ)
  | sendUnreliableTo (ip : IpAddress) (fn : WriteToBufferFn) (now : ℤ)
  | tick (now : ℤ) (incoming : Option Datagram)

/-- One call: who made it, the datagram it found, its report and the run-time
obligations it broke. -/
structure LogEntry where
  side : Side
  incoming : Option Datagram := none
  report : TickReport := {}
  faults : List Fault := []

/-- The addresses and the constructor arguments of the two endpoints. -/
structure Setup where
  address : Side → IpAddress
  config : Side → ConnectionManagerConfig
  packetTimeout : Side → ℤ
  address_ne : address .a ≠ address .b

theorem Setup.address_injective (setup : Setup) {s s' : Side}
    (h : setup.address s = setup.address s') : s = s' := by
  cases s <;> cases s'
  · rfl
  · exact absurd h setup.address_ne
  · exact absurd h.symm setup.address_ne
  · rfl

/-- Two endpoints that are set up alike. -/
def Setup.alike (config : ConnectionManagerConfig) (packetTimeout : ℤ) : Setup where
  address
    | .a => ⟨1, 1⟩
    | .b => ⟨2, 1⟩
  config _ := config
  packetTimeout _ := packetTimeout
  address_ne := by decide

structure World where
  endpoint : Side → Endpoint
  sent : List Datagram := []
  log : List LogEntry := []

namespace World

def init (setup : Setup) : World where
  endpoint side := {
    packetTimeout := setup.packetTimeout side
    connectionManagerConfig := setup.config side }

/-- Replace one endpoint and extend the network and the log. -/
def extend (w : World) (side : Side) (n : Endpoint) (sent : List Datagram) (entry : LogEntry) :
    World where
  endpoint s := if s = side then n else w.endpoint s
  sent := w.sent ++ sent
  log := w.log ++ [entry]

/-- The datagrams of the packets that a tick has sent. -/
def datagrams (setup : Setup) (side : Side) (report : TickReport) : List Datagram :=
  report.sent.map fun sent => ⟨setup.address side, sent.1, sent.2⟩

def next (setup : Setup) (w : World) (call : Side × Action) : World :=
  let side := call.1
  let n := w.endpoint side
  match call.2 with
  | .connect ip now => w.extend side (n.connect ip now) [] { side := side }
  | .sendReliableTo ip fn now =>
    let result := n.sendReliableTo ip fn now
    w.extend side result.val [] { side := side, faults := result.faults }
  | .sendUnreliableTo ip fn now =>
    let result := n.sendUnreliableTo ip fn now
    w.extend side result.val [] { side := side, faults := result.faults }
  | .tick now incoming =>
    let result := n.tick now (incoming.map fun dg => (dg.sender, dg.packet.payload))
    w.extend side result.val.1 (datagrams setup side result.val.2)
      ⟨side, incoming, result.val.2, result.faults⟩

/-- A tick reads a datagram that was sent to it; messages are sent to connected
peers only. -/
def Enabled (setup : Setup) (w : World) (call : Side × Action) : Prop :=
  match call.2 with
  | .connect _ _ => True
  | .sendReliableTo ip _ _ => (w.endpoint call.1).isConnected ip
  | .sendUnreliableTo ip _ _ => (w.endpoint call.1).isConnected ip
  | .tick _ incoming => ∀ dg ∈ incoming, dg ∈ w.sent ∧ dg.receiver = setup.address call.1

instance (setup : Setup) (w : World) (call : Side × Action) : Decidable (Enabled setup w call) :=
  match call with
  | (_, .connect _ _) => isTrue trivial
  | (side, .sendReliableTo ip _ _) =>
    inferInstanceAs (Decidable ((w.endpoint side).isConnected ip = true))
  | (side, .sendUnreliableTo ip _ _) =>
    inferInstanceAs (Decidable ((w.endpoint side).isConnected ip = true))
  | (side, .tick _ incoming) =>
    inferInstanceAs (Decidable (∀ dg ∈ incoming, dg ∈ w.sent ∧ dg.receiver = setup.address side))

@[simp] theorem extend_endpoint_self (w : World) (side : Side) (n : Endpoint)
    (sent : List Datagram) (entry : LogEntry) :
    (w.extend side n sent entry).endpoint side = n := if_pos rfl

theorem extend_endpoint_of_ne {w : World} {side s : Side} {n : Endpoint}
    {sent : List Datagram} {entry : LogEntry} (h : s ≠ side) :
    (w.extend side n sent entry).endpoint s = w.endpoint s := if_neg h

end World

/-- The runs of two endpoints over the network. -/
def network (setup : Setup) : System World (Side × Action) where
  init w := w = World.init setup
  enabled := World.Enabled setup
  next := World.next setup

instance (setup : Setup) (w : World) (call : Side × Action) :
    Decidable ((network setup).enabled w call) :=
  inferInstanceAs (Decidable (World.Enabled setup w call))

end Neptun
