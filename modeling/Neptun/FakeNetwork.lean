/-
`FakeNetwork`: the network of the tests.

Sockets are numbered, and bound to addresses for good.  What is sent waits in a queue
of its destination, whether a socket is bound to it or not; a flag drops all packets on
their way.  A map that is only asked for entries that it then creates is a function.
The printing of packets is left out.

A call that throws leaves the network alone; its result is the text of the exception.

* `fakeNetwork` — the runs of a network, with the packets that were put into every
  queue and those that were taken out;
* `bindings_and_queues` — sockets and addresses belong to each other, and queues lose,
  alter and reorder nothing.
-/
import Neptun.AddressText
import Neptun.Library.System

namespace Neptun

structure FileDescriptor where
  value : ℤ
  deriving DecidableEq, Repr

structure PendingPacket where
  sender : IpAddress
  payload : List UInt8
  deriving DecidableEq, Repr

structure Stats where
  numSentPackets : UInt64 := 0
  numReadPackets : UInt64 := 0
  numSentBytes : UInt64 := 0
  numReadBytes : UInt64 := 0
  deriving DecidableEq, Repr

structure FakeNetwork where
  mtu : ℤ := 1400
  nextFd : ℤ := 0
  shouldDropPackets : Bool := false
  bindings : List (IpAddress × FileDescriptor) := []
  buffers : IpAddress → List PendingPacket := fun _ => []
  stats : IpAddress → Stats := fun _ => {}

/-- `std::to_string` of an `int`. -/
def intToText (n : ℤ) : List Char := if n < 0 then '-' :: toText n.natAbs else toText n.natAbs

namespace FakeNetwork

/-- `SocketPredicate`. -/
def isSocket (fd : FileDescriptor) (candidate : IpAddress × FileDescriptor) : Bool :=
  fd.value == candidate.2.value

/-- `IpAddressOrSocketPredicate`. -/
def isIpAddressOrSocket (fd : FileDescriptor) (ip : IpAddress)
    (candidate : IpAddress × FileDescriptor) : Bool :=
  ip.toString == candidate.1.toString || fd.value == candidate.2.value

def isSocketOpen (n : FakeNetwork) (fd : FileDescriptor) : Bool := fd.value < n.nextFd

def findIp (n : FakeNetwork) (fd : FileDescriptor) : Option IpAddress :=
  (n.bindings.find? (isSocket fd)).map Prod.fst

def isSocketBound (n : FakeNetwork) (fd : FileDescriptor) : Bool := (n.findIp fd).isSome

def udpSocketIpv4 (n : FakeNetwork) : FakeNetwork × FileDescriptor :=
  ({ n with nextFd := n.nextFd + 1 }, ⟨n.nextFd⟩)

def bind (n : FakeNetwork) (fd : FileDescriptor) (ip : IpAddress) :
    Except (List Char) FakeNetwork :=
  if ¬ n.isSocketOpen fd then
    .error ("Cannot bind unknown socket: ".toList ++ intToText fd.value)
  else
    match n.bindings.find? (isIpAddressOrSocket fd ip) with
    | some _ =>
      .error ("IP ".toList ++ ip.toString ++ " is already bound to a socket ".toList
        ++ intToText fd.value)
    | none => .ok { n with bindings := n.bindings ++ [(ip, fd)] }

/-- The packet in front of the queue, as much of it as fits into a buffer of the given
size. -/
def readFromSocket (n : FakeNetwork) (fd : FileDescriptor) (bufferSize : ℕ) :
    Except (List Char) (FakeNetwork × Option PendingPacket) :=
  match n.findIp fd with
  | none => .error ("Failed to read data from unbound socket: ".toList ++ intToText fd.value)
  | some ip =>
    match n.buffers ip with
    | [] => .ok (n, none)
    | packet :: packets =>
      let stats := { n.stats ip with
        numReadPackets := (n.stats ip).numReadPackets + 1
        numReadBytes := (n.stats ip).numReadBytes + UInt64.ofNat packet.payload.length }
      .ok ({ n with
          buffers := Function.update n.buffers ip packets
          stats := Function.update n.stats ip stats },
        some ⟨packet.sender, packet.payload.take bufferSize⟩)

/-- The first bytes of a payload, up to the `m_mtu` that is compared as an unsigned
number. -/
def truncate (n : FakeNetwork) (payload : List UInt8) : List UInt8 :=
  payload.take (n.mtu % 2 ^ 64).toNat

def sendTo (n : FakeNetwork) (senderFd : FileDescriptor) (ip : IpAddress)
    (payload : List UInt8) : Except (List Char) (FakeNetwork × ℕ) :=
  match n.findIp senderFd with
  | none =>
    .error ("Failed to send data via unbound socket: ".toList ++ intToText senderFd.value)
  | some sender =>
    let stats := { n.stats sender with
      numSentPackets := (n.stats sender).numSentPackets + 1
      numSentBytes := (n.stats sender).numSentBytes + UInt64.ofNat payload.length }
    let n := { n with stats := Function.update n.stats sender stats }
    if n.shouldDropPackets then
      .ok (n, payload.length)
    else
      .ok ({ n with buffers :=
        Function.update n.buffers ip (n.buffers ip ++ [⟨sender, n.truncate payload⟩]) },
        payload.length)

def dropPackets (n : FakeNetwork) (shouldDropPackets : Bool) : FakeNetwork :=
  { n with shouldDropPackets := shouldDropPackets }

def clearStats (n : FakeNetwork) : FakeNetwork := { n with stats := fun _ => {} }

end FakeNetwork

structure UdpSocket where
  fd : FileDescriptor
  ip : IpAddress
  deriving DecidableEq, Repr

/-- `UdpSocket::bind`.  A socket that cannot be bound stays open. -/
def UdpSocket.bind (ip : IpAddress) (n : FakeNetwork) :
    FakeNetwork × Except (List Char) UdpSocket :=
  let (n, fd) := n.udpSocketIpv4
  match n.bind fd ip with
  | .error e => (n, .error e)
  | .ok n => (n, .ok ⟨fd, ip⟩)

/-! ### Calls -/

theorem FileDescriptor.value_inj {fd fd' : FileDescriptor} : fd.value = fd'.value ↔ fd = fd' := by
  cases fd
  cases fd'
  simp

namespace FakeNetwork

variable {n n' : FakeNetwork} {fd fd' : FileDescriptor} {ip : IpAddress}

theorem isSocket_iff {candidate : IpAddress × FileDescriptor} :
    isSocket fd candidate = true ↔ candidate.2 = fd := by
  rw [isSocket, beq_iff_eq, FileDescriptor.value_inj, eq_comm]

theorem isIpAddressOrSocket_iff {candidate : IpAddress × FileDescriptor} :
    isIpAddressOrSocket fd ip candidate = true ↔ candidate.1 = ip ∨ candidate.2 = fd := by
  rw [isIpAddressOrSocket, Bool.or_eq_true, beq_iff_eq, beq_iff_eq, FileDescriptor.value_inj,
    eq_comm (a := fd)]
  refine or_congr_left ⟨fun h => (IpAddress.toString_inj h).symm, ?_⟩
  rintro rfl
  rfl

theorem findIp_eq_none_iff : n.findIp fd = none ↔ ∀ b ∈ n.bindings, b.2 ≠ fd := by
  rw [findIp, Option.map_eq_none_iff, List.find?_eq_none]
  simp only [isSocket_iff, ne_eq]

theorem mem_of_findIp (h : n.findIp fd = some ip) : (ip, fd) ∈ n.bindings := by
  obtain ⟨⟨ip', fd'⟩, hfind, rfl⟩ := Option.map_eq_some_iff.mp h
  have hfd := isSocket_iff.mp (List.find?_some hfind)
  dsimp only at hfd
  rw [← hfd]
  exact List.mem_of_find?_eq_some hfind

/-- Binding throws, or it adds a binding of a new address to an open socket that has none. -/
theorem bind_cases (n : FakeNetwork) (fd : FileDescriptor) (ip : IpAddress) :
    ((∃ e, n.bind fd ip = .error e) ∧
      (n.nextFd ≤ fd.value ∨ ∃ b ∈ n.bindings, b.1 = ip ∨ b.2 = fd)) ∨
    (n.bind fd ip = .ok { n with bindings := n.bindings ++ [(ip, fd)] } ∧ fd.value < n.nextFd ∧
      ∀ b ∈ n.bindings, b.1 ≠ ip ∧ b.2 ≠ fd) := by
  rw [bind]
  by_cases hopen : n.isSocketOpen fd = true
  · rw [if_neg (not_not.mpr hopen)]
    cases hfind : n.bindings.find? (isIpAddressOrSocket fd ip) with
    | some b =>
      exact Or.inl ⟨⟨_, rfl⟩, Or.inr ⟨b, List.mem_of_find?_eq_some hfind,
        isIpAddressOrSocket_iff.mp (List.find?_some hfind)⟩⟩
    | none =>
      refine Or.inr ⟨rfl, decide_eq_true_iff.mp hopen, fun b hb => ?_⟩
      have hnot := List.find?_eq_none.mp hfind b hb
      rwa [isIpAddressOrSocket_iff, not_or] at hnot
  · rw [if_pos hopen]
    refine Or.inl ⟨⟨_, rfl⟩, Or.inl (not_lt.mp fun h => hopen ?_)⟩
    exact decide_eq_true h

theorem findIp_append {b : IpAddress × FileDescriptor} (hnew : ∀ b' ∈ n.bindings, b'.2 ≠ b.2) :
    findIp { n with bindings := n.bindings ++ [b] } fd
      = if fd = b.2 then some b.1 else n.findIp fd := by
  rw [findIp, findIp, List.find?_append]
  by_cases hfd : fd = b.2
  · have hnone : n.bindings.find? (isSocket fd) = none := by
      rw [List.find?_eq_none]
      intro b' hb'
      rw [isSocket_iff, hfd]
      exact hnew b' hb'
    rw [if_pos hfd, hnone, Option.none_or, List.find?_cons_of_pos (isSocket_iff.mpr hfd.symm)]
    rfl
  · have hnone : [b].find? (isSocket fd) = none := by
      rw [List.find?_singleton, if_neg fun h => hfd (isSocket_iff.mp h).symm]
    rw [if_neg hfd, hnone, Option.or_none]

theorem readFromSocket_empty (hfd : n.findIp fd = some ip) (hqueue : n.buffers ip = [])
    (bufferSize : ℕ) : n.readFromSocket fd bufferSize = .ok (n, none) := by
  simp [readFromSocket, hfd, hqueue]

/-- A read takes the packet in front of the queue. -/
theorem readFromSocket_front (hfd : n.findIp fd = some ip) {packet : PendingPacket}
    {packets : List PendingPacket} (hqueue : n.buffers ip = packet :: packets)
    (bufferSize : ℕ) :
    ∃ stats, n.readFromSocket fd bufferSize = .ok ({ n with
        buffers := Function.update n.buffers ip packets
        stats := stats },
      some ⟨packet.sender, packet.payload.take bufferSize⟩) := by
  rw [readFromSocket]
  simp only [hfd, hqueue]
  exact ⟨_, rfl⟩

/-- A packet is put at the end of the queue of its destination, unless packets are dropped. -/
theorem sendTo_bound {sender : IpAddress} (hfd : n.findIp fd = some sender) (ip : IpAddress)
    (payload : List UInt8) :
    ∃ stats, n.sendTo fd ip payload = .ok ({ n with
        buffers := if n.shouldDropPackets then n.buffers
          else Function.update n.buffers ip (n.buffers ip ++ [⟨sender, n.truncate payload⟩])
        stats := stats }, payload.length) := by
  rw [sendTo]
  simp only [hfd]
  cases hdrop : n.shouldDropPackets with
  | true => exact ⟨_, rfl⟩
  | false => exact ⟨_, rfl⟩

end FakeNetwork

/-! ### Runs -/

inductive NetworkCall
  | udpSocketIpv4
  | bind (fd : FileDescriptor) (ip : IpAddress)
  | sendTo (senderFd : FileDescriptor) (ip : IpAddress) (payload : List UInt8)
  | readFromSocket (fd : FileDescriptor) (bufferSize : ℕ)
  | dropPackets (shouldDropPackets : Bool)
  | clearStats

/-- A call; one that throws leaves the network alone. -/
def FakeNetwork.next (n : FakeNetwork) : NetworkCall → FakeNetwork
  | .udpSocketIpv4 => n.udpSocketIpv4.1
  | .bind fd ip => (n.bind fd ip).toOption.getD n
  | .sendTo senderFd ip payload => ((n.sendTo senderFd ip payload).map Prod.fst).toOption.getD n
  | .readFromSocket fd bufferSize =>
    ((n.readFromSocket fd bufferSize).map Prod.fst).toOption.getD n
  | .dropPackets shouldDropPackets => n.dropPackets shouldDropPackets
  | .clearStats => n.clearStats

/-- The runs of a network. -/
def fakeNetwork (mtu : ℤ) : System FakeNetwork NetworkCall where
  init n := n = { mtu := mtu }
  enabled _ _ := True
  next := FakeNetwork.next

namespace FakeNetwork

/-- Addresses and sockets belong to each other, and packets come from sockets. -/
structure Sound (n : FakeNetwork) : Prop where
  addresses : (n.bindings.map Prod.fst).Nodup
  sockets : (n.bindings.map Prod.snd).Nodup
  opened : ∀ b ∈ n.bindings, b.2.value < n.nextFd
  senders : ∀ ip, ∀ packet ∈ n.buffers ip, ∃ fd, (packet.sender, fd) ∈ n.bindings

variable {n : FakeNetwork} {fd fd' : FileDescriptor} {ip : IpAddress}

theorem sound_start (mtu : ℤ) : Sound { mtu := mtu } := by
  refine ⟨List.nodup_nil, List.nodup_nil, ?_, ?_⟩
  · intro b hb
    cases hb
  · intro ip packet hpacket
    cases hpacket

/-- Calls that leave the bindings alone, and put no packets from elsewhere into a queue. -/
theorem Sound.congr (h : n.Sound) {n' : FakeNetwork} (hbindings : n'.bindings = n.bindings)
    (hopen : n.nextFd ≤ n'.nextFd) (hsenders : ∀ ip, ∀ packet ∈ n'.buffers ip,
      packet ∈ n.buffers ip ∨ ∃ fd, (packet.sender, fd) ∈ n.bindings) : n'.Sound := by
  refine ⟨hbindings ▸ h.addresses, hbindings ▸ h.sockets, fun b hb => ?_, fun ip packet hp => ?_⟩
  · rw [hbindings] at hb
    have hlt := h.opened b hb
    omega
  · rw [hbindings]
    rcases hsenders ip packet hp with hold | hnew
    · exact h.senders ip packet hold
    · exact hnew

theorem Sound.findIp_iff (h : n.Sound) : n.findIp fd = some ip ↔ (ip, fd) ∈ n.bindings := by
  refine ⟨mem_of_findIp, fun hmem => ?_⟩
  cases hfind : n.findIp fd with
  | none => exact absurd rfl (findIp_eq_none_iff.mp hfind _ hmem)
  | some ip' =>
    cases List.inj_on_of_nodup_map h.sockets (mem_of_findIp hfind) hmem rfl
    rfl

theorem Sound.findIp_inj (h : n.Sound) (hfd : n.findIp fd = some ip)
    (hfd' : n.findIp fd' = some ip) : fd = fd' := by
  have heq := List.inj_on_of_nodup_map h.addresses (mem_of_findIp hfd) (mem_of_findIp hfd') rfl
  exact (Prod.ext_iff.mp heq).2

/-- What a read does to the network. -/
theorem next_readFromSocket (n : FakeNetwork) (fd : FileDescriptor) (bufferSize : ℕ) :
    n.next (.readFromSocket fd bufferSize) = n ∨
      ∃ ip packet packets stats, n.findIp fd = some ip ∧ n.buffers ip = packet :: packets ∧
        n.next (.readFromSocket fd bufferSize) = { n with
          buffers := Function.update n.buffers ip packets
          stats := stats } := by
  rw [next]
  cases hfd : n.findIp fd with
  | none => simp [readFromSocket, hfd, Except.map, Except.toOption]
  | some ip =>
    cases hqueue : n.buffers ip with
    | nil =>
      rw [readFromSocket_empty hfd hqueue]
      exact Or.inl rfl
    | cons packet packets =>
      obtain ⟨stats, hread⟩ := readFromSocket_front hfd hqueue bufferSize
      rw [hread]
      exact Or.inr ⟨ip, packet, packets, stats, rfl, hqueue, rfl⟩

/-- What a send does to the network. -/
theorem next_sendTo (n : FakeNetwork) (fd : FileDescriptor) (ip : IpAddress)
    (payload : List UInt8) :
    n.next (.sendTo fd ip payload) = n ∨
      ∃ sender stats, n.findIp fd = some sender ∧ n.next (.sendTo fd ip payload) = { n with
        buffers := if n.shouldDropPackets then n.buffers
          else Function.update n.buffers ip (n.buffers ip ++ [⟨sender, n.truncate payload⟩])
        stats := stats } := by
  rw [next]
  cases hfd : n.findIp fd with
  | none => simp [sendTo, hfd, Except.map, Except.toOption]
  | some sender =>
    obtain ⟨stats, hsend⟩ := sendTo_bound hfd ip payload
    rw [hsend]
    exact Or.inr ⟨sender, stats, rfl, rfl⟩

theorem Sound.readFromSocket (h : n.Sound) (fd : FileDescriptor) (bufferSize : ℕ) :
    (n.next (.readFromSocket fd bufferSize)).Sound := by
  rcases n.next_readFromSocket fd bufferSize with hsame | ⟨ip, packet, packets, stats, -, hqueue,
    hnext⟩
  · rw [hsame]
    exact h
  · rw [hnext]
    refine h.congr rfl (le_refl _) fun ip' packet' hp => Or.inl ?_
    change packet' ∈ Function.update n.buffers ip packets ip' at hp
    by_cases hip : ip' = ip
    · rw [hip, Function.update_self] at hp
      rw [hip, hqueue]
      exact List.mem_cons_of_mem _ hp
    · rwa [Function.update_of_ne hip] at hp

theorem Sound.sendTo (h : n.Sound) (fd : FileDescriptor) (ip : IpAddress)
    (payload : List UInt8) : (n.next (.sendTo fd ip payload)).Sound := by
  rcases n.next_sendTo fd ip payload with hsame | ⟨sender, stats, hfd, hnext⟩
  · rw [hsame]
    exact h
  · rw [hnext]
    refine h.congr rfl (le_refl _) fun ip' packet hp => ?_
    change packet ∈ (if n.shouldDropPackets then n.buffers
      else Function.update n.buffers ip (n.buffers ip ++ [⟨sender, n.truncate payload⟩])) ip' at hp
    split at hp
    · exact Or.inl hp
    · by_cases hip : ip' = ip
      · rw [hip, Function.update_self] at hp
        rcases List.mem_append.mp hp with hp | hp
        · exact Or.inl (hip ▸ hp)
        · rw [List.mem_singleton.mp hp]
          exact Or.inr ⟨fd, mem_of_findIp hfd⟩
      · rw [Function.update_of_ne hip] at hp
        exact Or.inl hp

theorem Sound.bind (h : n.Sound) (fd : FileDescriptor) (ip : IpAddress) :
    (n.next (.bind fd ip)).Sound := by
  rw [next]
  rcases n.bind_cases fd ip with ⟨⟨e, herror⟩, -⟩ | ⟨hok, hopen, hnew⟩
  · rw [herror]
    exact h
  · rw [hok]
    refine ⟨?_, ?_, ?_, fun ip' packet hp => ?_⟩
    · show ((n.bindings ++ [(ip, fd)]).map Prod.fst).Nodup
      rw [List.map_append]
      refine h.addresses.append (List.nodup_singleton _)
        (List.disjoint_singleton.mpr fun hmem => ?_)
      obtain ⟨b, hb, hip⟩ := List.mem_map.mp hmem
      exact (hnew b hb).1 hip
    · show ((n.bindings ++ [(ip, fd)]).map Prod.snd).Nodup
      rw [List.map_append]
      refine h.sockets.append (List.nodup_singleton _) (List.disjoint_singleton.mpr fun hmem => ?_)
      obtain ⟨b, hb, hfd⟩ := List.mem_map.mp hmem
      exact (hnew b hb).2 hfd
    · intro b hb
      rcases List.mem_append.mp hb with hb | hb
      · exact h.opened b hb
      · rw [List.mem_singleton.mp hb]
        exact hopen
    · obtain ⟨fd', hfd'⟩ := h.senders ip' packet hp
      exact ⟨fd', List.mem_append_left _ hfd'⟩

theorem Sound.next (h : n.Sound) (call : NetworkCall) : (n.next call).Sound := by
  cases call with
  | udpSocketIpv4 =>
    refine h.congr rfl ?_ fun ip packet hp => Or.inl hp
    show n.nextFd ≤ n.nextFd + 1
    omega
  | bind fd ip => exact h.bind fd ip
  | sendTo senderFd ip payload => exact h.sendTo senderFd ip payload
  | readFromSocket fd bufferSize => exact h.readFromSocket fd bufferSize
  | dropPackets shouldDropPackets => exact h.congr rfl (le_refl _) fun _ _ hp => Or.inl hp
  | clearStats => exact h.congr rfl (le_refl _) fun _ _ hp => Or.inl hp

theorem sound_of_reachable {mtu : ℤ} (h : (fakeNetwork mtu).Reachable System.anyAction n) :
    n.Sound := by
  refine h.invariant (P := Sound) (fun n hn => ?_) fun n call _ ih _ _ => ih.next call
  rw [hn]
  exact sound_start mtu

/-- Bindings are for good. -/
theorem findIp_next (h : n.findIp fd = some ip) (call : NetworkCall) :
    (n.next call).findIp fd = some ip := by
  cases call with
  | bind fd' ip' =>
    rw [next]
    rcases n.bind_cases fd' ip' with ⟨⟨e, herror⟩, -⟩ | ⟨hok, -, hnew⟩
    · rw [herror]
      exact h
    · rw [hok]
      show findIp { n with bindings := n.bindings ++ [(ip', fd')] } fd = _
      rw [findIp_append fun b hb => (hnew b hb).2, if_neg]
      · exact h
      · rintro rfl
        exact (hnew _ (mem_of_findIp h)).2 rfl
  | udpSocketIpv4 => exact h
  | sendTo senderFd ip' payload =>
    rcases n.next_sendTo senderFd ip' payload with hsame | ⟨sender, stats, -, hnext⟩
    · rw [hsame]
      exact h
    · rw [hnext]
      exact h
  | readFromSocket fd' bufferSize =>
    rcases n.next_readFromSocket fd' bufferSize with hsame | ⟨ip', packet, packets, stats, -, -,
      hnext⟩
    · rw [hsame]
      exact h
    · rw [hnext]
      exact h
  | dropPackets shouldDropPackets => exact h
  | clearStats => exact h

theorem next_mtu (n : FakeNetwork) (call : NetworkCall) : (n.next call).mtu = n.mtu := by
  cases call with
  | bind fd ip =>
    rw [next]
    rcases n.bind_cases fd ip with ⟨⟨e, herror⟩, -⟩ | ⟨hok, -⟩
    · rw [herror]
      rfl
    · rw [hok]
      rfl
  | sendTo senderFd ip payload =>
    rcases n.next_sendTo senderFd ip payload with hsame | ⟨sender, stats, -, hnext⟩
    · rw [hsame]
    · rw [hnext]
  | readFromSocket fd bufferSize =>
    rcases n.next_readFromSocket fd bufferSize with hsame | ⟨ip, packet, packets, stats, -, -,
      hnext⟩
    · rw [hsame]
    · rw [hnext]
  | udpSocketIpv4 => rfl
  | dropPackets shouldDropPackets => rfl
  | clearStats => rfl

end FakeNetwork

/-! ### Runs with what was sent and read -/

/-- A network, the sends that were not dropped, and the reads that have found a packet. -/
structure NetworkRun where
  network : FakeNetwork
  sends : List (FileDescriptor × IpAddress × List UInt8) := []
  reads : List (FileDescriptor × ℕ × PendingPacket) := []

namespace NetworkRun

/-- The read as it is recorded, if it has found a packet. -/
def readBy (n : FakeNetwork) (fd : FileDescriptor) (bufferSize : ℕ) :
    List (FileDescriptor × ℕ × PendingPacket) :=
  match n.readFromSocket fd bufferSize with
  | .ok (_, some packet) => [(fd, bufferSize, packet)]
  | _ => []

def next (r : NetworkRun) (call : NetworkCall) : NetworkRun where
  network := r.network.next call
  sends := match call with
    | .sendTo fd ip payload =>
      if r.network.isSocketBound fd && !r.network.shouldDropPackets then
        r.sends ++ [(fd, ip, payload)]
      else r.sends
    | _ => r.sends
  reads := match call with
    | .readFromSocket fd bufferSize => r.reads ++ readBy r.network fd bufferSize
    | _ => r.reads

/-- The packet that a send puts into a queue. -/
def pendingOf (n : FakeNetwork) (send : FileDescriptor × IpAddress × List UInt8) :
    Option PendingPacket :=
  (n.findIp send.1).map fun sender => ⟨sender, n.truncate send.2.2⟩

/-- The packet that a read finds, if the buffer is large enough for the payload. -/
def FoundBy (n : FakeNetwork) (send : FileDescriptor × IpAddress × List UInt8)
    (read : FileDescriptor × ℕ × PendingPacket) : Prop :=
  ∃ packet, pendingOf n send = some packet ∧
    read.2.2 = ⟨packet.sender, packet.payload.take read.2.1⟩

/-- The sends to an address. -/
def sendsTo (r : NetworkRun) (ip : IpAddress) : List (FileDescriptor × IpAddress × List UInt8) :=
  r.sends.filter fun send => send.2.1 = ip

/-- The reads from the queue of an address. -/
def readsAt (r : NetworkRun) (ip : IpAddress) : List (FileDescriptor × ℕ × PendingPacket) :=
  r.reads.filter fun read => r.network.findIp read.1 = some ip

/-- The queue of an address holds what was sent to it and not yet read. -/
structure Queued (r : NetworkRun) : Prop where
  senders : ∀ send ∈ r.sends, ∃ ip, r.network.findIp send.1 = some ip
  readers : ∀ read ∈ r.reads, ∃ ip, r.network.findIp read.1 = some ip
  found : ∀ ip, List.Forall₂ (FoundBy r.network) ((r.sendsTo ip).take (r.readsAt ip).length)
    (r.readsAt ip)
  waiting : ∀ ip, ((r.sendsTo ip).drop (r.readsAt ip).length).map (pendingOf r.network)
    = (r.network.buffers ip).map some

end NetworkRun

/-- The runs of a network, with what was sent and read. -/
def networkRuns (mtu : ℤ) : System NetworkRun NetworkCall where
  init r := r = { network := { mtu := mtu } }
  enabled _ _ := True
  next := NetworkRun.next

namespace NetworkRun

variable {r : NetworkRun} {n : FakeNetwork} {fd : FileDescriptor} {ip : IpAddress}

/-- Only bindings are added, and no queue changes. -/
theorem Queued.congr (h : r.Queued) (hmtu : n.mtu = r.network.mtu)
    (hbuffers : n.buffers = r.network.buffers)
    (hfind : ∀ fd ip, r.network.findIp fd = some ip → n.findIp fd = some ip) :
    Queued { r with network := n } := by
  have hpending : ∀ send ∈ r.sends, pendingOf n send = pendingOf r.network send := by
    intro send hsend
    obtain ⟨ip, hip⟩ := h.senders send hsend
    rw [pendingOf, pendingOf, hip, hfind _ _ hip, FakeNetwork.truncate, FakeNetwork.truncate, hmtu]
  have hreads : ∀ ip, readsAt { r with network := n } ip = r.readsAt ip := by
    intro ip
    refine List.filter_congr fun read hread => ?_
    obtain ⟨ip', hip'⟩ := h.readers read hread
    rw [hip', hfind _ _ hip']
  refine ⟨fun send hsend => ?_, fun read hread => ?_, fun ip => ?_, fun ip => ?_⟩
  · obtain ⟨ip, hip⟩ := h.senders send hsend
    exact ⟨ip, hfind _ _ hip⟩
  · obtain ⟨ip, hip⟩ := h.readers read hread
    exact ⟨ip, hfind _ _ hip⟩
  · rw [hreads]
    refine (List.forall₂_iff_get.mpr ?_)
    obtain ⟨hlength, hget⟩ := List.forall₂_iff_get.mp (h.found ip)
    refine ⟨hlength, fun i hi hi' => ?_⟩
    obtain ⟨packet, hpacket, hread⟩ := hget i hi hi'
    refine ⟨packet, ?_, hread⟩
    rw [← hpacket]
    exact hpending _ (List.mem_of_mem_filter (List.mem_of_mem_take (List.get_mem _ _)))
  · rw [hreads, hbuffers, ← h.waiting ip]
    exact List.map_congr_left fun send hsend =>
      hpending send (List.mem_of_mem_filter (List.mem_of_mem_drop hsend))

theorem length_readsAt_le (h : r.Queued) (ip : IpAddress) :
    (r.readsAt ip).length ≤ (r.sendsTo ip).length := by
  have hlength := (h.found ip).length_eq
  rw [List.length_take] at hlength
  omega

theorem Queued.append_send (h : r.Queued) {sender : IpAddress}
    (hfd : r.network.findIp fd = some sender) (ip : IpAddress) (payload : List UInt8)
    (stats : IpAddress → Stats) :
    Queued { r with
      network := { r.network with
        buffers := Function.update r.network.buffers ip
          (r.network.buffers ip ++ [⟨sender, r.network.truncate payload⟩])
        stats := stats }
      sends := r.sends ++ [(fd, ip, payload)] } := by
  have hsends : ∀ network, ∀ ip', sendsTo { r with
      network := network, sends := r.sends ++ [(fd, ip, payload)] } ip'
        = r.sendsTo ip' ++ if ip = ip' then [(fd, ip, payload)] else [] := by
    intro network ip'
    rw [sendsTo, List.filter_append, List.filter_singleton, sendsTo]
    by_cases hip : ip = ip'
    · simp [hip]
    · simp [hip]
  refine ⟨fun send hsend => ?_, h.readers, fun ip' => ?_, fun ip' => ?_⟩
  · rcases List.mem_append.mp hsend with hsend | hsend
    · exact h.senders send hsend
    · rw [List.mem_singleton.mp hsend]
      exact ⟨sender, hfd⟩
  · rw [hsends]
    show List.Forall₂ (FoundBy r.network) (List.take (r.readsAt ip').length _) (r.readsAt ip')
    rw [List.take_append_of_le_length (length_readsAt_le h ip')]
    exact h.found ip'
  · rw [hsends]
    show (List.drop (r.readsAt ip').length _).map (pendingOf r.network)
      = (Function.update r.network.buffers ip _ ip').map some
    rw [List.drop_append_of_le_length (length_readsAt_le h ip'), List.map_append, h.waiting]
    by_cases hip : ip = ip'
    · subst hip
      rw [if_pos rfl, Function.update_self, List.map_append]
      refine congrArg _ ?_
      rw [List.map_singleton, List.map_singleton]
      show [Option.map _ (r.network.findIp fd)] = _
      rw [hfd]
      rfl
    · rw [if_neg hip, Function.update_of_ne (Ne.symm hip), List.map_nil, List.append_nil]

theorem Queued.append_read (h : r.Queued) (hfd : r.network.findIp fd = some ip)
    {packet : PendingPacket} {packets : List PendingPacket}
    (hqueue : r.network.buffers ip = packet :: packets) (bufferSize : ℕ)
    (stats : IpAddress → Stats) :
    Queued { r with
      network := { r.network with
        buffers := Function.update r.network.buffers ip packets
        stats := stats }
      reads :=
        r.reads ++ [(fd, bufferSize, ⟨packet.sender, packet.payload.take bufferSize⟩)] } := by
  generalize hread : (fd, bufferSize, (⟨packet.sender, packet.payload.take bufferSize⟩ :
    PendingPacket)) = read
  generalize hr' : ({ r with
      network := { r.network with
        buffers := Function.update r.network.buffers ip packets
        stats := stats }
      reads := r.reads ++ [read] } : NetworkRun) = r'
  have hsendsTo : ∀ ip', r'.sendsTo ip' = r.sendsTo ip' := by
    intro ip'
    rw [← hr']
    rfl
  have hreadsAt : ∀ ip', r'.readsAt ip' = r.readsAt ip' ++ if ip = ip' then [read] else [] := by
    intro ip'
    rw [← hr', readsAt, List.filter_append, List.filter_singleton]
    show r.readsAt ip' ++ (bif decide (r.network.findIp read.1 = some ip') then _ else _) = _
    rw [← hread, hfd, Bool.cond_decide]
    simp only [Option.some.injEq]
  have hnetwork : FoundBy r'.network = FoundBy r.network ∧
      pendingOf r'.network = pendingOf r.network := by
    rw [← hr']
    exact ⟨rfl, rfl⟩
  -- the packet in front of the queue is the first one that was sent and not read
  obtain ⟨send, sends, hdrop, hsend, hsends⟩ : ∃ send sends,
      (r.sendsTo ip).drop (r.readsAt ip).length = send :: sends ∧
      pendingOf r.network send = some packet ∧
      sends.map (pendingOf r.network) = packets.map some := by
    have hwaiting := h.waiting ip
    rw [hqueue, List.map_cons] at hwaiting
    exact List.map_eq_cons_iff.mp hwaiting
  have hnext : (r.sendsTo ip).drop ((r.readsAt ip).length + 1) = sends := by
    rw [← List.drop_drop, hdrop, List.drop_one, List.tail_cons]
  have htake : (r.sendsTo ip).take ((r.readsAt ip).length + 1)
      = (r.sendsTo ip).take (r.readsAt ip).length ++ [send] := by
    rw [List.take_add, hdrop, List.take_succ_cons, List.take_zero]
  refine ⟨?_, ?_, fun ip' => ?_, fun ip' => ?_⟩
  · rw [← hr']
    exact h.senders
  · rw [← hr']
    intro read' hread'
    rcases List.mem_append.mp hread' with hread' | hread'
    · exact h.readers read' hread'
    · rw [List.mem_singleton.mp hread', ← hread]
      exact ⟨ip, hfd⟩
  · rw [hsendsTo, hreadsAt, hnetwork.1]
    by_cases hip : ip = ip'
    · subst hip
      rw [if_pos rfl, List.length_append, List.length_singleton, htake]
      refine List.rel_append (h.found ip) (.cons ⟨packet, hsend, ?_⟩ .nil)
      rw [← hread]
    · rw [if_neg hip, List.append_nil]
      exact h.found ip'
  · have hbuffers : r'.network.buffers = Function.update r.network.buffers ip packets := by
      rw [← hr']
    rw [hsendsTo, hreadsAt, hnetwork.2, hbuffers]
    by_cases hip : ip = ip'
    · subst hip
      rw [if_pos rfl, List.length_append, List.length_singleton, hnext, Function.update_self]
      exact hsends
    · rw [if_neg hip, List.append_nil, Function.update_of_ne (Ne.symm hip)]
      exact h.waiting ip'

/-- **Every call** keeps the queues. -/
theorem Queued.next (h : r.Queued) (call : NetworkCall) : (r.next call).Queued := by
  cases call with
  | udpSocketIpv4 => exact h.congr rfl rfl fun _ _ hip => hip
  | bind fd ip =>
    refine h.congr (FakeNetwork.next_mtu _ _) ?_ fun _ _ hip =>
      FakeNetwork.findIp_next hip (.bind fd ip)
    rw [FakeNetwork.next]
    rcases r.network.bind_cases fd ip with ⟨⟨e, herror⟩, -⟩ | ⟨hok, -⟩
    · rw [herror]
      rfl
    · rw [hok]
      rfl
  | sendTo fd ip payload =>
    rw [NetworkRun.next]
    cases hfd : r.network.findIp fd with
    | none =>
      have hsame : r.network.next (.sendTo fd ip payload) = r.network := by
        simp [FakeNetwork.next, FakeNetwork.sendTo, hfd, Except.map, Except.toOption]
      rw [hsame, FakeNetwork.isSocketBound, hfd]
      exact h
    | some sender =>
      obtain ⟨stats, hsend⟩ := FakeNetwork.sendTo_bound hfd ip payload
      rw [FakeNetwork.next, hsend, FakeNetwork.isSocketBound, hfd]
      cases hdrop : r.network.shouldDropPackets with
      | true => exact h.congr rfl rfl fun _ _ hip => hip
      | false =>
        have hsent := h.append_send hfd ip payload stats
        dsimp only at hsent
        rw [hdrop] at hsent
        exact hsent
  | readFromSocket fd bufferSize =>
    rw [NetworkRun.next]
    cases hfd : r.network.findIp fd with
    | none =>
      have hsame : r.network.next (.readFromSocket fd bufferSize) = r.network := by
        simp [FakeNetwork.next, FakeNetwork.readFromSocket, hfd, Except.map, Except.toOption]
      have hnone : readBy r.network fd bufferSize = [] := by
        simp [readBy, FakeNetwork.readFromSocket, hfd]
      rw [hsame, hnone, List.append_nil]
      exact h
    | some ip =>
      cases hqueue : r.network.buffers ip with
      | nil =>
        have hread := FakeNetwork.readFromSocket_empty hfd hqueue bufferSize
        rw [FakeNetwork.next, readBy, hread, List.append_nil]
        exact h
      | cons packet packets =>
        obtain ⟨stats, hread⟩ := FakeNetwork.readFromSocket_front hfd hqueue bufferSize
        rw [FakeNetwork.next, readBy, hread]
        exact h.append_read hfd hqueue bufferSize stats
  | dropPackets shouldDropPackets => exact h.congr rfl rfl fun _ _ hip => hip
  | clearStats => exact h.congr rfl rfl fun _ _ hip => hip

theorem queued_of_reachable {mtu : ℤ} (h : (networkRuns mtu).Reachable System.anyAction r) :
    r.network.Sound ∧ r.Queued := by
  refine h.invariant (P := fun r => r.network.Sound ∧ r.Queued) (fun r hr => ?_)
    fun r call _ ih _ _ => ⟨ih.1.next call, ih.2.next call⟩
  rw [hr]
  refine ⟨FakeNetwork.sound_start mtu, ?_, ?_, fun ip => .nil, fun ip => rfl⟩
  · intro send hsend
    cases hsend
  · intro read hread
    cases hread

end NetworkRun

open NetworkRun in
/-- **Sockets, addresses and queues**, after any calls.  An address has at most one socket
and keeps it, and a socket is bound iff it is open and neither it nor the address has been
bound.  What is read at a socket are the first packets that were sent to its address, in
the order in which they were sent, with the addresses of their senders and cut off at the
`mtu` and at the end of the buffer; the others wait in the queue. -/
theorem bindings_and_queues {mtu : ℤ} {r : NetworkRun}
    (h : (networkRuns mtu).Reachable System.anyAction r) :
    let n := r.network
    (∀ fd fd' ip, n.findIp fd = some ip → n.findIp fd' = some ip → fd = fd') ∧
    (∀ fd ip, n.findIp fd = some ip → ∀ call, (n.next call).findIp fd = some ip) ∧
    (∀ fd ip, (n.bind fd ip).toOption.isSome ↔
      fd.value < n.nextFd ∧ n.findIp fd = none ∧ ∀ fd', n.findIp fd' ≠ some ip) ∧
    ∀ fd ip, n.findIp fd = some ip →
      let sends := r.sends.filter fun send => send.2.1 = ip
      let reads := r.reads.filter fun read => read.1 = fd
      List.Forall₂ (FoundBy n) (sends.take reads.length) reads ∧
        (sends.drop reads.length).map (pendingOf n) = (n.buffers ip).map some := by
  intro n
  obtain ⟨hsound, hqueued⟩ := queued_of_reachable h
  refine ⟨fun fd fd' ip => hsound.findIp_inj,
    fun fd ip hip call => FakeNetwork.findIp_next hip call,
    fun fd ip => ?_, fun fd ip hip => ?_⟩
  · rcases n.bind_cases fd ip with ⟨⟨e, herror⟩, hclosed⟩ | ⟨hok, hopen, hnew⟩
    · rw [herror]
      refine iff_of_false Bool.false_ne_true ?_
      rintro ⟨hopen, hfd, hip⟩
      rcases hclosed with hclosed | ⟨⟨ip', fd'⟩, hb, rfl | rfl⟩
      · omega
      · exact hip fd' (hsound.findIp_iff.mpr hb)
      · exact FakeNetwork.findIp_eq_none_iff.mp hfd _ hb rfl
    · rw [hok]
      refine iff_of_true rfl ⟨hopen, FakeNetwork.findIp_eq_none_iff.mpr fun b hb => (hnew b hb).2,
        fun fd' hfd' => ?_⟩
      exact (hnew _ (FakeNetwork.mem_of_findIp hfd')).1 rfl
  · -- the reads at the socket are those from the queue of the address
    have hreads : (r.reads.filter fun read => read.1 = fd) = r.readsAt ip := by
      refine List.filter_congr fun read hread => ?_
      rw [decide_eq_decide]
      constructor
      · rintro rfl
        exact hip
      · exact fun hip' => hsound.findIp_inj hip' hip
    intro sends reads
    rw [show reads = r.readsAt ip from hreads]
    exact ⟨hqueued.found ip, hqueued.waiting ip⟩

/-- Of two packets the first one is read, into a small buffer. -/
theorem bindings_and_queues_two_packets :
    let r := (networkRuns 2).runFrom { network := { mtu := 2 } } [.udpSocketIpv4, .udpSocketIpv4,
      .bind ⟨0⟩ ⟨1, 1⟩, .bind ⟨1⟩ ⟨2, 1⟩, .bind ⟨1⟩ ⟨3, 1⟩, .sendTo ⟨0⟩ ⟨2, 1⟩ [1, 2, 3],
      .sendTo ⟨0⟩ ⟨2, 1⟩ [4], .readFromSocket ⟨1⟩ 1]
    (r.reads.filter fun read => read.1 = ⟨1⟩) = [(⟨1⟩, 1, ⟨⟨1, 1⟩, [1]⟩)] ∧
      r.network.buffers ⟨2, 1⟩ = [⟨⟨1, 1⟩, [4]⟩] ∧
      List.Forall₂ (NetworkRun.FoundBy r.network)
        ((r.sends.filter fun send => send.2.1 = ⟨2, 1⟩).take 1)
        [(⟨1⟩, 1, ⟨⟨1, 1⟩, [1]⟩)] := by
  intro r
  have hreads : (r.reads.filter fun read => read.1 = ⟨1⟩) = [(⟨1⟩, 1, ⟨⟨1, 1⟩, [1]⟩)] := by
    decide +kernel
  have hqueues := (@bindings_and_queues 2 r (System.runFrom_reachable (.init rfl)
    (System.runOk_anyAction (fun _ _ => trivial) _ _))).2.2.2 ⟨1⟩ ⟨2, 1⟩ (by decide +kernel)
  rw [hreads] at hqueues
  exact ⟨hreads, by decide +kernel, hqueues.1⟩

end Neptun
