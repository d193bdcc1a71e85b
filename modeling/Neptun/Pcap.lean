/-
The packets of a capture file: an Ethernet frame, in it an IPv4 packet, in it a UDP
datagram.

`process_record` peels off one header after the other, by a size that each of them
computes apart from its fields.  A `Frame` is what a capture file holds; `Recovers`
says that all of its headers are read as they are, and that the span left is the
payload of the datagram.  The code has the source address from the bytes of the
destination, counts 56 bytes for every IPv4 header with options, and never cuts the
padding of a frame off.

* `readIpv4Header_of_bytes` — an IPv4 header is read from its bytes, its options apart;
* `Frame.processRecord_eq` — what is made of any frame;
* `recovers_iff` — which frames are recovered.
-/
import Neptun.BitFields

namespace Neptun

structure EthernetFrame where
  destinationMacAddress : List UInt8
  sourceMacAddress : List UInt8
  etherType : UInt16
  deriving DecidableEq, Repr

def EthernetFrame.serializedSize (_ : EthernetFrame) : ℕ := 14

def EtherType.IPv4 : UInt16 := 0x0800

structure Ipv4Header where
  version : UInt8
  ihl : UInt8
  dscp : UInt8
  ecn : UInt8
  totalLength : UInt16
  identification : UInt16
  flags : UInt8
  fragmentOffset : UInt16
  timeToLive : UInt8
  protocol : UInt8
  headerChecksum : UInt16
  sourceIp : UInt32
  destinationIp : UInt32
  options : List UInt8
  deriving DecidableEq, Repr

def Ipv4Header.serializedSize (header : Ipv4Header) : ℕ :=
  if header.ihl > 5 then 56 else 20

def IpProtocol.UDP : UInt8 := 0x11

structure UdpHeader where
  sourcePort : UInt16
  destinationPort : UInt16
  length : UInt16
  checksum : UInt16
  deriving DecidableEq, Repr

def UdpHeader.serializedSize (_ : UdpHeader) : ℕ := 8

/-- The loop that copies an address, with `n` bytes left to copy from index `i` on. -/
def copyBytes (b : Span) (mem : Memory) : ℕ → ℕ → Checked Fault (List UInt8)
  | 0, _ => pure []
  | n + 1, i => do
    let byte ← b.load mem i
    let bytes ← copyBytes b mem n (i + 1)
    pure (byte :: bytes)

def readEtherFrame (b : Span) (mem : Memory) : Checked Fault EthernetFrame := do
  let destination := readByteArray b 0 6
  let destinationMacAddress ← copyBytes destination mem 6 0
  -- the source is read here, but the bytes that are copied are those of `destination`
  let _source := readByteArray b 6 6
  let sourceMacAddress ← copyBytes destination mem 6 0
  let etherType ← readU16 b mem 12
  pure ⟨destinationMacAddress, sourceMacAddress, etherType⟩

/-- The options are left as the zeros of a new header. -/
def readIpv4Header (b : Span) (mem : Memory) : Checked Fault (Except String Ipv4Header) := do
  let version ← readBits 8 0 4 b mem
  if version ≠ 4 then
    pure (.error "Not IPv4")
  else do
    let ihl ← readBits 8 4 8 b mem
    let dscp ← readBits 8 8 14 b mem
    let ecn ← readBits 8 14 16 b mem
    let totalLength ← readBits 16 16 32 b mem
    let identification ← readBits 16 32 48 b mem
    let flags ← readBits 8 48 51 b mem
    let fragmentOffset ← readBits 16 51 64 b mem
    let timeToLive ← readBits 8 64 72 b mem
    let protocol ← readBits 8 72 80 b mem
    let headerChecksum ← readBits 16 80 96 b mem
    let sourceIp ← readBits 32 96 128 b mem
    let destinationIp ← readBits 32 128 160 b mem
    pure (.ok {
      version := .ofNat version
      ihl := .ofNat ihl
      dscp := .ofNat dscp
      ecn := .ofNat ecn
      totalLength := .ofNat totalLength
      identification := .ofNat identification
      flags := .ofNat flags
      fragmentOffset := .ofNat fragmentOffset
      timeToLive := .ofNat timeToLive
      protocol := .ofNat protocol
      headerChecksum := .ofNat headerChecksum
      sourceIp := .ofNat sourceIp
      destinationIp := .ofNat destinationIp
      options := List.replicate 36 0 })

def readUdpHeader (b : Span) (mem : Memory) : Checked Fault UdpHeader := do
  let sourcePort ← readU16 b mem 0
  let destinationPort ← readU16 b mem 2
  let length ← readU16 b mem 4
  let checksum ← readU16 b mem 6
  pure ⟨sourcePort, destinationPort, length, checksum⟩

/-- What `process_record` prints of a UDP datagram: its headers, and its payload if
the port is one of the protocol's. -/
structure Record where
  etherFrame : EthernetFrame
  ipHeader : Ipv4Header
  udpHeader : UdpHeader
  payload : Span
  isNeptunPacket : Bool
  deriving DecidableEq, Repr

/-- `process_record`: an exception, nothing for another kind of frame or packet, or
the record of a datagram. -/
def processRecord (recordPayload : Span) (mem : Memory) :
    Checked Fault (Except String (Option Record)) := do
  let etherFrame ← readEtherFrame recordPayload mem
  let recordPayload ← advance recordPayload etherFrame.serializedSize
  if etherFrame.etherType ≠ EtherType.IPv4 then
    pure (.ok none)
  else
    match ← readIpv4Header recordPayload mem with
    | .error what => pure (.error what)
    | .ok ipHeader => do
      let recordPayload ← advance recordPayload ipHeader.serializedSize
      if ipHeader.protocol ≠ IpProtocol.UDP then
        pure (.ok none)
      else do
        let udpHeader ← readUdpHeader recordPayload mem
        let recordPayload ← advance recordPayload udpHeader.serializedSize
        pure (.ok (some {
          etherFrame := etherFrame
          ipHeader := ipHeader
          udpHeader := udpHeader
          payload := recordPayload
          isNeptunPacket := udpHeader.sourcePort == 7778 || udpHeader.sourcePort == 7779 }))

/-! ### Frames -/

/-- The bytes of an IPv4 header, with its options. -/
def Ipv4Header.encode (header : Ipv4Header) : List UInt8 :=
  beEncode 1 (header.version.toNat * 2 ^ 4 + header.ihl.toNat) ++
  (beEncode 1 (header.dscp.toNat * 2 ^ 2 + header.ecn.toNat) ++
  (beEncode 2 header.totalLength.toNat ++
  (beEncode 2 header.identification.toNat ++
  (beEncode 2 (header.flags.toNat * 2 ^ 13 + header.fragmentOffset.toNat) ++
  (beEncode 1 header.timeToLive.toNat ++
  (beEncode 1 header.protocol.toNat ++
  (beEncode 2 header.headerChecksum.toNat ++
  (beEncode 4 header.sourceIp.toNat ++
  (beEncode 4 header.destinationIp.toNat ++ header.options)))))))))

/-- The bytes of a UDP header. -/
def UdpHeader.encode (header : UdpHeader) : List UInt8 :=
  beEncode 2 header.sourcePort.toNat ++
  (beEncode 2 header.destinationPort.toNat ++
  (beEncode 2 header.length.toNat ++ beEncode 2 header.checksum.toNat))

/-- The bytes of an Ethernet header. -/
def EthernetFrame.encode (frame : EthernetFrame) : List UInt8 :=
  frame.destinationMacAddress ++ (frame.sourceMacAddress ++ beEncode 2 frame.etherType.toNat)

/-- The fields of an IPv4 header are in their ranges. -/
structure Ipv4Header.InRange (header : Ipv4Header) : Prop where
  version : header.version = 4
  ihl_lt : header.ihl.toNat < 2 ^ 4
  dscp_lt : header.dscp.toNat < 2 ^ 6
  ecn_lt : header.ecn.toNat < 2 ^ 2
  flags_lt : header.flags.toNat < 2 ^ 3
  fragmentOffset_lt : header.fragmentOffset.toNat < 2 ^ 13

/-- An Ethernet frame with an IPv4 packet with a UDP datagram.  A short frame is
filled up behind the packet by its padding. -/
structure Frame where
  ethernet : EthernetFrame
  ip : Ipv4Header
  udp : UdpHeader
  payload : List UInt8
  padding : List UInt8
  length_destination : ethernet.destinationMacAddress.length = 6
  length_source : ethernet.sourceMacAddress.length = 6
  etherType : ethernet.etherType = EtherType.IPv4
  inRange : ip.InRange
  five_le_ihl : 5 ≤ ip.ihl.toNat
  protocol : ip.protocol = IpProtocol.UDP
  length_options : ip.options.length = 4 * (ip.ihl.toNat - 5)

/-- The bytes of a frame. -/
def Frame.encode (frame : Frame) : List UInt8 :=
  frame.ethernet.encode ++
    (frame.ip.encode ++ (frame.udp.encode ++ (frame.payload ++ frame.padding)))

/-- The frame is read back: every field that a header has a place for in the
bytes, and the payload of the datagram.  The options are a separate matter. -/
def Record.Recovers (record : Record) (off : ℕ) (frame : Frame) : Prop :=
  record.etherFrame = frame.ethernet ∧
  { record.ipHeader with options := frame.ip.options } = frame.ip ∧
  record.udpHeader = frame.udp ∧
  record.payload = ⟨off + (14 + (4 * frame.ip.ihl.toNat + 8)), frame.payload.length⟩

/-- The options, which are present in a header of more than five words. -/
def Record.RecoversOptions (record : Record) (frame : Frame) : Prop :=
  5 < frame.ip.ihl.toNat → record.ipHeader.options = frame.ip.options

/-! ### The headers -/

theorem copyBytes_of_size {b : Span} {mem : Memory} {n i : ℕ} (h : i + n ≤ b.size) :
    copyBytes b mem n i = pure (mem.slice (b.off + i) n) := by
  induction n generalizing i with
  | zero => rfl
  | succ n ih =>
    have hload : b.load mem i = pure (mem (b.off + i)) :=
      Checked.eq_pure (Span.val_load b mem i) (Span.avoids_load.mpr fun _ => by omega)
    rw [copyBytes, hload, Checked.pure_bind, ih (by omega), Checked.pure_bind]
    rfl

/-- The source address that is read is the destination address. -/
theorem readEtherFrame_of_bytes {b : Span} {mem : Memory} {frame : EthernetFrame}
    (hdestination : frame.destinationMacAddress.length = 6)
    (hsource : frame.sourceMacAddress.length = 6) (hsize : 14 ≤ b.size)
    (hmem : mem.slice b.off frame.encode.length = frame.encode) :
    readEtherFrame b mem
      = pure { frame with sourceMacAddress := frame.destinationMacAddress } := by
  obtain ⟨haddress, hrest⟩ := Memory.slice_eq_of_append hmem
  obtain ⟨-, htype⟩ := Memory.slice_eq_of_append hrest
  rw [hdestination] at haddress htype
  rw [hsource, length_beEncode, Nat.add_assoc] at htype
  have hcopy : copyBytes (readByteArray b 0 6) mem 6 0 = pure frame.destinationMacAddress := by
    rw [copyBytes_of_size]
    · exact congrArg pure haddress
    · rw [readByteArray, usizeSub_of_le (Nat.zero_le _)]
      simp only [Nat.sub_zero]
      omega
  rw [readEtherFrame, hcopy, Checked.pure_bind, Checked.pure_bind,
    readU16_of_bytes (by omega) htype]
  rfl

theorem readUdpHeader_of_bytes {b : Span} {mem : Memory} {header : UdpHeader}
    (hsize : 8 ≤ b.size) (hmem : mem.slice b.off header.encode.length = header.encode) :
    readUdpHeader b mem = pure header := by
  obtain ⟨hsource, h⟩ := Memory.slice_eq_of_append hmem
  obtain ⟨hdestination, h⟩ := Memory.slice_eq_of_append h
  obtain ⟨hlength, hchecksum⟩ := Memory.slice_eq_of_append h
  simp only [length_beEncode, Nat.add_assoc] at hsource hdestination hlength hchecksum
  rw [readUdpHeader, readU16_of_bytes (by omega) hsource, Checked.pure_bind,
    readU16_of_bytes (by omega) hdestination, Checked.pure_bind,
    readU16_of_bytes (by omega) hlength, Checked.pure_bind,
    readU16_of_bytes (by omega) hchecksum, Checked.pure_bind]

/-- An IPv4 header is read from its bytes, its options apart. -/
theorem readIpv4Header_of_bytes {b : Span} {mem : Memory} {header : Ipv4Header}
    (h : header.InRange) (hsize : 20 ≤ b.size)
    (hmem : mem.slice b.off header.encode.length = header.encode) :
    readIpv4Header b mem = pure (.ok { header with options := List.replicate 36 0 }) := by
  obtain ⟨hversion, hihl, hdscp, hecn, hflags, hoffset⟩ := h
  have hfour : header.version.toNat = 4 := by rw [hversion]; rfl
  -- the bytes of the fields, from the front on
  obtain ⟨h0, hmem⟩ := Memory.slice_eq_of_append hmem
  obtain ⟨h1, hmem⟩ := Memory.slice_eq_of_append hmem
  obtain ⟨h2, hmem⟩ := Memory.slice_eq_of_append hmem
  obtain ⟨h4, hmem⟩ := Memory.slice_eq_of_append hmem
  obtain ⟨h6, hmem⟩ := Memory.slice_eq_of_append hmem
  obtain ⟨h8, hmem⟩ := Memory.slice_eq_of_append hmem
  obtain ⟨h9, hmem⟩ := Memory.slice_eq_of_append hmem
  obtain ⟨h10, hmem⟩ := Memory.slice_eq_of_append hmem
  obtain ⟨h12, hmem⟩ := Memory.slice_eq_of_append hmem
  obtain ⟨h16, -⟩ := Memory.slice_eq_of_append hmem
  simp only [length_beEncode, Nat.add_assoc, Nat.reduceAdd] at h0 h1 h2 h4 h6 h8 h9 h10 h12 h16
  have hu8 : ∀ x : UInt8, x.toNat < 256 ^ 1 := fun x => x.toNat_lt
  have hu16 : ∀ x : UInt16, x.toNat < 256 ^ 2 := fun x => x.toNat_lt
  have hu32 : ∀ x : UInt32, x.toNat < 256 ^ 4 := fun x => x.toNat_lt
  -- the version and the length share a byte, and so do the next two fields
  obtain ⟨hversionRead, hihlRead⟩ : readBits 8 0 4 b mem = pure header.version.toNat ∧
      readBits 8 4 8 b mem = pure header.ihl.toNat :=
    readBits_pair 0 1 4 (by omega) h0 (by omega) hihl (by omega) (by omega) (by omega)
  obtain ⟨hdscpRead, hecnRead⟩ : readBits 8 8 14 b mem = pure header.dscp.toNat ∧
      readBits 8 14 16 b mem = pure header.ecn.toNat :=
    readBits_pair 1 1 2 (by omega) h1 hdscp hecn (by omega) (by omega) (by omega)
  obtain ⟨hflagsRead, hoffsetRead⟩ : readBits 8 48 51 b mem = pure header.flags.toNat ∧
      readBits 16 51 64 b mem = pure header.fragmentOffset.toNat :=
    readBits_pair 6 2 13 (by omega) h6 hflags hoffset (by omega) (by omega) (by omega)
  have htotal : readBits 16 16 32 b mem = pure header.totalLength.toNat :=
    readBits_whole 2 2 (by omega) h2 (hu16 _) (by omega) (by omega) (by omega)
  have hident : readBits 16 32 48 b mem = pure header.identification.toNat :=
    readBits_whole 4 2 (by omega) h4 (hu16 _) (by omega) (by omega) (by omega)
  have htime : readBits 8 64 72 b mem = pure header.timeToLive.toNat :=
    readBits_whole 8 1 (by omega) h8 (hu8 _) (by omega) (by omega) (by omega)
  have hprotocol : readBits 8 72 80 b mem = pure header.protocol.toNat :=
    readBits_whole 9 1 (by omega) h9 (hu8 _) (by omega) (by omega) (by omega)
  have hchecksum : readBits 16 80 96 b mem = pure header.headerChecksum.toNat :=
    readBits_whole 10 2 (by omega) h10 (hu16 _) (by omega) (by omega) (by omega)
  have hsource : readBits 32 96 128 b mem = pure header.sourceIp.toNat :=
    readBits_whole 12 4 (by omega) h12 (hu32 _) (by omega) (by omega) (by omega)
  have hdestination : readBits 32 128 160 b mem = pure header.destinationIp.toNat :=
    readBits_whole 16 4 (by omega) h16 (hu32 _) (by omega) (by omega) (by omega)
  rw [readIpv4Header, hversionRead, Checked.pure_bind, if_neg (by omega), hihlRead,
    Checked.pure_bind, hdscpRead, Checked.pure_bind, hecnRead, Checked.pure_bind, htotal,
    Checked.pure_bind, hident, Checked.pure_bind, hflagsRead, Checked.pure_bind, hoffsetRead,
    Checked.pure_bind, htime, Checked.pure_bind, hprotocol, Checked.pure_bind, hchecksum,
    Checked.pure_bind, hsource, Checked.pure_bind, hdestination, Checked.pure_bind]
  simp only [UInt8.ofNat_toNat, UInt16.ofNat_toNat, UInt32.ofNat_toNat]

/-! ### Records -/

theorem length_encode_ethernet (frame : Frame) : frame.ethernet.encode.length = 14 := by
  rw [EthernetFrame.encode, List.length_append, List.length_append, frame.length_destination,
    frame.length_source, length_beEncode]

theorem length_encode_ip (frame : Frame) : frame.ip.encode.length = 4 * frame.ip.ihl.toNat := by
  have := frame.five_le_ihl
  simp only [Ipv4Header.encode, List.length_append, length_beEncode, frame.length_options]
  omega

theorem UdpHeader.length_encode (header : UdpHeader) : header.encode.length = 8 := by
  simp only [UdpHeader.encode, List.length_append, length_beEncode]

theorem Frame.length_encode (frame : Frame) : frame.encode.length
    = 14 + (4 * frame.ip.ihl.toNat + (8 + (frame.payload.length + frame.padding.length))) := by
  rw [Frame.encode, List.length_append, List.length_append, List.length_append, List.length_append,
    length_encode_ethernet, length_encode_ip, UdpHeader.length_encode]

/-- What is made of a frame.  The size of the IPv4 header is the only thing that
depends on its length. -/
theorem Frame.processRecord_eq (frame : Frame) {mem : Memory} {off : ℕ}
    (hmem : mem.slice off frame.encode.length = frame.encode) :
    processRecord ⟨off, frame.encode.length⟩ mem = (do
      let rest ← advance ⟨off + 14, frame.encode.length - 14⟩ frame.ip.serializedSize
      let udpHeader ← readUdpHeader rest mem
      let rest ← advance rest 8
      pure (.ok (some {
        etherFrame := { frame.ethernet with
          sourceMacAddress := frame.ethernet.destinationMacAddress }
        ipHeader := { frame.ip with options := List.replicate 36 0 }
        udpHeader := udpHeader
        payload := rest
        isNeptunPacket := udpHeader.sourcePort == 7778 || udpHeader.sourcePort == 7779 }))) := by
  have hihl := frame.five_le_ihl
  have hlength := frame.length_encode
  obtain ⟨hethernet, hrest⟩ := Memory.slice_eq_of_append hmem
  rw [length_encode_ethernet] at hrest
  obtain ⟨hip, -⟩ := Memory.slice_eq_of_append hrest
  have hether := readEtherFrame_of_bytes (b := ⟨off, frame.encode.length⟩) frame.length_destination
    frame.length_source (by dsimp only; omega) hethernet
  have hheader := readIpv4Header_of_bytes (b := ⟨off + 14, frame.encode.length - 14⟩)
    frame.inRange (by dsimp only; omega) hip
  have hadvance : advance ⟨off, frame.encode.length⟩ 14
      = pure ⟨off + 14, frame.encode.length - 14⟩ :=
    advance_of_le (by dsimp only; omega)
  rw [processRecord, hether, Checked.pure_bind, EthernetFrame.serializedSize, hadvance,
    Checked.pure_bind, if_neg (not_not.mpr frame.etherType), hheader, Checked.pure_bind]
  simp only [frame.protocol, ne_eq, not_true_eq_false, if_false, UdpHeader.serializedSize]
  rfl

/-- A header of more than five words counts fourteen. -/
theorem Ipv4Header.serializedSize_eq_iff {header : Ipv4Header} (h : 5 ≤ header.ihl.toNat) :
    header.serializedSize = 4 * header.ihl.toNat
      ↔ header.ihl.toNat = 5 ∨ header.ihl.toNat = 14 := by
  have hlt : header.ihl > 5 ↔ 5 < header.ihl.toNat := UInt8.lt_iff_toNat_lt
  by_cases hgt : 5 < header.ihl.toNat
  · rw [serializedSize, if_pos (hlt.mpr hgt)]
    omega
  · rw [serializedSize, if_neg (mt hlt.mp hgt)]
    omega

/-- The record of a frame that is recovered. -/
def Frame.recovered (frame : Frame) (off : ℕ) : Record where
  etherFrame := frame.ethernet
  ipHeader := { frame.ip with options := List.replicate 36 0 }
  udpHeader := frame.udp
  payload := ⟨off + (14 + (4 * frame.ip.ihl.toNat + 8)), frame.payload.length⟩
  isNeptunPacket := frame.udp.sourcePort == 7778 || frame.udp.sourcePort == 7779

theorem Frame.processRecord_eq_recovered (frame : Frame) {mem : Memory} {off : ℕ}
    (hmem : mem.slice off frame.encode.length = frame.encode)
    (hsource : frame.ethernet.sourceMacAddress = frame.ethernet.destinationMacAddress)
    (hpadding : frame.padding = []) (hihl : frame.ip.ihl.toNat = 5 ∨ frame.ip.ihl.toNat = 14) :
    processRecord ⟨off, frame.encode.length⟩ mem = pure (.ok (some (frame.recovered off))) := by
  have hsize := (Ipv4Header.serializedSize_eq_iff frame.five_le_ihl).mpr hihl
  have hlength := frame.length_encode
  rw [hpadding, List.length_nil, Nat.add_zero] at hlength
  -- the UDP header is behind the two others
  obtain ⟨-, hrest⟩ := Memory.slice_eq_of_append hmem
  obtain ⟨-, hrest⟩ := Memory.slice_eq_of_append hrest
  obtain ⟨hudp, -⟩ := Memory.slice_eq_of_append hrest
  rw [length_encode_ethernet, length_encode_ip] at hudp
  have hip : advance ⟨off + 14, frame.encode.length - 14⟩ (4 * frame.ip.ihl.toNat)
      = pure ⟨off + 14 + 4 * frame.ip.ihl.toNat, 8 + frame.payload.length⟩ := by
    rw [advance_of_le (by dsimp only; omega)]
    congr 2
    dsimp only
    omega
  have hread : readUdpHeader ⟨off + 14 + 4 * frame.ip.ihl.toNat, 8 + frame.payload.length⟩ mem
      = pure frame.udp :=
    readUdpHeader_of_bytes (by dsimp only; omega) hudp
  have hleft : advance ⟨off + 14 + 4 * frame.ip.ihl.toNat, 8 + frame.payload.length⟩ 8
      = pure ⟨off + (14 + (4 * frame.ip.ihl.toNat + 8)), frame.payload.length⟩ := by
    rw [advance_of_le (by dsimp only; omega), Nat.add_sub_cancel_left, Nat.add_assoc, Nat.add_assoc]
  rw [frame.processRecord_eq hmem, hsize, hip, Checked.pure_bind, hread, Checked.pure_bind, hleft,
    Checked.pure_bind, ← hsource]
  rfl

/-- Nothing else than the source address, the length and the padding keeps a frame from
being recovered. -/
theorem Frame.of_recovers (frame : Frame) {mem : Memory} {off : ℕ} {record : Record}
    (hmem : mem.slice off frame.encode.length = frame.encode)
    (hrecord : processRecord ⟨off, frame.encode.length⟩ mem = pure (.ok (some record)))
    (h : record.Recovers off frame) :
    frame.ethernet.sourceMacAddress = frame.ethernet.destinationMacAddress ∧
      frame.padding = [] ∧ (frame.ip.ihl.toNat = 5 ∨ frame.ip.ihl.toNat = 14) := by
  obtain ⟨hether, -, -, hpayload⟩ := h
  rw [frame.processRecord_eq hmem] at hrecord
  have hval := congrArg Checked.val hrecord
  simp only [Checked.val_bind, Checked.val_pure, val_advance, Except.ok.injEq, Option.some.injEq]
    at hval
  rw [← hval] at hether hpayload
  obtain ⟨hoff, hleft⟩ := Span.mk.inj hpayload
  have hihl := (Ipv4Header.serializedSize_eq_iff frame.five_le_ihl).mp (by omega)
  have hlength := frame.length_encode
  have hsize := (Ipv4Header.serializedSize_eq_iff frame.five_le_ihl).mpr hihl
  refine ⟨(congrArg EthernetFrame.sourceMacAddress hether).symm, ?_, hihl⟩
  -- the padding is what the span left has more than the payload
  have hfits : 4 * frame.ip.ihl.toNat ≤ frame.encode.length - 14 := by omega
  rw [hsize, usizeSub_of_le hfits, usizeSub_of_le (by omega)] at hleft
  exact List.eq_nil_of_length_eq_zero (by omega)

/-- **Frames.**  A frame is recovered iff its two addresses are the same, there is no
padding behind the packet, and the length of the IPv4 header is one of the two that the
size of a header can be; its options are recovered if they are all zero as well. -/
theorem recovers_iff (frame : Frame) {mem : Memory} {off : ℕ}
    (hmem : mem.slice off frame.encode.length = frame.encode) :
    let processed := processRecord ⟨off, frame.encode.length⟩ mem
    let addresses := frame.ethernet.sourceMacAddress = frame.ethernet.destinationMacAddress
    let ihl := frame.ip.ihl.toNat
    ((∃ record, processed = pure (.ok (some record)) ∧ record.Recovers off frame)
      ↔ addresses ∧ frame.padding = [] ∧ (ihl = 5 ∨ ihl = 14)) ∧
    ((∃ record, processed = pure (.ok (some record)) ∧ record.Recovers off frame ∧
        record.RecoversOptions frame)
      ↔ addresses ∧ frame.padding = [] ∧
        (ihl = 5 ∨ ihl = 14 ∧ frame.ip.options = List.replicate 36 0)) := by
  intro processed addresses ihl
  have hrecovered : addresses → frame.padding = [] → (ihl = 5 ∨ ihl = 14) →
      processed = pure (.ok (some (frame.recovered off))) ∧
        (frame.recovered off).Recovers off frame := fun hsource hpadding hihl =>
    ⟨frame.processRecord_eq_recovered hmem hsource hpadding hihl, rfl, rfl, rfl, rfl⟩
  constructor
  · constructor
    · rintro ⟨record, hrecord, h⟩
      exact frame.of_recovers hmem hrecord h
    · rintro ⟨hsource, hpadding, hihl⟩
      exact ⟨_, hrecovered hsource hpadding hihl⟩
  · constructor
    · rintro ⟨record, hrecord, h, hoptions⟩
      obtain ⟨hsource, hpadding, hihl⟩ := frame.of_recovers hmem hrecord h
      refine ⟨hsource, hpadding, hihl.imp_right fun hihl => ⟨hihl, ?_⟩⟩
      -- the record is the recovered one, whose options are zero
      have hsame := Checked.pure_inj
        (hrecord.symm.trans (hrecovered hsource hpadding (Or.inr hihl)).1)
      have hzero : record.ipHeader.options = List.replicate 36 0 := by
        rw [Option.some.inj (Except.ok.inj hsame)]
        rfl
      rw [← hzero]
      exact (hoptions (by omega)).symm
    · rintro ⟨hsource, hpadding, hihl⟩
      obtain ⟨hprocessed, h⟩ := hrecovered hsource hpadding (hihl.imp_right And.left)
      refine ⟨_, hprocessed, h, fun hlong => ?_⟩
      obtain hihl | ⟨-, hoptions⟩ := hihl
      · omega
      · exact hoptions.symm

/-- A frame of the loopback device, whose addresses are all zero. -/
def loopbackFrame : Frame where
  ethernet := ⟨List.replicate 6 0, List.replicate 6 0, 0x0800⟩
  ip := ⟨4, 5, 0, 0, 31, 0x1234, 2, 0, 64, 0x11, 0xbeef, 0x7f000001, 0x7f000001, []⟩
  udp := ⟨7778, 7779, 11, 0xfe1e⟩
  payload := [1, 2, 3]
  padding := []
  length_destination := rfl
  length_source := rfl
  etherType := rfl
  inRange := ⟨rfl, by decide, by decide, by decide, by decide, by decide⟩
  five_le_ihl := by decide
  protocol := rfl
  length_options := rfl

/-- The same frame with two options, from one device to another. -/
def routedFrame : Frame where
  ethernet := ⟨[2, 0, 0, 0, 0, 1], [2, 0, 0, 0, 0, 2], 0x0800⟩
  ip := ⟨4, 6, 0, 0, 35, 0x1234, 2, 0, 64, 0x11, 0xbeef, 0x7f000001, 0x7f000001, [1, 1, 1, 0]⟩
  udp := ⟨7778, 7779, 11, 0xfe1e⟩
  payload := [1, 2, 3]
  padding := []
  length_destination := rfl
  length_source := rfl
  etherType := rfl
  inRange := ⟨rfl, by decide, by decide, by decide, by decide, by decide⟩
  five_le_ihl := by decide
  protocol := rfl
  length_options := rfl

/-- A frame of the loopback device is recovered. -/
theorem recovers_loopback :
    ∃ record, processRecord ⟨0, 45⟩ (Memory.storeList (fun _ => 0) 0 loopbackFrame.encode)
      = pure (.ok (some record)) ∧ record.Recovers 0 loopbackFrame ∧
        record.RecoversOptions loopbackFrame :=
  (recovers_iff loopbackFrame (Memory.slice_storeList_self _ 0 _)).2.mpr
    ⟨rfl, rfl, Or.inl rfl⟩

/-- The frame between two devices: the wrong source, and a payload of `2 ^ 64 - 29` bytes
behind the end of the frame. -/
theorem frame_not_recovered :
    let mem := Memory.storeList (fun _ => 0) 0 routedFrame.encode
    (∃ record, (processRecord ⟨0, 49⟩ mem).val = .ok (some record) ∧
      record.etherFrame.sourceMacAddress = [2, 0, 0, 0, 0, 1] ∧
      record.payload = ⟨78, 2 ^ 64 - 29⟩) ∧
    ¬ ∀ (frame : Frame) (mem : Memory) (off : ℕ),
      mem.slice off frame.encode.length = frame.encode →
        ∃ record, (processRecord ⟨off, frame.encode.length⟩ mem).val = .ok (some record) ∧
          record.Recovers off frame := by
  intro mem
  have hprocessed : (processRecord ⟨0, 49⟩ mem).val = .ok (some {
      etherFrame := ⟨[2, 0, 0, 0, 0, 1], [2, 0, 0, 0, 0, 1], 0x0800⟩
      ipHeader := { routedFrame.ip with options := List.replicate 36 0 }
      udpHeader := ⟨0, 0, 0, 0⟩
      payload := ⟨78, 2 ^ 64 - 29⟩
      isNeptunPacket := false }) := by
    decide +kernel
  refine ⟨⟨_, hprocessed, rfl, rfl⟩, fun h => ?_⟩
  obtain ⟨record, hrecord, hether, -⟩ :=
    h routedFrame mem 0 (Memory.slice_storeList_self _ 0 routedFrame.encode)
  rw [← Option.some.inj (Except.ok.inj (hprocessed.symm.trans hrecord))] at hether
  exact absurd hether (by decide)

end Neptun
