/-
The capture tool: a file of records, read up to its end and printed record by record.

`process_pcap_file` reads a header of the file and then, until the stream is at its end, the
header and the data of a record, the latter into one buffer for all of them.  No read is
checked.  Behind the last record the stream is not at its end yet: the header that is read
there is left as the zeros it was filled with, and a record of no bytes is none.  Numbers are
read as they lie in the file, which is right on a little-endian machine for a file of such a
machine.

The result is the list of what is printed, in place of the text; the loops get fuel.

* `processLoop_frames` — the frames of a capture are printed one after the other, whatever
  comes behind them;
* `capture_is_printed` — a capture of frames that are recovered is printed to its end.
-/
import Neptun.FormatAgreement
import Neptun.Pcap

namespace Neptun

/-! ### The stream -/

/-- A `std::fstream` that is read: what is left of the file, and two bits of its state. -/
structure FStream where
  rest : List UInt8
  eof : Bool := false
  fail : Bool := false
  deriving DecidableEq, Repr

/-- `read`: nothing if the stream is not good, and what is left if that is too little. -/
def FStream.read (file : FStream) (count : ℕ) : List UInt8 × FStream :=
  if file.eof || file.fail then
    ([], { file with fail := true })
  else if count ≤ file.rest.length then
    (file.rest.take count, { file with rest := file.rest.drop count })
  else
    (file.rest, ⟨[], true, true⟩)

/-- Bytes that are read over an object. -/
def overwrite (bytes object : List UInt8) : List UInt8 := bytes ++ object.drop bytes.length

/-! ### Headers -/

structure PcapGlobalHeader where
  magicNumber : UInt32
  versionMajor : UInt16
  versionMinor : UInt16
  thiszone : Int32
  sigfigs : UInt32
  snaplen : UInt32
  network : UInt32
  deriving DecidableEq, Repr

/-- The header in the bytes of an object. -/
def PcapGlobalHeader.ofBytes (bytes : List UInt8) : PcapGlobalHeader :=
  let (magicNumber, bytes) := leSplit 4 bytes
  let (versionMajor, bytes) := leSplit 2 bytes
  let (versionMinor, bytes) := leSplit 2 bytes
  let (thiszone, bytes) := leSplit 4 bytes
  let (sigfigs, bytes) := leSplit 4 bytes
  let (snaplen, bytes) := leSplit 4 bytes
  let (network, _) := leSplit 4 bytes
  { magicNumber := .ofNat magicNumber
    versionMajor := .ofNat versionMajor
    versionMinor := .ofNat versionMinor
    thiszone := (UInt32.ofNat thiszone).toInt32
    sigfigs := .ofNat sigfigs
    snaplen := .ofNat snaplen
    network := .ofNat network }

def PcapGlobalHeader.reverseByteOrder : Except String PcapGlobalHeader :=
  .error "reverse byte order not implemented"

structure PcapRecordHeader where
  tsSec : UInt32
  tsUsec : UInt32
  inclLen : UInt32
  origLen : UInt32
  deriving DecidableEq, Repr

/-- The header in the bytes of an object. -/
def PcapRecordHeader.ofBytes (bytes : List UInt8) : PcapRecordHeader :=
  let (tsSec, bytes) := leSplit 4 bytes
  let (tsUsec, bytes) := leSplit 4 bytes
  let (inclLen, bytes) := leSplit 4 bytes
  let (origLen, _) := leSplit 4 bytes
  ⟨.ofNat tsSec, .ofNat tsUsec, .ofNat inclLen, .ofNat origLen⟩

def PcapRecordHeader.reverseByteOrder : Except String PcapRecordHeader :=
  .error "reverse byte order not implemented"

/-- The bytes of the object before are `uninitialised`. -/
def readGlobalHeader (uninitialised : List UInt8) (file : FStream) :
    Except String (PcapGlobalHeader × Bool × FStream) := do
  let (bytes, file) := file.read 24
  let globalHeader := PcapGlobalHeader.ofBytes (overwrite bytes uninitialised)
  let reverseByteOrder := globalHeader.magicNumber == 0xd4c3b2a1
  if reverseByteOrder then
    let globalHeader ← PcapGlobalHeader.reverseByteOrder
    pure (globalHeader, reverseByteOrder, file)
  else
    pure (globalHeader, reverseByteOrder, file)

def readRecordHeader (file : FStream) (reverseByteOrder : Bool) :
    Except String (PcapRecordHeader × FStream) := do
  let (bytes, file) := file.read 16
  if reverseByteOrder then
    let recordHeader ← PcapRecordHeader.reverseByteOrder
    pure (recordHeader, file)
  else
    pure (.ofBytes (overwrite bytes (List.replicate 16 0)), file)

/-! ### Records -/

/-- The ways in which the tool can break an obligation. -/
inductive PcapFault
  /-- `read_packet_data`: `record_header.incl_len == record_header.orig_len`. -/
  | recordLength
  /-- The data of a record is stored behind the buffer. -/
  | store
  /-- More bytes than the buffer has are taken from its front. -/
  | first
  /-- What `process_record` breaks. -/
  | record (f : Fault)
  deriving DecidableEq, Repr

def readPacketData (file : FStream) (recordHeader : PcapRecordHeader) (buffer : Span)
    (mem : Memory) : Checked PcapFault (Span × Memory × FStream) := do
  Checked.check (recordHeader.inclLen = recordHeader.origLen) .recordLength
  let (bytes, file) := file.read recordHeader.inclLen.toNat
  Checked.check (bytes.length ≤ buffer.size) .store
  Checked.check (recordHeader.inclLen.toNat ≤ buffer.size) .first
  pure (⟨buffer.off, recordHeader.inclLen.toNat⟩, mem.storeList buffer.off bytes, file)

/-- What is printed of a record. -/
structure PrintedRecord where
  recordIndex : ℕ
  /-- The seconds of its time, which the C library makes a text of. -/
  time : ℕ
  sourceIp : IpAddress
  destinationIp : IpAddress
  length : UInt16
  /-- The packet, or nothing if its port is another one. -/
  neptunStructure : Option (PacketHeader × List FormattedSegment)
  deriving DecidableEq, Repr

/-- Why a record is not printed, and none behind it. -/
inductive Stop
  | thrown (what : String)
  | outOfFuel
  deriving DecidableEq, Repr

/-- The whole seconds of `to_sys_time`. -/
def toTime (s u : UInt32) : ℕ := s.toNat + u.toNat / 10 ^ 6

/-- The line of a record, up to the packet. -/
def Record.line (record : Record) (recordHeader : PcapRecordHeader) (recordIndex : ℕ)
    (neptunStructure : Option (PacketHeader × List FormattedSegment)) : PrintedRecord where
  recordIndex := recordIndex
  time := toTime recordHeader.tsSec recordHeader.tsUsec
  sourceIp := ⟨record.ipHeader.sourceIp, record.udpHeader.sourcePort⟩
  destinationIp := ⟨record.ipHeader.destinationIp, record.udpHeader.destinationPort⟩
  length := record.udpHeader.length
  neptunStructure := neptunStructure

/-- `process_record` with what it prints, if that is anything. -/
def printRecord (formatFuel : ℕ) (recordHeader : PcapRecordHeader) (recordPayload : Span)
    (mem : Memory) (recordIndex : ℕ) : Checked Fault (Except Stop (Option PrintedRecord)) := do
  match ← processRecord recordPayload mem with
  | .error what => pure (.error (.thrown what))
  | .ok none => pure (.ok none)
  | .ok (some record) =>
    if record.isNeptunPacket then do
      let (header, segments, stop) ← formatNeptunPayload formatFuel record.payload mem
      match stop with
      | .done _ => pure (.ok (some (record.line recordHeader recordIndex (header, segments))))
      | .thrown what => pure (.error (.thrown what))
      | .outOfFuel => pure (.error .outOfFuel)
    else
      pure (.ok (some (record.line recordHeader recordIndex none)))

/-! ### Files -/

/-- How the tool ends. -/
inductive PcapEnd
  /-- The number of records that is printed last. -/
  | processed (count : ℕ)
  | stopped (stop : Stop)
  deriving DecidableEq, Repr

/-- The loop over the records. -/
def processLoop (formatFuel : ℕ) (reverseByteOrder : Bool) (buffer : Span) :
    ℕ → FStream → Memory → ℕ → Checked PcapFault (List PrintedRecord × PcapEnd)
  | 0, _, _, _ => pure ([], .stopped .outOfFuel)
  | fuel + 1, file, mem, count =>
    if file.eof then
      pure ([], .processed count)
    else
      match readRecordHeader file reverseByteOrder with
      | .error what => pure ([], .stopped (.thrown what))
      | .ok (recordHeader, file) => do
        let (payload, mem, file) ← readPacketData file recordHeader buffer mem
        if payload.size = 0 then
          processLoop formatFuel reverseByteOrder buffer fuel file mem count
        else
          match ← (printRecord formatFuel recordHeader payload mem (count + 1)).mapFaults .record
          with
          | .error stop => pure ([], .stopped stop)
          | .ok printed => do
            let (lines, stop) ←
              processLoop formatFuel reverseByteOrder buffer fuel file mem (count + 1)
            pure (printed.toList ++ lines, stop)

/-- `process_pcap_file`, with a buffer at the address `off` of the heap. -/
def processPcapFile (formatFuel fuel : ℕ) (uninitialised : List UInt8) (heap : Memory) (off : ℕ)
    (file : FStream) : Checked PcapFault (List PrintedRecord × PcapEnd) :=
  match readGlobalHeader uninitialised file with
  | .error what => pure ([], .stopped (.thrown what))
  | .ok (globalHeader, reverseByteOrder, file) =>
    let snaplen := globalHeader.snaplen.toNat
    processLoop formatFuel reverseByteOrder ⟨off, snaplen⟩ fuel file
      (heap.storeList off (List.replicate snaplen 0)) 0

/-! ### Captures -/

def PcapGlobalHeader.encode (header : PcapGlobalHeader) : List UInt8 :=
  leEncode 4 header.magicNumber.toNat ++
  (leEncode 2 header.versionMajor.toNat ++
  (leEncode 2 header.versionMinor.toNat ++
  (leEncode 4 header.thiszone.toUInt32.toNat ++
  (leEncode 4 header.sigfigs.toNat ++
  (leEncode 4 header.snaplen.toNat ++ leEncode 4 header.network.toNat)))))

def PcapRecordHeader.encode (header : PcapRecordHeader) : List UInt8 :=
  leEncode 4 header.tsSec.toNat ++
  (leEncode 4 header.tsUsec.toNat ++
  (leEncode 4 header.inclLen.toNat ++ leEncode 4 header.origLen.toNat))

/-- A frame, and when it was captured. -/
structure CapturedFrame where
  tsSec : UInt32
  tsUsec : UInt32
  frame : Frame

namespace CapturedFrame

/-- The header of the record of a frame that is captured as a whole. -/
def header (r : CapturedFrame) : PcapRecordHeader :=
  let length := UInt32.ofNat r.frame.encode.length
  ⟨r.tsSec, r.tsUsec, length, length⟩

def encode (r : CapturedFrame) : List UInt8 := r.header.encode ++ r.frame.encode

end CapturedFrame

/-- A capture of whole frames, made on a machine of the same byte order. -/
structure Capture where
  globalHeader : PcapGlobalHeader
  frames : List CapturedFrame
  byteOrder : globalHeader.magicNumber ≠ 0xd4c3b2a1
  le_snaplen : ∀ r ∈ frames, r.frame.encode.length ≤ globalHeader.snaplen.toNat

def Capture.encode (capture : Capture) : List UInt8 :=
  capture.globalHeader.encode ++ capture.frames.flatMap CapturedFrame.encode

/-! ### Reading what was written -/

theorem FStream.read_append (bytes rest : List UInt8) :
    (FStream.mk (bytes ++ rest) false false).read bytes.length = (bytes, ⟨rest, false, false⟩) := by
  have hle : bytes.length ≤ (bytes ++ rest).length := by
    rw [List.length_append]
    omega
  rw [read]
  simp only [Bool.or_self, Bool.false_eq_true, if_false, if_pos hle, List.take_left, List.drop_left]

/-- Nothing is read from a stream at its end. -/
theorem FStream.read_eof {file : FStream} (h : file.eof = true) (count : ℕ) :
    file.read count = ([], { file with fail := true }) := by
  rw [read, if_pos (by rw [h]; rfl)]

theorem FStream.read_short {rest : List UInt8} {count : ℕ} (h : rest.length < count) :
    (FStream.mk rest false false).read count = (rest, ⟨[], true, true⟩) := by
  rw [read]
  simp only [Bool.or_self, Bool.false_eq_true, if_false, if_neg (Nat.not_le.mpr h)]

theorem PcapGlobalHeader.length_encode (header : PcapGlobalHeader) :
    header.encode.length = 24 := by
  simp only [encode, List.length_append, length_leEncode]

theorem PcapRecordHeader.length_encode (header : PcapRecordHeader) :
    header.encode.length = 16 := by
  simp only [encode, List.length_append, length_leEncode]

theorem PcapGlobalHeader.ofBytes_encode (header : PcapGlobalHeader) (rest : List UInt8) :
    ofBytes (header.encode ++ rest) = header := by
  have h2 : ∀ x : UInt16, x.toNat < 256 ^ 2 := fun x => x.toNat_lt
  have h4 : ∀ x : UInt32, x.toNat < 256 ^ 4 := fun x => x.toNat_lt
  simp only [ofBytes, encode, List.append_assoc, leSplit_leEncode (h2 _), leSplit_leEncode (h4 _),
    UInt16.ofNat_toNat, UInt32.ofNat_toNat]
  rfl

theorem PcapRecordHeader.ofBytes_encode (header : PcapRecordHeader) (rest : List UInt8) :
    ofBytes (header.encode ++ rest) = header := by
  have h4 : ∀ x : UInt32, x.toNat < 256 ^ 4 := fun x => x.toNat_lt
  simp only [ofBytes, encode, List.append_assoc, leSplit_leEncode (h4 _), UInt32.ofNat_toNat]

theorem readGlobalHeader_encode {header : PcapGlobalHeader}
    (h : header.magicNumber ≠ 0xd4c3b2a1) (uninitialised rest : List UInt8) :
    readGlobalHeader uninitialised ⟨header.encode ++ rest, false, false⟩
      = .ok (header, false, ⟨rest, false, false⟩) := by
  have hread := FStream.read_append header.encode rest
  rw [header.length_encode] at hread
  rw [readGlobalHeader, hread]
  dsimp only
  rw [overwrite, header.ofBytes_encode, beq_false_of_ne h]
  rfl

theorem readRecordHeader_encode (header : PcapRecordHeader) (rest : List UInt8) :
    readRecordHeader ⟨header.encode ++ rest, false, false⟩ false
      = .ok (header, ⟨rest, false, false⟩) := by
  have hread := FStream.read_append header.encode rest
  rw [header.length_encode] at hread
  rw [readRecordHeader, hread]
  dsimp only
  rw [overwrite, header.ofBytes_encode]
  rfl

/-- Behind the last record, an empty one is found at the end of the file. -/
theorem readRecordHeader_tail {tail : List UInt8} (h : tail.length ≤ 8) :
    ∃ header : PcapRecordHeader, header.inclLen = 0 ∧ header.origLen = 0 ∧
      readRecordHeader ⟨tail, false, false⟩ false = .ok (header, ⟨[], true, true⟩) := by
  have hzeros : ((overwrite tail (List.replicate 16 0)).drop 4).drop 4 = List.replicate 8 0 := by
    rw [List.drop_drop, overwrite, List.drop_replicate, List.drop_append,
      List.drop_eq_nil_of_le h, List.drop_replicate, List.nil_append]
    congr 1
    omega
  refine ⟨.ofBytes (overwrite tail (List.replicate 16 0)), ?_, ?_, ?_⟩
  · simp only [PcapRecordHeader.ofBytes, leSplit, hzeros]
    rfl
  · simp only [PcapRecordHeader.ofBytes, leSplit, hzeros]
    rfl
  · rw [readRecordHeader, FStream.read_short (by omega)]
    rfl

/-! ### A record -/

/-- What `recovers_iff` asks of a frame. -/
structure Frame.Recoverable (frame : Frame) : Prop where
  addresses : frame.ethernet.sourceMacAddress = frame.ethernet.destinationMacAddress
  padding : frame.padding = []
  ihl : frame.ip.ihl.toNat = 5 ∨ frame.ip.ihl.toNat = 14

/-- Wherever the payload lies, the formatter finds these segments in it and nothing else. -/
def Shows (payload : List UInt8) (header : PacketHeader) (segments : List FormattedSegment) :
    Prop :=
  ∀ (mem : Memory) (off : ℕ), mem.slice off payload.length = payload →
    ∃ fuel, formatNeptunPayload fuel ⟨off, payload.length⟩ mem
      = pure (header, segments, .done ⟨off + payload.length, 0⟩)

/-- What is printed of the payload of a frame, by its port. -/
inductive Frame.Prints (frame : Frame) : Option (PacketHeader × List FormattedSegment) → Prop
  | neptun {header : PacketHeader} {segments : List FormattedSegment}
      (port : frame.udp.sourcePort = 7778 ∨ frame.udp.sourcePort = 7779)
      (found : Shows frame.payload header segments) : frame.Prints (some (header, segments))
  | other (port : ¬ (frame.udp.sourcePort = 7778 ∨ frame.udp.sourcePort = 7779)) :
      frame.Prints none

/-- The line of a frame. -/
def CapturedFrame.line (r : CapturedFrame) (recordIndex : ℕ)
    (neptunStructure : Option (PacketHeader × List FormattedSegment)) : PrintedRecord where
  recordIndex := recordIndex
  time := r.tsSec.toNat + r.tsUsec.toNat / 10 ^ 6
  sourceIp := ⟨r.frame.ip.sourceIp, r.frame.udp.sourcePort⟩
  destinationIp := ⟨r.frame.ip.destinationIp, r.frame.udp.destinationPort⟩
  length := r.frame.udp.length
  neptunStructure := neptunStructure

/-- The payload of a frame, behind its headers. -/
theorem Frame.slice_payload (frame : Frame) (hpadding : frame.padding = []) {mem : Memory}
    {off : ℕ} (hmem : mem.slice off frame.encode.length = frame.encode) :
    mem.slice (off + (14 + (4 * frame.ip.ihl.toNat + 8))) frame.payload.length
      = frame.payload := by
  obtain ⟨-, hrest⟩ := Memory.slice_eq_of_append hmem
  obtain ⟨-, hrest⟩ := Memory.slice_eq_of_append hrest
  obtain ⟨-, hrest⟩ := Memory.slice_eq_of_append hrest
  rw [length_encode_ethernet, length_encode_ip, UdpHeader.length_encode, hpadding,
    List.append_nil, Nat.add_assoc, Nat.add_assoc] at hrest
  exact hrest

theorem printRecord_frame {r : CapturedFrame} (hr : r.frame.Recoverable)
    {neptunStructure : Option (PacketHeader × List FormattedSegment)}
    (hprints : r.frame.Prints neptunStructure) {mem : Memory} {off : ℕ}
    (hmem : mem.slice off r.frame.encode.length = r.frame.encode) (recordIndex : ℕ) :
    ∃ enough, ∀ formatFuel, enough ≤ formatFuel →
      printRecord formatFuel r.header ⟨off, r.frame.encode.length⟩ mem recordIndex
        = pure (.ok (some (r.line recordIndex neptunStructure))) := by
  have hrecord := r.frame.processRecord_eq_recovered hmem hr.addresses hr.padding hr.ihl
  cases hprints with
  | neptun port found =>
    obtain ⟨enough, hformat⟩ := found mem _ (r.frame.slice_payload hr.padding hmem)
    refine ⟨enough, fun formatFuel hle => ?_⟩
    rw [printRecord, hrecord, Checked.pure_bind]
    dsimp only
    rw [if_pos]
    · rw [Frame.recovered, formatNeptunPayload_mono hformat hle, Checked.pure_bind]
      rfl
    · rw [Frame.recovered]
      simpa using port
  | other port =>
    refine ⟨0, fun formatFuel _ => ?_⟩
    rw [printRecord, hrecord, Checked.pure_bind]
    dsimp only
    rw [if_neg]
    · rfl
    · rw [Frame.recovered]
      simpa using port

/-! ### The loop -/

section

variable {buffer : Span} {mem : Memory}

theorem readPacketData_of_read {file file' : FStream} {bytes : List UInt8}
    (recordHeader : PcapRecordHeader)
    (hread : file.read recordHeader.inclLen.toNat = (bytes, file'))
    (hlengths : recordHeader.inclLen = recordHeader.origLen)
    (hbytes : bytes.length ≤ buffer.size) (hsize : recordHeader.inclLen.toNat ≤ buffer.size) :
    readPacketData file recordHeader buffer mem
      = pure (⟨buffer.off, recordHeader.inclLen.toNat⟩, mem.storeList buffer.off bytes, file') := by
  rw [readPacketData, Checked.check_of hlengths, Checked.pure_bind, hread]
  dsimp only
  rw [Checked.check_of hbytes, Checked.pure_bind, Checked.check_of hsize, Checked.pure_bind]

/-- One turn of the loop prints the line of the frame that is in the buffer then. -/
theorem processLoop_record {r : CapturedFrame} (hr : r.frame.Recoverable)
    {neptunStructure : Option (PacketHeader × List FormattedSegment)}
    (hprints : r.frame.Prints neptunStructure) (hsize : r.frame.encode.length ≤ buffer.size)
    (hbuffer : buffer.size < 2 ^ 32) {bytes : List UInt8}
    (hbytes : bytes.length ≤ r.frame.encode.length)
    (hmem : (mem.storeList buffer.off bytes).slice buffer.off r.frame.encode.length
      = r.frame.encode) (count : ℕ) :
    ∃ enough, ∀ formatFuel, enough ≤ formatFuel → ∀ fuel data file',
      (FStream.mk data false false).read r.frame.encode.length = (bytes, file') →
      let behind := processLoop formatFuel false buffer fuel file'
        (mem.storeList buffer.off bytes) (count + 1)
      processLoop formatFuel false buffer (fuel + 1) ⟨r.header.encode ++ data, false, false⟩ mem
          count
        = ⟨(r.line (count + 1) neptunStructure :: behind.val.1, behind.val.2), behind.faults⟩ := by
  obtain ⟨enough, hprint⟩ := printRecord_frame hr hprints hmem (count + 1)
  refine ⟨enough, fun formatFuel hle fuel data file' hread => ?_⟩
  intro behind
  have hempty : r.frame.encode.length ≠ 0 := by
    rw [r.frame.length_encode]
    omega
  have hlength : r.header.inclLen.toNat = r.frame.encode.length :=
    UInt32.toNat_ofNat_of_lt' (show _ < 2 ^ 32 by omega)
  have hdata : readPacketData ⟨data, false, false⟩ r.header buffer mem
      = pure (⟨buffer.off, r.frame.encode.length⟩, mem.storeList buffer.off bytes, file') := by
    rw [← hlength] at hread hsize ⊢
    exact readPacketData_of_read r.header hread rfl (by omega) hsize
  rw [processLoop, readRecordHeader_encode]
  dsimp only
  rw [if_neg Bool.false_ne_true, hdata, Checked.pure_bind]
  dsimp only
  rw [if_neg hempty, hprint formatFuel hle, Checked.mapFaults_pure, Checked.pure_bind]
  exact Checked.ext rfl (List.append_nil _)

/-- A frame that is read as a whole. -/
theorem processLoop_frame {r : CapturedFrame} (hr : r.frame.Recoverable)
    {neptunStructure : Option (PacketHeader × List FormattedSegment)}
    (hprints : r.frame.Prints neptunStructure) (hsize : r.frame.encode.length ≤ buffer.size)
    (hbuffer : buffer.size < 2 ^ 32) (mem : Memory) (count : ℕ) :
    ∃ enough, ∀ formatFuel, enough ≤ formatFuel → ∀ fuel rest,
      let behind := processLoop formatFuel false buffer fuel ⟨rest, false, false⟩
        (mem.storeList buffer.off r.frame.encode) (count + 1)
      processLoop formatFuel false buffer (fuel + 1) ⟨r.encode ++ rest, false, false⟩ mem count
        = ⟨(r.line (count + 1) neptunStructure :: behind.val.1, behind.val.2), behind.faults⟩ := by
  obtain ⟨enough, hrecord⟩ := processLoop_record hr hprints hsize hbuffer le_rfl
    (Memory.slice_storeList_self mem buffer.off r.frame.encode) count
  refine ⟨enough, fun formatFuel hle fuel rest => ?_⟩
  rw [CapturedFrame.encode, List.append_assoc]
  exact hrecord formatFuel hle fuel _ _ (FStream.read_append _ rest)

/-- The buffer behind the frames. -/
def bufferAfter (buffer : Span) (mem : Memory) (frames : List CapturedFrame) : Memory :=
  frames.foldl (fun mem r => mem.storeList buffer.off r.frame.encode) mem

/-- The frames are printed one after the other, whatever comes behind them. -/
theorem processLoop_frames (frames : List CapturedFrame) (buffer : Span)
    {neptunStructure : CapturedFrame → Option (PacketHeader × List FormattedSegment)}
    (hframes : ∀ r ∈ frames, r.frame.Recoverable ∧ r.frame.Prints (neptunStructure r) ∧
      r.frame.encode.length ≤ buffer.size)
    (hbuffer : buffer.size < 2 ^ 32) (mem : Memory) (count : ℕ) :
    ∃ enough, ∀ formatFuel, enough ≤ formatFuel → ∀ fuel rest,
      let behind := processLoop formatFuel false buffer fuel ⟨rest, false, false⟩
        (bufferAfter buffer mem frames) (count + frames.length)
      processLoop formatFuel false buffer (fuel + frames.length)
          ⟨frames.flatMap CapturedFrame.encode ++ rest, false, false⟩ mem count
        = ⟨(frames.mapIdx (fun i r => r.line (count + i + 1) (neptunStructure r))
          ++ behind.val.1, behind.val.2), behind.faults⟩ := by
  induction frames generalizing mem count with
  | nil =>
    refine ⟨0, fun formatFuel _ fuel rest => ?_⟩
    rfl
  | cons r frames ih =>
    obtain ⟨⟨hr, hprints, hsize⟩, hframes⟩ := List.forall_mem_cons.mp hframes
    obtain ⟨first, hfirst⟩ := processLoop_frame hr hprints hsize hbuffer mem count
    obtain ⟨others, hothers⟩ :=
      ih hframes (mem.storeList buffer.off r.frame.encode) (count + 1)
    refine ⟨max first others, fun formatFuel hle fuel rest => ?_⟩
    intro behind
    have hindex : ∀ i, count + (i + 1) + 1 = count + 1 + i + 1 := fun i => by omega
    have hcount : count + (r :: frames).length = count + 1 + frames.length := by
      rw [List.length_cons]
      omega
    rw [List.length_cons, ← Nat.add_assoc, List.flatMap_cons, List.append_assoc,
      hfirst formatFuel (le_trans (le_max_left _ _) hle),
      hothers formatFuel (le_trans (le_max_right _ _) hle), List.mapIdx_cons]
    simp only [hindex, behind, hcount]
    rfl

/-- Less than a header with a length is no record. -/
theorem processLoop_tail {tail : List UInt8} (h : tail.length ≤ 8) (formatFuel fuel : ℕ)
    (buffer : Span) (mem : Memory) (count : ℕ) :
    processLoop formatFuel false buffer (fuel + 2) ⟨tail, false, false⟩ mem count
      = pure ([], .processed count) := by
  obtain ⟨header, hincl, horig, hread⟩ := readRecordHeader_tail h
  have hlengths : header.inclLen = header.origLen := by rw [hincl, horig]
  rw [processLoop, hread]
  dsimp only
  rw [if_neg Bool.false_ne_true, readPacketData, Checked.check_of hlengths,
    Checked.pure_bind, FStream.read_eof rfl, hincl]
  rfl

end

/-- The frames of a capture are printed one after the other, whatever comes behind them. -/
theorem processPcapFile_frames (capture : Capture)
    {neptunStructure : CapturedFrame → Option (PacketHeader × List FormattedSegment)}
    (hframes : ∀ r ∈ capture.frames,
      r.frame.Recoverable ∧ r.frame.Prints (neptunStructure r))
    (uninitialised : List UInt8) (heap : Memory) (off : ℕ) :
    let buffer : Span := ⟨off, capture.globalHeader.snaplen.toNat⟩
    let mem := bufferAfter buffer
      (heap.storeList off (List.replicate capture.globalHeader.snaplen.toNat 0)) capture.frames
    ∃ enough, ∀ formatFuel, enough ≤ formatFuel → ∀ fuel rest,
      let behind := processLoop formatFuel false buffer fuel ⟨rest, false, false⟩ mem
        capture.frames.length
      processPcapFile formatFuel (fuel + capture.frames.length) uninitialised heap off
          ⟨capture.encode ++ rest, false, false⟩
        = ⟨(capture.frames.mapIdx (fun i r => r.line (i + 1) (neptunStructure r))
          ++ behind.val.1, behind.val.2), behind.faults⟩ := by
  intro buffer mem
  obtain ⟨enough, hloop⟩ := processLoop_frames capture.frames buffer
    (fun r hr => ⟨(hframes r hr).1, (hframes r hr).2, capture.le_snaplen r hr⟩)
    capture.globalHeader.snaplen.toNat_lt
    (heap.storeList off (List.replicate capture.globalHeader.snaplen.toNat 0)) 0
  refine ⟨enough, fun formatFuel hle fuel rest => ?_⟩
  have hloop := hloop formatFuel hle fuel rest
  simp only [Nat.zero_add] at hloop
  rw [processPcapFile, Capture.encode, List.append_assoc,
    readGlobalHeader_encode capture.byteOrder]
  exact hloop

/-- The frame with the first `j` bytes of its payload, and behind them those of another one. -/
def Frame.completed (frame : Frame) (j : ℕ) (old : List UInt8) : Frame :=
  { frame with payload := frame.payload.take j ++ old.drop j }

/-- The headers of a frame. -/
def Frame.headers (frame : Frame) : List UInt8 :=
  frame.ethernet.encode ++ (frame.ip.encode ++ frame.udp.encode)

theorem Frame.length_headers (frame : Frame) :
    frame.headers.length = 14 + (4 * frame.ip.ihl.toNat + 8) := by
  rw [headers, List.length_append, List.length_append, length_encode_ethernet, length_encode_ip,
    UdpHeader.length_encode]

theorem Frame.encode_of_padding {frame : Frame} (hpadding : frame.padding = []) :
    frame.encode = frame.headers ++ frame.payload := by
  rw [encode, headers, hpadding, List.append_nil, List.append_assoc, List.append_assoc]

/-- A part of a frame, stored over another one of its length. -/
theorem Frame.slice_completed {frame last : Frame} (hframe : frame.padding = [])
    (hlast : last.padding = []) (hihl : last.ip.ihl = frame.ip.ihl)
    (hlength : last.payload.length = frame.payload.length) (j : ℕ) (mem : Memory) (off : ℕ) :
    ((mem.storeList off last.encode).storeList off (frame.headers ++ frame.payload.take j)).slice
        off (frame.completed j last.payload).encode.length
      = (frame.completed j last.payload).encode := by
  have hheaders : last.headers.length = frame.headers.length := by
    rw [length_headers, length_headers, hihl]
  have hencode : (frame.completed j last.payload).encode
      = (frame.headers ++ frame.payload.take j) ++ last.payload.drop j := by
    rw [List.append_assoc]
    exact encode_of_padding hframe
  have htake : (frame.headers ++ frame.payload.take j).length
      = (last.headers ++ last.payload.take j).length := by
    rw [List.length_append, List.length_append, List.length_take, List.length_take, hheaders,
      hlength]
  -- the old payload is what lies behind the part
  have hold := Memory.slice_storeList_self mem off last.encode
  rw [encode_of_padding hlast, ← List.take_append_drop j last.payload, ← List.append_assoc] at hold
  obtain ⟨-, hold⟩ := Memory.slice_eq_of_append hold
  rw [List.append_assoc, List.take_append_drop, ← encode_of_padding hlast] at hold
  rw [hencode, List.length_append, Memory.slice_add, Memory.slice_storeList_self,
    Memory.slice_storeList_of_disjoint (Or.inr le_rfl), htake, hold]

/-- The last turn, if the file ends within the payload of a frame. -/
theorem processLoop_cut (buffer : Span) {last r : CapturedFrame}
    (hlast : last.frame.padding = []) (hr : r.frame.Recoverable)
    (hihl : last.frame.ip.ihl = r.frame.ip.ihl)
    (hlength : last.frame.payload.length = r.frame.payload.length) {j : ℕ}
    (hj : j < r.frame.payload.length) {found : Option (PacketHeader × List FormattedSegment)}
    (hfound : (r.frame.completed j last.frame.payload).Prints found)
    (hsize : r.frame.encode.length ≤ buffer.size) (hbuffer : buffer.size < 2 ^ 32) (mem : Memory)
    (count : ℕ) :
    ∃ enough, ∀ formatFuel, enough ≤ formatFuel → ∀ fuel,
      processLoop formatFuel false buffer (fuel + 2)
          ⟨r.header.encode ++ (r.frame.headers ++ r.frame.payload.take j), false, false⟩
          (mem.storeList buffer.off last.frame.encode) count
        = pure ([r.line (count + 1) found], .processed (count + 1)) := by
  -- the frame that is in the buffer then
  obtain ⟨completed, hcompleted⟩ : ∃ completed : CapturedFrame,
      completed = { r with frame := r.frame.completed j last.frame.payload } := ⟨_, rfl⟩
  have hframe : completed.frame = r.frame.completed j last.frame.payload := by rw [hcompleted]
  have hencode : completed.frame.encode
      = (r.frame.headers ++ r.frame.payload.take j) ++ last.frame.payload.drop j := by
    rw [hframe, List.append_assoc]
    exact Frame.encode_of_padding hr.padding
  have hpart : (r.frame.headers ++ r.frame.payload.take j).length
      < completed.frame.encode.length := by
    rw [hencode]
    simp only [List.length_append, List.length_drop, hlength]
    omega
  have hsame : completed.frame.encode.length = r.frame.encode.length := by
    rw [hencode, Frame.encode_of_padding hr.padding]
    simp only [List.length_append, List.length_take, List.length_drop]
    omega
  have hheader : completed.header = r.header := by
    rw [CapturedFrame.header, CapturedFrame.header, hsame, hcompleted]
  have hrecoverable : completed.frame.Recoverable := by
    rw [hframe]
    exact ⟨hr.addresses, hr.padding, hr.ihl⟩
  have hmem := Frame.slice_completed hr.padding hlast hihl hlength j mem buffer.off
  rw [← hframe] at hfound hmem
  rw [← hsame] at hsize
  obtain ⟨enough, hrecord⟩ :=
    processLoop_record hrecoverable hfound hsize hbuffer hpart.le hmem count
  refine ⟨enough, fun formatFuel hle fuel => ?_⟩
  rw [← hheader, hrecord formatFuel hle (fuel + 1) _ _ (FStream.read_short hpart), hcompleted]
  rfl

/-- A datagram of the loopback device. -/
def loopbackDatagram (sourcePort : UInt16) (payload : List UInt8) : Frame where
  ethernet := loopbackFrame.ethernet
  ip := { loopbackFrame.ip with totalLength := .ofNat (payload.length + 28) }
  udp := ⟨sourcePort, 7779, .ofNat (payload.length + 8), 0⟩
  payload := payload
  padding := []
  length_destination := rfl
  length_source := rfl
  etherType := rfl
  inRange := ⟨rfl, loopbackFrame.inRange.ihl_lt, loopbackFrame.inRange.dscp_lt,
    loopbackFrame.inRange.ecn_lt, loopbackFrame.inRange.flags_lt,
    loopbackFrame.inRange.fragmentOffset_lt⟩
  five_le_ihl := loopbackFrame.five_le_ihl
  protocol := rfl
  length_options := rfl

theorem loopbackDatagram_recoverable (sourcePort : UInt16) (payload : List UInt8) :
    (loopbackDatagram sourcePort payload).Recoverable := ⟨rfl, rfl, Or.inl rfl⟩

/-- A packet that is a header only. -/
theorem shows_header (header : PacketHeader) : Shows header.encode header [] := by
  intro mem off hmem
  rw [formatNeptunPayload_iff (by rw [PacketHeader.length_encode]) hmem,
    PacketHeader.length_encode]
  exact formats_empty_iff.mpr ⟨rfl, rfl⟩

/-- A capture of a packet. -/
def headerCapture : Capture where
  globalHeader := ⟨0xa1b2c3d4, 2, 4, 0, 0, 262144, 1⟩
  frames := [⟨1648000000, 5, loopbackDatagram 7778 (PacketHeader.mk 5 0 0).encode⟩]
  byteOrder := by decide
  le_snaplen := by decide

/-- A packet that is sent by some endpoint in some run. -/
structure SentPacket where
  config : ConnectionManagerConfig
  packetTimeout : ℤ
  endpoint : Endpoint
  now : ℤ
  incoming : Option (IpAddress × List UInt8)
  entry : IpAddress × Peer
  old : Memory
  packet : Packet
  reachable : (neptun config packetTimeout).Reachable System.anyAction endpoint
  entry_mem : entry ∈ (endpoint.beforeWrite now incoming).peers
  written : (entry.2.write config old now).val.2.2 = some packet

namespace SentPacket

/-- The header that was written. -/
def header (s : SentPacket) : PacketHeader :=
  (s.entry.2.packetDeliveryManager.nextHeader s.now).val.2

def size (s : SentPacket) : UInt16 := s.entry.2.maxPacketSize s.config

/-- The segments that were written, with the limits that the handshake is said to carry. -/
def segments (s : SentPacket) (limit : BandwidthLimit) : List FormattedSegment :=
  s.entry.2.writtenSegments s.size limit

/-- A handshake is no rejection and has a stream behind it, whose first byte becomes a part of
the limits, and no segment has more than 255 messages. -/
structure Readable (s : SentPacket) (limit : BandwidthLimit) : Prop where
  handshake : 0 < s.entry.2.connectionManager.numLetsConnectToSend →
    s.entry.2.connectionManager.isFail = false ∧
    ∃ low ∈ streamsHead (s.entry.2.takenReliable s.size) (s.entry.2.takenUnreliable s.size),
      ConnectionManager.withLowByte s.entry.2.connectionManager.config.limit low = limit
  reliable : (s.entry.2.takenReliable s.size).length ≤ 255
  unreliable : (s.entry.2.takenUnreliable s.size).length ≤ 255

theorem shows_of_readable {s : SentPacket} {limit : BandwidthLimit} (h : s.Readable limit) :
    Shows s.packet.payload s.header (s.segments limit) := by
  have hsound : PeerMap.All (fun _ => Peer.StreamsSound)
      (s.endpoint.beforeWrite s.now s.incoming).peers :=
    Endpoint.beforeWrite_all (fun _ now => s.endpoint.streamsSound_new now)
      (fun _ _ now hp => hp.dropOldPackets now) (fun _ _ b mem hp => hp.read _ b mem)
      (streamsSound_of_reachable s.reachable) s.now s.incoming
  have hencode : s.packet = s.entry.2.encodePacket s.now s.size (s.old 17) := by
    have hwritten := s.written
    rw [Peer.write_encodePacket] at hwritten
    split at hwritten
    · exact (Option.some.inj hwritten).symm
    · cases hwritten
  intro mem off hmem
  rw [hencode] at hmem ⊢
  exact ((hsound _ s.entry_mem).formats_iff s.now s.size (s.old 17) limit hmem).mpr
    ⟨h.handshake, h.reliable, h.unreliable⟩

end SentPacket

/-- What a frame carries: a packet of some run, from one of the ports of the protocol, or
something else, from another port. -/
inductive Frame.Carries (frame : Frame) : Option (SentPacket × BandwidthLimit) → Prop
  | packet {s : SentPacket} {limit : BandwidthLimit}
      (port : frame.udp.sourcePort = 7778 ∨ frame.udp.sourcePort = 7779)
      (payload : frame.payload = s.packet.payload) (readable : s.Readable limit) :
      frame.Carries (some (s, limit))
  | other (port : ¬ (frame.udp.sourcePort = 7778 ∨ frame.udp.sourcePort = 7779)) :
      frame.Carries none

/-- What should be printed of it. -/
def written (carried : Option (SentPacket × BandwidthLimit)) :
    Option (PacketHeader × List FormattedSegment) :=
  carried.map fun (s, limit) => (s.header, s.segments limit)

theorem Frame.Carries.prints {frame : Frame} {carried : Option (SentPacket × BandwidthLimit)}
    (h : frame.Carries carried) : frame.Prints (written carried) := by
  cases h with
  | packet port payload readable =>
    refine .neptun port ?_
    rw [payload]
    exact SentPacket.shows_of_readable readable
  | other port => exact .other port

/-- **Captured traffic.**  A capture of packets that were sent in any runs, among other traffic
and with less than a record behind them, is printed frame by frame, each packet with the header
and the messages that were put into it. -/
theorem capture_is_printed (capture : Capture)
    {carried : CapturedFrame → Option (SentPacket × BandwidthLimit)}
    (hframes : ∀ r ∈ capture.frames, r.frame.Recoverable ∧ r.frame.Carries (carried r))
    (tail : List UInt8) (htail : tail.length ≤ 8) (uninitialised : List UInt8) (heap : Memory)
    (off : ℕ) :
    ∃ formatFuel fuel,
      processPcapFile formatFuel fuel uninitialised heap off
          ⟨capture.encode ++ tail, false, false⟩
        = pure (capture.frames.mapIdx fun i r => r.line (i + 1) (written (carried r)),
          .processed capture.frames.length) := by
  obtain ⟨enough, hprinted⟩ := processPcapFile_frames capture
    (fun r hr => ⟨(hframes r hr).1, (hframes r hr).2.prints⟩) uninitialised heap off
  refine ⟨enough, 2 + capture.frames.length, ?_⟩
  rw [hprinted enough le_rfl, processLoop_tail htail, Checked.val_pure, List.append_nil]
  rfl

/-- An endpoint accepts a connection, and has a message for the other side. -/
def accepting : Endpoint :=
  (neptun ⟨1, ⟨0, 1283, 0, 1400⟩⟩ 5000).runFrom {
      packetTimeout := 5000
      connectionManagerConfig := ⟨1, ⟨0, 1283, 0, 1400⟩⟩ }
    [.tick 0 (some (⟨2, 1⟩,
      [0, 0, 0, 0, 0, 0, 0, 0, 0, 0, 0, 0, 0, 1, 0, 0, 0, 0, 5, 120, 5, 120])),
      .sendReliableTo ⟨2, 1⟩ (.ofBytes [7]) 0]

/-- The packet with its answer and the message. -/
def answer : SentPacket where
  config := ⟨1, ⟨0, 1283, 0, 1400⟩⟩
  packetTimeout := 5000
  endpoint := accepting
  now := 1
  incoming := none
  entry := (accepting.beforeWrite 1 none).peers.headD (⟨2, 1⟩, accepting.createPeer 0 0)
  old := fun _ => 0
  packet := ⟨[0, 0, 0, 1, 0, 0, 0, 0, 0, 0, 0, 0, 0, 1, 0, 0, 0, 0, 5, 120, 5,
    3, 1, 0, 0, 0, 0, 0, 1, 7], 12, 9, 9, 0⟩
  reachable := System.runFrom_reachable (.init rfl)
    (System.runOk_anyAction (fun _ _ => trivial) _ _)
  entry_mem := by
    have hne : (accepting.beforeWrite 1 none).peers ≠ [] := by
      rw [← List.length_pos_iff]
      decide +kernel
    rw [List.headD_eq_head?_getD, List.head?_eq_some_head hne, Option.getD_some]
    exact List.head_mem hne
  written := by decide +kernel

/-- Two frames, the second one with a packet. -/
def loopbackCapture : Capture where
  globalHeader := ⟨0xa1b2c3d4, 2, 4, 0, 0, 262144, 1⟩
  frames := [⟨1648000000, 5, loopbackDatagram 53 [1, 2, 3]⟩,
    ⟨1648000001, 2500000, loopbackDatagram 7778 answer.packet.payload⟩]
  byteOrder := by decide
  le_snaplen := by decide

theorem capture_is_printed_two_frames :
    ∃ formatFuel fuel,
      processPcapFile formatFuel fuel [] (fun _ => 0) 0
          ⟨loopbackCapture.encode ++ [0, 0, 0], false, false⟩
        = pure ([⟨1, 1648000000, ⟨0x7f000001, 53⟩, ⟨0x7f000001, 7779⟩, 11, none⟩,
            ⟨2, 1648000003, ⟨0x7f000001, 7778⟩, ⟨0x7f000001, 7779⟩, 38, some (⟨1, 0, 0⟩,
              [.connectionManager 1 (.letsConnect ⟨0, 1283, 0, 1400⟩),
                .reliable 1 [⟨0, 1, [7]⟩]])⟩],
          .processed 2) := by
  have hreadable : answer.Readable ⟨0, 1283, 0, 1400⟩ :=
    ⟨by decide +kernel, by decide +kernel, by decide +kernel⟩
  obtain ⟨carried, hcarried⟩ : ∃ carried : CapturedFrame → Option (SentPacket × BandwidthLimit),
      carried = fun r => if r.tsUsec = 5 then none else some (answer, ⟨0, 1283, 0, 1400⟩) :=
    ⟨_, rfl⟩
  have hframes : ∀ r ∈ loopbackCapture.frames,
      r.frame.Recoverable ∧ r.frame.Carries (carried r) := by
    rw [hcarried]
    intro r hr
    obtain rfl | rfl : r = _ ∨ r = _ := by simpa [loopbackCapture] using hr
    · exact ⟨loopbackDatagram_recoverable _ _, .other (by decide)⟩
    · exact ⟨loopbackDatagram_recoverable _ _, .packet (Or.inl rfl) rfl hreadable⟩
  have hlines : (loopbackCapture.frames.mapIdx fun i r => r.line (i + 1) (written (carried r)))
      = [⟨1, 1648000000, ⟨0x7f000001, 53⟩, ⟨0x7f000001, 7779⟩, 11, none⟩,
        ⟨2, 1648000003, ⟨0x7f000001, 7778⟩, ⟨0x7f000001, 7779⟩, 38, some (⟨1, 0, 0⟩,
          [.connectionManager 1 (.letsConnect ⟨0, 1283, 0, 1400⟩),
            .reliable 1 [⟨0, 1, [7]⟩]])⟩] := by
    rw [hcarried]
    decide +kernel
  have hprinted := capture_is_printed loopbackCapture hframes [0, 0, 0] (by decide) []
    (fun _ => 0) 0
  rw [hlines] at hprinted
  exact hprinted

end Neptun
