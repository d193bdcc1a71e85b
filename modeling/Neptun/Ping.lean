/-
`Ping`: a timestamp of eight bytes, and a note behind it.

The integers of a message are stored in network byte order, and are read back as
they were written.  The exception is `read_u64`: its result is a `u32`, so the
four bytes in front are lost, and with them those of a timestamp from `2 ^ 32` on.

* `Stores.intro` — what a write of an integer does to the memory;
* `Ping.val_write`, `Ping.val_note` — a ping in the memory, and its note;
* `codec_iff` — which integers and pings are read back.
-/
import Neptun.IoBuffer

namespace Neptun

namespace Ping

def kTimestampOffset : ℕ := 0
def kNoteOffset : ℕ := kTimestampOffset + 8

/-- The bytes of a ping are the first ones of the span. -/
def write (b : Span) (mem : Memory) (timestamp : UInt64) (note : List UInt8) :
    Checked Fault (Memory × Span) := do
  let mem ← writeU64 b mem timestamp kTimestampOffset
  let (mem, size) ← writeString b mem note kNoteOffset
  pure (mem, ⟨b.off, 8 + size⟩)

/-- The `u32` that `read_u64` returns, as a `u64` again. -/
def timestamp (b : Span) (mem : Memory) : Checked Fault UInt64 := do
  let value ← readU64 b mem kTimestampOffset
  pure value.toUInt64

def note (b : Span) (mem : Memory) : Checked Fault Span :=
  readString b mem kNoteOffset

end Ping

/-! ### Integers -/

/-- A write of `w` bytes at an index of a span: nothing goes wrong, the bytes there
are the big-endian ones of the value, and no other byte changes. -/
structure Stores (b : Span) (mem : Memory) (idx w value : ℕ) (written : Checked Fault Memory) :
    Prop where
  avoids : written.Avoids fun _ => True
  bytes : written.val.slice (b.off + idx) w = beEncode w value
  frame : ∀ a, a < b.off + idx ∨ b.off + idx + w ≤ a → written.val a = mem a

theorem Stores.intro {b : Span} {idx w : ℕ} (mem : Memory) (value : ℕ) (hsize : idx + w ≤ b.size) :
    Stores b mem idx w value (writeUnsigned value b w idx mem) := by
  have hlength := length_beEncode w value
  refine ⟨avoids_writeUnsigned_iff.mpr fun _ _ => hsize, ?_, fun a ha => ?_⟩
  · have hself := Memory.slice_storeList_self mem (b.off + idx) (beEncode w value)
    rw [val_writeUnsigned]
    rwa [hlength] at hself
  · rw [val_writeUnsigned]
    rcases ha with ha | ha
    · exact Memory.storeList_apply_of_lt ha
    · exact Memory.storeList_apply_of_ge (by rwa [hlength])

/-- Eight bytes are read back iff the upper four of them are zero. -/
theorem readU64_of_bytes {b : Span} {mem : Memory} {idx : ℕ} {value : UInt64}
    (hmem : mem.slice (b.off + idx) 8 = beEncode 8 value.toNat) :
    (readU64 b mem idx).val.toUInt64 = value ↔ value.toNat < 2 ^ 32 := by
  rw [val_readU64, hmem, beDecode_beEncode (by simpa using value.toNat_lt)]
  -- the result is the value modulo `2 ^ 32`
  rw [← UInt64.toNat_inj, UInt32.toNat_toUInt64, UInt32.toNat_ofNat']
  constructor
  · intro h
    rw [← h]
    exact Nat.mod_lt _ (by norm_num)
  · exact Nat.mod_eq_of_lt

/-! ### Pings -/

namespace Ping

/-- The bytes of a ping. -/
def encode (timestamp : UInt64) (note : List UInt8) : List UInt8 :=
  beEncode 8 timestamp.toNat ++ (beEncode 2 (UInt16.ofNat note.length).toNat ++ note)

theorem length_encode (timestamp : UInt64) (note : List UInt8) :
    (encode timestamp note).length = 8 + (2 + note.length) := by
  rw [encode, List.length_append, List.length_append, length_beEncode, length_beEncode]

theorem val_write (b : Span) (mem : Memory) (timestamp : UInt64) (note : List UInt8) :
    (write b mem timestamp note).val
      = (mem.storeList b.off (encode timestamp note), ⟨b.off, 8 + (2 + note.length)⟩) := by
  rw [encode, Memory.storeList_append, length_beEncode]
  simp only [write, Checked.val_bind, Checked.val_pure, writeU64, val_writeUnsigned,
    val_writeString, kNoteOffset, kTimestampOffset, Nat.add_zero, Nat.zero_add]

theorem avoids_write {bad : Fault → Prop} {b : Span} {note : List UInt8}
    (hsize : 8 + (2 + note.length) ≤ b.size) (mem : Memory) (timestamp : UInt64) :
    (write b mem timestamp note).Avoids bad := by
  rw [write, Checked.avoids_bind, Checked.avoids_bind, writeU64, avoids_writeUnsigned_iff]
  refine ⟨fun _ _ => ?_, avoids_writeString fun _ => ?_, Checked.avoids_pure _⟩
  · rw [kTimestampOffset]
    omega
  · rw [kNoteOffset, kTimestampOffset]
    omega

/-- The note of a ping is the view of the bytes behind its length. -/
theorem note_of_bytes {mem : Memory} {off : ℕ} (size : ℕ) {timestamp : UInt64} {text : List UInt8}
    (hlength : text.length < 2 ^ 16) (hsize : 10 ≤ size)
    (hmem : mem.slice off (encode timestamp text).length = encode timestamp text) :
    note ⟨off, size⟩ mem = pure ⟨off + 10, text.length⟩ ∧
      mem.slice (off + 10) text.length = text := by
  obtain ⟨-, hnote⟩ := Memory.slice_eq_of_append hmem
  obtain ⟨hsmall, htext⟩ := Memory.slice_eq_of_append hnote
  rw [length_beEncode] at hsmall htext
  rw [length_beEncode] at hsmall htext
  refine ⟨?_, htext⟩
  have hread : readU16 ⟨off, size⟩ mem kNoteOffset = pure (UInt16.ofNat text.length) :=
    readU16_of_bytes hsize hsmall
  have htoNat : (UInt16.ofNat text.length).toNat = text.length := by
    rw [UInt16.toNat_ofNat', Nat.mod_eq_of_lt hlength]
  rw [note, readString, hread]
  show pure _ = pure _
  rw [Checked.val_pure, htoNat]
  rfl

end Ping

/-- **Integers and pings.**  Every width is written big-endian, and everything else
in the memory stays.  Integers of up to four bytes are read back; one of eight bytes,
and a timestamp, iff it fits into four.  The note of a ping is always read back. -/
theorem codec_iff (b : Span) (mem : Memory) (idx : ℕ) :
    (∀ v : UInt8, idx + 1 ≤ b.size → Stores b mem idx 1 v.toNat (writeU8 b mem v idx) ∧
      readU8 b (writeU8 b mem v idx).val idx = pure v) ∧
    (∀ v : UInt16, idx + 2 ≤ b.size → Stores b mem idx 2 v.toNat (writeU16 b mem v idx) ∧
      readU16 b (writeU16 b mem v idx).val idx = pure v) ∧
    (∀ v : UInt32, idx + 4 ≤ b.size → Stores b mem idx 4 v.toNat (writeU32 b mem v idx) ∧
      readU32 b (writeU32 b mem v idx).val idx = pure v) ∧
    (∀ v : UInt64, idx + 8 ≤ b.size → Stores b mem idx 8 v.toNat (writeU64 b mem v idx) ∧
      (readU64 b (writeU64 b mem v idx).val idx).Avoids (fun _ => True) ∧
      ((readU64 b (writeU64 b mem v idx).val idx).val.toUInt64 = v ↔ v.toNat < 2 ^ 32)) ∧
    ∀ (timestamp : UInt64) (note : List UInt8), note.length ≤ 65535 →
      8 + (2 + note.length) ≤ b.size →
      let written := Ping.write b mem timestamp note
      let (mem', ping) := written.val
      written.Avoids (fun _ => True) ∧
        (∃ view, Ping.note ping mem' = pure view ∧ mem'.slice view.off view.size = note ∧
          view.off + view.size = ping.off + ping.size) ∧
        (Ping.timestamp ping mem' = pure timestamp ↔ timestamp.toNat < 2 ^ 32) := by
  refine ⟨fun v h => ?_, fun v h => ?_, fun v h => ?_, fun v h => ?_, ?_⟩
  · have hstored := Stores.intro mem v.toNat h
    exact ⟨hstored, readU8_of_bytes h hstored.bytes⟩
  · have hstored := Stores.intro mem v.toNat h
    exact ⟨hstored, readU16_of_bytes h hstored.bytes⟩
  · have hstored := Stores.intro mem v.toNat h
    exact ⟨hstored, readU32_of_bytes h hstored.bytes⟩
  · have hstored := Stores.intro mem v.toNat h
    exact ⟨hstored, avoids_readU64.mpr fun _ => h, readU64_of_bytes hstored.bytes⟩
  · intro timestamp note hlength hsize written
    have hmem := Memory.slice_storeList_self mem b.off (Ping.encode timestamp note)
    have hstamp := (Memory.slice_eq_of_append hmem).1
    rw [length_beEncode] at hstamp
    rw [Ping.val_write]
    obtain ⟨hnote, htext⟩ := Ping.note_of_bytes (8 + (2 + note.length))
      (by omega) (by omega) hmem
    refine ⟨Ping.avoids_write hsize mem timestamp, ⟨_, hnote, htext, ?_⟩, ?_⟩
    · show b.off + 10 + note.length = b.off + (8 + (2 + note.length))
      omega
    · have hread := @readU64_of_bytes ⟨b.off, 8 + (2 + note.length)⟩ _ Ping.kTimestampOffset _
        hstamp
      rw [← hread]
      constructor
      · intro h
        exact congrArg Checked.val h
      · intro h
        refine Checked.eq_pure h ?_
        rw [Ping.timestamp, Checked.avoids_bind, avoids_readU64]
        refine ⟨fun _ => ?_, Checked.avoids_pure _⟩
        rw [Ping.kTimestampOffset]
        dsimp only
        omega

/-- The largest timestamp that is read back, with a note. -/
theorem codec_largest_timestamp :
    (readU32 ⟨0, 16⟩ (writeU32 ⟨0, 16⟩ (fun _ => 7) 0x01020304 5).val 5).val = 0x01020304 ∧
      (Ping.timestamp ⟨0, 12⟩ (Ping.write ⟨0, 16⟩ (fun _ => 7) 4294967295 [104, 105]).val.1).val
        = 4294967295 := by
  obtain ⟨-, -, hu32, -, hping⟩ := codec_iff ⟨0, 16⟩ (fun _ => 7) 5
  constructor
  · exact congrArg Checked.val (hu32 0x01020304 (by decide)).2
  · exact congrArg Checked.val
      ((hping 4294967295 [104, 105] (by decide) (by decide)).2.2.mpr (by decide))

/-- The smallest number whose upper half is not zero comes back as zero, and so does
a timestamp. -/
theorem u64_not_read_back :
    (readU64 ⟨0, 16⟩ (writeU64 ⟨0, 16⟩ (fun _ => 7) 4294967296 0).val 0).val = 0 ∧
      (Ping.timestamp ⟨0, 12⟩ (Ping.write ⟨0, 16⟩ (fun _ => 7) 4294967296 [104, 105]).val.1).val
        = 0 ∧
      ¬ ∀ v : UInt64, (readU64 ⟨0, 16⟩ (writeU64 ⟨0, 16⟩ (fun _ => 7) v 0).val 0).val.toUInt64
        = v := by
  refine ⟨by decide, by decide, fun h => ?_⟩
  have := h 4294967296
  revert this
  decide

end Neptun
