/-
`IoBuffer`: integers and byte arrays in a span, in network byte order.

The loops of `read_unsigned` and `write_unsigned` run over the bytes of the
value from the most significant one on; here they count down the bytes that are
left, so that the shift of the current byte is eight times the number of bytes
behind it.  The lemmas of this file describe them by `beEncode` and `beDecode`:

* `val_writeUnsigned` — a write stores the big-endian bytes of the value;
* `val_readUnsigned` — a read returns the number its bytes stand for;
* `avoids_readUnsigned`, `avoids_writeUnsigned_iff` — a read or write stays in the
  span iff its last byte does.
-/
import Neptun.Types

namespace Neptun

/-- The loop of `write_unsigned`, with `w` bytes left to write at index `idx`. -/
def writeUnsigned (value : ℕ) (b : Span) : ℕ → ℕ → Memory → Checked Fault Memory
  | 0, _, mem => pure mem
  | w + 1, idx, mem => do
    let mem ← b.store mem idx (UInt8.ofNat ((value >>> (8 * w)) &&& 0xFF))
    writeUnsigned value b w (idx + 1) mem

/-- The loop of `read_unsigned<T>` for a type of `size` bytes, with `w` bytes
left to read at index `idx`. -/
def readUnsigned (size : ℕ) (b : Span) (mem : Memory) : ℕ → ℕ → ℕ → Checked Fault ℕ
  | 0, _, value => pure value
  | w + 1, idx, value => do
    let byte ← b.load mem idx
    readUnsigned size b mem w (idx + 1)
      ((value ||| (byte.toNat <<< (8 * w))) % 2 ^ (8 * size))

def writeU8 (b : Span) (mem : Memory) (value : UInt8) (idx : ℕ) : Checked Fault Memory :=
  writeUnsigned value.toNat b 1 idx mem

def writeU16 (b : Span) (mem : Memory) (value : UInt16) (idx : ℕ) : Checked Fault Memory :=
  writeUnsigned value.toNat b 2 idx mem

def writeU32 (b : Span) (mem : Memory) (value : UInt32) (idx : ℕ) : Checked Fault Memory :=
  writeUnsigned value.toNat b 4 idx mem

def writeU64 (b : Span) (mem : Memory) (value : UInt64) (idx : ℕ) : Checked Fault Memory :=
  writeUnsigned value.toNat b 8 idx mem

def readU8 (b : Span) (mem : Memory) (idx : ℕ) : Checked Fault UInt8 := do
  let value ← readUnsigned 1 b mem 1 idx 0
  pure (UInt8.ofNat value)

/-- The loop of `read_bits` for a type `T` of `bits` bits, whose counter is a `T` as well;
nothing, if it has not ended after `fuel` tests of its condition. -/
def readBitsLoop (bits upper : ℕ) (b : Span) (mem : Memory) :
    ℕ → ℕ → ℕ → Checked Fault (Option ℕ)
  | 0, _, _ => pure none
  | fuel + 1, globalBitIndex, result =>
    if globalBitIndex < upper then do
      let byteIndex := globalBitIndex / 8
      let bitIndexInByte := 7 - globalBitIndex % 8
      let byteValue ← readU8 b mem byteIndex
      let bitIndexInResult := (upper - globalBitIndex - 1) % 2 ^ bits
      let bitSetInByte := (byteValue.toNat >>> bitIndexInByte) &&& 1
      let shifted ← shiftOne bitIndexInResult
      -- a negative `int` is extended by its sign
      let bitValueInResult := (shifted % 2 ^ bits).toNat
      readBitsLoop bits upper b mem fuel ((globalBitIndex + 1) % 2 ^ bits)
        ((result + bitSetInByte * bitValueInResult) % 2 ^ bits)
    else pure (some result)

/-- `read_bits<T, lower, upper>` for a type of `bits` bits.  A loop that has tested its
counter once for each of its values, and once more, has no end. -/
def readBits (bits lower upper : ℕ) (b : Span) (mem : Memory) : Checked Fault ℕ := do
  let result ← readBitsLoop bits upper b mem (2 ^ bits + 1) (lower % 2 ^ bits) 0
  Checked.check (result.isSome = true) .endless
  pure (result.getD 0)

def readU16 (b : Span) (mem : Memory) (idx : ℕ) : Checked Fault UInt16 := do
  let value ← readUnsigned 2 b mem 2 idx 0
  pure (UInt16.ofNat value)

def readU32 (b : Span) (mem : Memory) (idx : ℕ) : Checked Fault UInt32 := do
  let value ← readUnsigned 4 b mem 4 idx 0
  pure (UInt32.ofNat value)

/-- `read_u64`, whose result is a `u32`. -/
def readU64 (b : Span) (mem : Memory) (idx : ℕ) : Checked Fault UInt32 := do
  let value ← readUnsigned 8 b mem 8 idx 0
  pure (UInt32.ofNat value)

/-- The loop of `write_string`, with the characters from index `idx` on. -/
def writeCharacters (b : Span) : List UInt8 → ℕ → Memory → Checked Fault Memory
  | [], _, mem => pure mem
  | character :: value, idx, mem => do
    let mem ← writeU8 b mem character idx
    writeCharacters b value (idx + 1) mem

def writeString (b : Span) (mem : Memory) (value : List UInt8) (idx : ℕ) :
    Checked Fault (Memory × ℕ) := do
  let mem ← writeU16 b mem (UInt16.ofNat value.length) idx
  let mem ← writeCharacters b value (idx + 2) mem
  pure (mem, 2 + 1 * value.length)

/-- `read_string`: a view of the bytes behind the length, wherever they end. -/
def readString (b : Span) (mem : Memory) (idx : ℕ) : Checked Fault Span := do
  let length ← readU16 b mem idx
  pure ⟨b.off + idx + 2, length.toNat⟩

/-- `write_byte_array`. -/
def writeByteArray (b : Span) : List UInt8 → ℕ → Memory → Checked Fault Memory
  | [], _, mem => pure mem
  | byte :: data, idx, mem => do
    let mem ← b.store mem idx byte
    writeByteArray b data (idx + 1) mem

/-- `read_byte_array`: a subspan, cut off at the end of the span. -/
def readByteArray (b : Span) (idx length : ℕ) : Span :=
  ⟨b.off + idx, min (usizeSub b.size idx) length⟩

/-! ### What the loops compute -/

theorem byte_of_shift (value w : ℕ) :
    UInt8.ofNat ((value >>> (8 * w)) &&& 0xFF) = UInt8.ofNat (value / 256 ^ w) := by
  have hand : ∀ x : ℕ, x &&& 0xFF = x % 2 ^ 8 := fun x => Nat.and_two_pow_sub_one_eq_mod x 8
  rw [hand, Nat.shiftRight_eq_div_pow, pow_mul, ← UInt8.toNat_inj]
  simp

@[simp] theorem val_writeUnsigned (value : ℕ) (b : Span) (w idx : ℕ) (mem : Memory) :
    (writeUnsigned value b w idx mem).val
      = mem.storeList (b.off + idx) (beEncode w value) := by
  induction w generalizing idx mem with
  | zero => rfl
  | succ w ih =>
    rw [writeUnsigned, Checked.val_bind, ih, Span.val_store, byte_of_shift, beEncode,
      Memory.storeList, Nat.add_assoc]

@[simp] theorem val_writeByteArray (b : Span) (data : List UInt8) (idx : ℕ) (mem : Memory) :
    (writeByteArray b data idx mem).val = mem.storeList (b.off + idx) data := by
  induction data generalizing idx mem with
  | nil => rfl
  | cons byte data ih =>
    rw [writeByteArray, Checked.val_bind, ih, Span.val_store, Memory.storeList, Nat.add_assoc]

/-- The accumulator of `read_unsigned` holds the bytes read so far, in front of
room for the `w` bytes to come. -/
theorem val_readUnsigned (size : ℕ) (b : Span) (mem : Memory) (w idx u : ℕ)
    (h : (u + 1) * 256 ^ w ≤ 256 ^ size) :
    (readUnsigned size b mem w idx (u * 256 ^ w)).val
      = u * 256 ^ w + beDecode (mem.slice (b.off + idx) w) := by
  induction w generalizing idx u with
  | zero => simp [readUnsigned, Memory.slice, beDecode]
  | succ w ih =>
    have hb : (mem (b.off + idx)).toNat < 2 ^ 8 := (mem (b.off + idx)).toNat_lt
    set byte := (mem (b.off + idx)).toNat with hbyte
    -- the new byte falls into the zero bits behind `u`, so `|||` adds it
    have hor : u * 256 ^ (w + 1) ||| byte <<< (8 * w) = (u * 256 + byte) * 256 ^ w := by
      have hpow : (256 : ℕ) ^ w = 2 ^ (8 * w) := by rw [pow_mul]; norm_num
      rw [pow_succ, ← Nat.mul_assoc, Nat.mul_right_comm, hpow, ← Nat.shiftLeft_eq,
        ← Nat.shiftLeft_eq, ← Nat.shiftLeft_or_distrib]
      congr 1
      rw [show u * 256 = u <<< 8 by rw [Nat.shiftLeft_eq], Nat.shiftLeft_add_eq_or_of_lt hb]
    have hroom : (u * 256 + byte + 1) * 256 ^ w ≤ 256 ^ size := by
      refine le_trans (Nat.mul_le_mul_right _ (?_ : _ ≤ (u + 1) * 256)) ?_
      · omega
      · rwa [Nat.mul_assoc, Nat.mul_comm 256, ← pow_succ]
    have hfit : (u * 256 + byte) * 256 ^ w < 2 ^ (8 * size) := by
      rw [pow_mul, show (2 : ℕ) ^ 8 = 256 by norm_num]
      refine lt_of_lt_of_le ?_ hroom
      exact Nat.mul_lt_mul_of_pos_right (Nat.lt_succ_self _) (Nat.pow_pos (by norm_num))
    rw [readUnsigned, Checked.val_bind, Span.val_load, ← hbyte, hor, Nat.mod_eq_of_lt hfit,
      ih _ _ hroom, Memory.slice, beDecode, Memory.length_slice, ← hbyte, Nat.add_assoc b.off]
    ring

@[simp] theorem val_readU8 (b : Span) (mem : Memory) (idx : ℕ) :
    (readU8 b mem idx).val = mem (b.off + idx) := by
  have h := val_readUnsigned 1 b mem 1 idx 0 (by norm_num)
  rw [Nat.zero_mul] at h
  rw [readU8, Checked.val_bind, h, Checked.val_pure]
  simp [Memory.slice, beDecode]

@[simp] theorem val_readU16 (b : Span) (mem : Memory) (idx : ℕ) :
    (readU16 b mem idx).val = UInt16.ofNat (beDecode (mem.slice (b.off + idx) 2)) := by
  have h := val_readUnsigned 2 b mem 2 idx 0 (by norm_num)
  rw [Nat.zero_mul, Nat.zero_add] at h
  rw [readU16, Checked.val_bind, h, Checked.val_pure]

@[simp] theorem val_readU32 (b : Span) (mem : Memory) (idx : ℕ) :
    (readU32 b mem idx).val = UInt32.ofNat (beDecode (mem.slice (b.off + idx) 4)) := by
  have h := val_readUnsigned 4 b mem 4 idx 0 (by norm_num)
  rw [Nat.zero_mul, Nat.zero_add] at h
  rw [readU32, Checked.val_bind, h, Checked.val_pure]

@[simp] theorem val_readU64 (b : Span) (mem : Memory) (idx : ℕ) :
    (readU64 b mem idx).val = UInt32.ofNat (beDecode (mem.slice (b.off + idx) 8)) := by
  have h := val_readUnsigned 8 b mem 8 idx 0 (by norm_num)
  rw [Nat.zero_mul, Nat.zero_add] at h
  rw [readU64, Checked.val_bind, h, Checked.val_pure]

theorem val_writeCharacters (b : Span) (value : List UInt8) (idx : ℕ) (mem : Memory) :
    (writeCharacters b value idx mem).val = mem.storeList (b.off + idx) value := by
  induction value generalizing idx mem with
  | nil => rfl
  | cons character value ih =>
    have hbyte : beEncode 1 character.toNat = [character] := by simp [beEncode]
    rw [writeCharacters, Checked.val_bind, ih, writeU8, val_writeUnsigned, hbyte, ← Nat.add_assoc]
    rfl

/-- A string is its length in two bytes, and its characters. -/
theorem val_writeString (b : Span) (mem : Memory) (value : List UInt8) (idx : ℕ) :
    (writeString b mem value idx).val = (mem.storeList (b.off + idx)
      (beEncode 2 (UInt16.ofNat value.length).toNat ++ value), 2 + value.length) := by
  rw [writeString, Checked.val_bind, Checked.val_bind, Checked.val_pure, val_writeCharacters,
    writeU16, val_writeUnsigned, Memory.storeList_append, length_beEncode, Nat.one_mul,
    Nat.add_assoc]

/-! ### Which bytes the loops touch -/

theorem avoids_readUnsigned {bad : Fault → Prop} {size : ℕ} {b : Span} {mem : Memory}
    {w idx value : ℕ} :
    (readUnsigned size b mem w idx value).Avoids bad
      ↔ (bad .load → 0 < w → idx + w ≤ b.size) := by
  induction w generalizing idx value with
  | zero => simpa [readUnsigned] using Checked.avoids_pure _
  | succ w ih =>
    rw [readUnsigned, Checked.avoids_bind, Span.avoids_load, ih]
    constructor
    · rintro ⟨h1, h2⟩ hb -
      rcases Nat.eq_zero_or_pos w with rfl | hw
      · exact h1 hb
      · have := h2 hb hw
        omega
    · intro h
      exact ⟨fun hb => by have := h hb (by omega); omega,
        fun hb _ => by have := h hb (by omega); omega⟩

theorem avoids_readU8 {bad : Fault → Prop} {b : Span} {mem : Memory} {idx : ℕ} :
    (readU8 b mem idx).Avoids bad ↔ (bad .load → idx + 1 ≤ b.size) := by
  rw [readU8, Checked.avoids_bind, avoids_readUnsigned]
  simp [Checked.avoids_pure]

theorem avoids_readU16 {bad : Fault → Prop} {b : Span} {mem : Memory} {idx : ℕ} :
    (readU16 b mem idx).Avoids bad ↔ (bad .load → idx + 2 ≤ b.size) := by
  rw [readU16, Checked.avoids_bind, avoids_readUnsigned]
  simp [Checked.avoids_pure]

theorem avoids_readU32 {bad : Fault → Prop} {b : Span} {mem : Memory} {idx : ℕ} :
    (readU32 b mem idx).Avoids bad ↔ (bad .load → idx + 4 ≤ b.size) := by
  rw [readU32, Checked.avoids_bind, avoids_readUnsigned]
  simp [Checked.avoids_pure]

theorem avoids_readU64 {bad : Fault → Prop} {b : Span} {mem : Memory} {idx : ℕ} :
    (readU64 b mem idx).Avoids bad ↔ (bad .load → idx + 8 ≤ b.size) := by
  rw [readU64, Checked.avoids_bind, avoids_readUnsigned]
  simp [Checked.avoids_pure]

theorem avoids_writeUnsigned_iff {bad : Fault → Prop} {value : ℕ} {b : Span} {w idx : ℕ}
    {mem : Memory} : (writeUnsigned value b w idx mem).Avoids bad
      ↔ (bad .store → 0 < w → idx + w ≤ b.size) := by
  induction w generalizing idx mem with
  | zero => simpa [writeUnsigned] using Checked.avoids_pure _
  | succ w ih =>
    rw [writeUnsigned, Checked.avoids_bind, Span.avoids_store, ih]
    constructor
    · rintro ⟨h1, h2⟩ hb -
      rcases Nat.eq_zero_or_pos w with rfl | hw
      · exact h1 hb
      · have := h2 hb hw
        omega
    · intro h
      exact ⟨fun hb => by have := h hb (by omega); omega,
        fun hb _ => by have := h hb (by omega); omega⟩

theorem avoids_writeByteArray_iff {bad : Fault → Prop} {b : Span} {data : List UInt8} {idx : ℕ}
    {mem : Memory} : (writeByteArray b data idx mem).Avoids bad
      ↔ (bad .store → 0 < data.length → idx + data.length ≤ b.size) := by
  induction data generalizing idx mem with
  | nil => simpa [writeByteArray] using Checked.avoids_pure _
  | cons byte data ih =>
    rw [writeByteArray, Checked.avoids_bind, Span.avoids_store, ih, List.length_cons]
    constructor
    · rintro ⟨h1, h2⟩ hb -
      rcases Nat.eq_zero_or_pos data.length with hzero | hpos
      · have := h1 hb
        omega
      · have := h2 hb hpos
        omega
    · intro h
      exact ⟨fun hb => by have := h hb (by omega); omega,
        fun hb _ => by have := h hb (by omega); omega⟩

theorem avoids_writeString {bad : Fault → Prop} {b : Span} {mem : Memory} {value : List UInt8}
    {idx : ℕ} (h : bad .store → idx + 2 + value.length ≤ b.size) :
    (writeString b mem value idx).Avoids bad := by
  have hcharacters : ∀ (value : List UInt8) (idx : ℕ) (mem : Memory),
      (bad .store → idx + value.length ≤ b.size) →
      (writeCharacters b value idx mem).Avoids bad := by
    intro value
    induction value with
    | nil => exact fun _ _ _ => Checked.avoids_pure _
    | cons character value ih =>
      intro idx mem h
      rw [List.length_cons] at h
      rw [writeCharacters, Checked.avoids_bind, writeU8, avoids_writeUnsigned_iff]
      exact ⟨fun hb _ => by have := h hb; omega, ih _ _ fun hb => by have := h hb; omega⟩
  rw [writeString, Checked.avoids_bind, Checked.avoids_bind, writeU16, avoids_writeUnsigned_iff]
  exact ⟨fun hb _ => by have := h hb; omega, hcharacters _ _ _ h, Checked.avoids_pure _⟩

theorem avoids_writeUnsigned {bad : Fault → Prop} (hbad : ¬ bad .store) (value : ℕ) (b : Span)
    (w idx : ℕ) (mem : Memory) : (writeUnsigned value b w idx mem).Avoids bad :=
  avoids_writeUnsigned_iff.mpr fun h => absurd h hbad

theorem avoids_writeByteArray {bad : Fault → Prop} (hbad : ¬ bad .store) (b : Span)
    (data : List UInt8) (idx : ℕ) (mem : Memory) : (writeByteArray b data idx mem).Avoids bad :=
  avoids_writeByteArray_iff.mpr fun h => absurd h hbad

/-! ### Reading what is there -/

theorem readU8_of_bytes {b : Span} {mem : Memory} {idx : ℕ} {value : UInt8}
    (hsize : idx + 1 ≤ b.size) (hmem : mem.slice (b.off + idx) 1 = beEncode 1 value.toNat) :
    readU8 b mem idx = pure value := by
  refine Checked.eq_pure ?_ (avoids_readU8.mpr fun _ => hsize)
  rw [val_readU8]
  simpa [Memory.slice, beEncode] using hmem

theorem readU16_of_bytes {b : Span} {mem : Memory} {idx : ℕ} {value : UInt16}
    (hsize : idx + 2 ≤ b.size) (hmem : mem.slice (b.off + idx) 2 = beEncode 2 value.toNat) :
    readU16 b mem idx = pure value := by
  refine Checked.eq_pure ?_ (avoids_readU16.mpr fun _ => hsize)
  rw [val_readU16, hmem, beDecode_beEncode (by simpa using value.toNat_lt)]
  exact UInt16.ofNat_toNat

theorem readU32_of_bytes {b : Span} {mem : Memory} {idx : ℕ} {value : UInt32}
    (hsize : idx + 4 ≤ b.size) (hmem : mem.slice (b.off + idx) 4 = beEncode 4 value.toNat) :
    readU32 b mem idx = pure value := by
  refine Checked.eq_pure ?_ (avoids_readU32.mpr fun _ => hsize)
  rw [val_readU32, hmem, beDecode_beEncode (by simpa using value.toNat_lt)]
  exact UInt32.ofNat_toNat

end Neptun
