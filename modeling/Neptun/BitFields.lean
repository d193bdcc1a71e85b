/-
Bit fields: `read_bits<T, lower, upper>`.

The loop keeps its counter and its partial results in the type `T` of the result, and
puts each bit into its place by shifting an `int`.  So it has no end if `upper` is not
a `T`, and a field that has a bit beyond the places of an `int` comes out wrong, or not
at all, even if `T` has room for it.

* `bitField` — the number whose binary digits are some bits of a span;
* `bitField_eq_beDecode` — the same, cut out of the number that the bytes make;
* `read_bits_iff` — which fields are read as they are;
* `readBits_of_bytes` — a field of bytes that hold a number, for the types of at most
  32 bits.
-/
import Neptun.IoBuffer

namespace Neptun

/-- Bit `i` of a span.  The first bit of a byte is its most significant one. -/
def bitAt (b : Span) (mem : Memory) (i : ℕ) : ℕ :=
  (mem (b.off + i / 8)).toNat / 2 ^ (7 - i % 8) % 2

/-- The number whose binary digits are the bits `lower, …, upper - 1` of a span, the
most significant one first. -/
def bitField (b : Span) (mem : Memory) (lower upper : ℕ) : ℕ :=
  Nat.ofDigits 2 ((List.range' lower (upper - lower)).map (bitAt b mem)).reverse

variable {bits lower upper n : ℕ} {b : Span} {mem : Memory}

/-! ### The bits of a span -/

theorem bitAt_lt_two (b : Span) (mem : Memory) (i : ℕ) : bitAt b mem i < 2 :=
  Nat.mod_lt _ (by norm_num)

@[simp] theorem bitField_self (b : Span) (mem : Memory) (i : ℕ) : bitField b mem i i = 0 := by
  simp [bitField]

/-- A field without its first bit. -/
theorem bitField_eq_add (h : lower + (n + 1) = upper) :
    bitField b mem lower upper = bitAt b mem lower * 2 ^ n + bitField b mem (lower + 1) upper := by
  have hlength : upper - lower = n + 1 := by omega
  have hrest : upper - (lower + 1) = n := by omega
  rw [bitField, bitField, hlength, hrest, List.range'_succ, List.map_cons, List.reverse_cons,
    Nat.ofDigits_append, Nat.ofDigits_singleton, List.length_reverse, List.length_map,
    List.length_range', Nat.add_comm, Nat.mul_comm]

/-- A bit of the number that the bytes `first, …, first + k - 1` make. -/
theorem bitAt_eq_beDecode {first k i : ℕ} (hfirst : 8 * first ≤ i) (hlast : i < 8 * (first + k)) :
    bitAt b mem i
      = beDecode (mem.slice (b.off + first) k) / 2 ^ (8 * (first + k) - (i + 1)) % 2 := by
  -- the byte of the bit, and its place in the byte
  obtain ⟨j, r, hr, rfl⟩ : ∃ j r, r < 8 ∧ i = 8 * (first + j) + r :=
    ⟨i / 8 - first, i % 8, Nat.mod_lt _ (by norm_num), by omega⟩
  have hbyte := byte_eq_beDecode mem (a := b.off + first) (j := j) (k := k) (by omega)
  have hexp : 8 * (first + k) - (8 * (first + j) + r + 1) = 8 * (k - 1 - j) + (7 - r) := by omega
  have hmod : (256 : ℕ) = 2 ^ (7 - r) * 2 ^ (r + 1) := by
    rw [← pow_add, show 7 - r + (r + 1) = 8 by omega]
    norm_num
  rw [bitAt, show (8 * (first + j) + r) / 8 = first + j by omega,
    show (8 * (first + j) + r) % 8 = r by omega, ← Nat.add_assoc, hbyte]
  nth_rewrite 2 [hmod]
  rw [Nat.mod_mul_right_div_self, Nat.mod_mod_of_dvd _ (Dvd.intro_left _ (pow_succ 2 r).symm),
    hexp, pow_add, pow_mul, Nat.div_div_eq_div_mul]
  norm_num

/-- A field of the bits of some bytes. -/
theorem bitField_eq_beDecode (first k : ℕ) (hle : lower ≤ upper) (hfirst : 8 * first ≤ lower)
    (hlast : upper ≤ 8 * (first + k)) :
    bitField b mem lower upper
      = beDecode (mem.slice (b.off + first) k) / 2 ^ (8 * (first + k) - upper)
        % 2 ^ (upper - lower) := by
  obtain ⟨n, rfl⟩ : ∃ n, lower + n = upper := ⟨upper - lower, by omega⟩
  rw [Nat.add_sub_cancel_left]
  induction n generalizing lower with
  | zero => rw [Nat.add_zero, bitField_self, pow_zero, Nat.mod_one]
  | succ n ih =>
    have hrest := @ih (lower + 1) (by omega) (by omega) (by omega)
    rw [show lower + 1 + n = lower + (n + 1) by omega] at hrest
    have hexp : 8 * (first + k) - (lower + 1) = 8 * (first + k) - (lower + (n + 1)) + n := by omega
    rw [bitField_eq_add rfl, hrest, bitAt_eq_beDecode (k := k) hfirst (by omega), hexp, pow_add,
      ← Nat.div_div_eq_div_mul, Nat.mod_pow_succ]
    ring

/-- The field of all bits of some bytes. -/
theorem bitField_whole (b : Span) (mem : Memory) (first k : ℕ) :
    bitField b mem (8 * first) (8 * (first + k)) = beDecode (mem.slice (b.off + first) k) := by
  have hlt := beDecode_lt (mem.slice (b.off + first) k)
  rw [Memory.length_slice] at hlt
  rw [bitField_eq_beDecode first k (by omega) le_rfl le_rfl, Nat.sub_self, pow_zero, Nat.div_one,
    Nat.mul_add, Nat.add_sub_cancel_left, pow_mul]
  exact Nat.mod_eq_of_lt hlt

/-! ### The loop -/

/-- The value of a bit in the result, as a `T`. -/
def placeValue (bits place : ℕ) : ℕ := ((1#32 <<< place).toInt % 2 ^ bits).toNat

theorem placeValue_of_lt {place : ℕ} (h : place < 31) (hbits : place < bits) :
    placeValue bits place = 2 ^ place := by
  have hpow : 2 ^ place < 2 ^ 31 := Nat.pow_lt_pow_right (by norm_num) h
  have hroom : 2 ^ place < 2 ^ bits := Nat.pow_lt_pow_right (by norm_num) hbits
  have hnat : (1#32 <<< place).toNat = 2 ^ place := by
    rw [BitVec.toNat_shiftLeft, BitVec.toNat_ofNat, Nat.shiftLeft_eq]
    norm_num
    omega
  have hint : (1#32 <<< place).toInt = ((2 ^ place : ℕ) : ℤ) := by
    rw [BitVec.toInt_eq_toNat_of_lt (by omega), hnat]
  have hlt : ((2 ^ place : ℕ) : ℤ) < 2 ^ bits := by exact_mod_cast hroom
  rw [placeValue, hint, Int.emod_eq_of_lt (Int.natCast_nonneg _) hlt, Int.toNat_natCast]

/-- The types of at most 32 bits. -/
theorem placeValue_of_le {place : ℕ} (hbits : bits ≤ 32) (h : place < bits) :
    placeValue bits place = 2 ^ place := by
  by_cases hlt : place < 31
  · exact placeValue_of_lt hlt h
  · obtain rfl : place = 31 := by omega
    obtain rfl : bits = 32 := by omega
    decide

/-- One turn of the loop. -/
theorem readBitsLoop_turn {fuel index result place : ℕ} (hplace : index + (place + 1) = upper)
    (hupper : upper < 2 ^ bits) (hsize : upper ≤ 8 * b.size) (hshift : place < 32) :
    readBitsLoop bits upper b mem (fuel + 1) index result
      = readBitsLoop bits upper b mem fuel (index + 1)
        ((result + bitAt b mem index * placeValue bits place) % 2 ^ bits) := by
  have hbyte : readU8 b mem (index / 8) = pure (mem (b.off + index / 8)) :=
    Checked.eq_pure (val_readU8 b mem _) (avoids_readU8.mpr fun _ => by omega)
  have hone : shiftOne place = pure (1#32 <<< place).toInt :=
    Checked.eq_pure rfl (Checked.avoids_bind.mpr
      ⟨Checked.avoids_check.mpr fun _ => hshift, Checked.avoids_pure _⟩)
  have hindex : (upper - index - 1) % 2 ^ bits = place := by
    rw [Nat.mod_eq_of_lt (by omega)]
    omega
  have hbit : ((mem (b.off + index / 8)).toNat >>> (7 - index % 8)) &&& 1
      = bitAt b mem index := by
    rw [bitAt, Nat.and_one_is_mod, Nat.shiftRight_eq_div_pow]
  rw [readBitsLoop, if_pos (by omega)]
  dsimp only
  rw [hbyte, Checked.pure_bind, hindex, hone, Checked.pure_bind, hbit, ← placeValue,
    Nat.mod_eq_of_lt (a := index + 1) (by omega)]

/-- The loop adds the field that is left, if all of its bits get their places. -/
theorem readBitsLoop_eq {index result : ℕ} (fuel : ℕ) (hn : index + n = upper)
    (hupper : upper < 2 ^ bits) (hsize : upper ≤ 8 * b.size)
    (hroom : result + 2 ^ n ≤ 2 ^ bits)
    (hplaces : ∀ place < n, place < 32 ∧ placeValue bits place = 2 ^ place) :
    readBitsLoop bits upper b mem (n + 1 + fuel) index result
      = pure (some (result + bitField b mem index upper)) := by
  induction n generalizing index result with
  | zero =>
    rw [Nat.add_zero] at hn
    rw [hn, bitField_self, Nat.zero_add, Nat.add_comm, readBitsLoop, if_neg (Nat.lt_irrefl _)]
    rfl
  | succ n ih =>
    obtain ⟨hshift, hplace⟩ := hplaces n (Nat.lt_succ_self n)
    have hbit := Nat.mul_le_mul_right (2 ^ n) (Nat.le_of_lt_succ (bitAt_lt_two b mem index))
    have hpow := Nat.two_pow_pos n
    rw [pow_succ] at hroom
    rw [Nat.add_right_comm (n + 1), readBitsLoop_turn hn hupper hsize hshift, hplace,
      Nat.mod_eq_of_lt (by omega),
      ih (by omega) (by omega) fun place hlt => hplaces place (Nat.lt_succ_of_lt hlt),
      bitField_eq_add hn, Nat.add_assoc]

/-- The counter never gets to a bound that is not a `T`. -/
theorem val_readBitsLoop_endless (h : 2 ^ bits ≤ upper) {fuel index result : ℕ}
    (hindex : index < 2 ^ bits) :
    (readBitsLoop bits upper b mem fuel index result).val = none := by
  induction fuel generalizing index result with
  | zero => rfl
  | succ fuel ih =>
    rw [readBitsLoop, if_pos (by omega)]
    simp only [Checked.val_bind]
    exact ih (Nat.mod_lt _ (Nat.two_pow_pos bits))

/-- More fuel does not change a result. -/
theorem readBitsLoop_mono {fuel index result value : ℕ}
    (h : readBitsLoop bits upper b mem fuel index result = pure (some value)) (more : ℕ) :
    readBitsLoop bits upper b mem (fuel + more) index result = pure (some value) := by
  induction fuel generalizing index result with
  | zero => exact absurd (congrArg Checked.val h) (by simp [readBitsLoop])
  | succ fuel ih =>
    rw [Nat.add_right_comm]
    rw [readBitsLoop] at h ⊢
    split at h
    · next hlt =>
      rw [if_pos hlt]
      obtain ⟨hbyte, h⟩ := Checked.bind_eq_pure_iff.mp h
      obtain ⟨hone, h⟩ := Checked.bind_eq_pure_iff.mp h
      exact Checked.bind_eq_pure_iff.mpr ⟨hbyte, Checked.bind_eq_pure_iff.mpr ⟨hone, ih h⟩⟩
    · next hle =>
      rw [if_neg hle]
      exact h

/-- The place of the sign of an `int` is extended over the upper half of a `u64`. -/
theorem placeValue_sign : placeValue 64 31 = 2 ^ 64 - 2 ^ 31 := by decide

theorem lt_of_shiftOne_eq_pure {place : ℕ} {value : ℤ} (h : shiftOne place = pure value) :
    place < 32 := by
  exact Checked.check_eq_pure_iff.mp (Checked.bind_eq_pure_iff.mp h).1

/-! ### Fields -/

/-- The field is one that `read_bits` can read: the bound is a `T`, and none of the
bits is beyond the places of an `int`, except that the highest one may be a zero at the
place of the sign. -/
def Readable (bits lower upper : ℕ) (b : Span) (mem : Memory) : Prop :=
  upper < 2 ^ bits ∧
    (bits = 64 → upper - lower < 32 ∨ upper - lower = 32 ∧ bitAt b mem lower = 0)

theorem Readable.readBitsLoop_eq (h : Readable bits lower upper b mem)
    (hbits : bits ≤ 32 ∨ bits = 64) (hle : lower ≤ upper) (hfield : upper - lower ≤ bits)
    (hsize : upper ≤ 8 * b.size) (more : ℕ) :
    readBitsLoop bits upper b mem (upper - lower + 1 + more) lower 0
      = pure (some (bitField b mem lower upper)) := by
  obtain ⟨hupper, hwide⟩ := h
  obtain ⟨n, rfl⟩ : ∃ n, lower + n = upper := ⟨upper - lower, by omega⟩
  rw [Nat.add_sub_cancel_left] at hwide hfield ⊢
  have hroom : 0 + 2 ^ n ≤ 2 ^ bits := by
    rw [Nat.zero_add]
    exact Nat.pow_le_pow_right (by norm_num) hfield
  rcases hbits with hbits | rfl
  · rw [Neptun.readBitsLoop_eq more rfl hupper hsize hroom fun place hlt =>
      ⟨by omega, placeValue_of_le hbits (by omega)⟩, Nat.zero_add]
  · rcases hwide rfl with hlt | ⟨rfl, hbit⟩
    · rw [Neptun.readBitsLoop_eq more rfl hupper hsize hroom fun place hplace =>
        ⟨by omega, placeValue_of_lt (by omega) (by omega)⟩, Nat.zero_add]
    · -- the first bit is a zero, and the others have their places
      have hplace : lower + (31 + 1) = lower + 32 := rfl
      rw [Nat.add_right_comm, readBitsLoop_turn hplace hupper hsize (by norm_num), hbit,
        Nat.zero_mul, Nat.add_zero, Nat.zero_mod, show 32 + more = 31 + 1 + more by omega,
        Neptun.readBitsLoop_eq more (by omega) hupper hsize (by norm_num) fun place hplace =>
          ⟨by omega, placeValue_of_lt (by omega) (by omega)⟩,
        bitField_eq_add (n := 31) rfl, hbit, Nat.zero_mul]

theorem Readable.of_readBitsLoop_eq {fuel : ℕ} (hle : lower ≤ upper)
    (hsize : upper ≤ 8 * b.size)
    (h : readBitsLoop bits upper b mem fuel (lower % 2 ^ bits) 0
      = pure (some (bitField b mem lower upper))) :
    Readable bits lower upper b mem := by
  have hupper : upper < 2 ^ bits := by
    by_contra hge
    have hend := congrArg Checked.val h
    rw [val_readBitsLoop_endless (by omega) (Nat.mod_lt _ (Nat.two_pow_pos bits))] at hend
    cases hend
  refine ⟨hupper, ?_⟩
  rintro rfl
  rw [Nat.mod_eq_of_lt (by omega)] at h
  by_contra hcontra
  push Not at hcontra
  obtain ⟨hwide, hbit⟩ := hcontra
  obtain ⟨place, hplace⟩ : ∃ place, lower + (place + 1) = upper := ⟨upper - lower - 1, by omega⟩
  by_cases hsign : place = 31
  · -- the first bit is a one, and comes out as all the bits from its place on
    subst hsign
    have hone : bitAt b mem lower = 1 := by
      have := bitAt_lt_two b mem lower
      have := hbit (by omega)
      omega
    have hturn := @readBitsLoop_turn 64 upper b mem (31 + 1 + fuel) lower 0 31 hplace hupper hsize
      (by norm_num)
    rw [hone, placeValue_sign, Neptun.readBitsLoop_eq (n := 31) fuel (by omega) hupper hsize
      (by norm_num) fun place hlt => ⟨by omega, placeValue_of_lt (by omega) (by omega)⟩] at hturn
    have hsame := Option.some.inj (Checked.pure_inj
      ((readBitsLoop_mono h (31 + 1 + 1)).symm.trans
        ((congrArg (fun more => readBitsLoop 64 upper b mem more lower 0) (by omega)).trans hturn)))
    rw [bitField_eq_add hplace, hone] at hsame
    omega
  · -- the first bit is shifted too far
    cases fuel with
    | zero => cases congrArg Checked.val h
    | succ fuel =>
      rw [readBitsLoop, if_pos (by omega)] at h
      obtain ⟨-, h⟩ := Checked.bind_eq_pure_iff.mp h
      obtain ⟨hshift, -⟩ := Checked.bind_eq_pure_iff.mp h
      have hlt := lt_of_shiftOne_eq_pure hshift
      rw [Nat.mod_eq_of_lt (by omega)] at hlt
      omega

theorem Readable.readBits_eq (h : Readable bits lower upper b mem)
    (hbits : bits ≤ 32 ∨ bits = 64) (hle : lower ≤ upper) (hfield : upper - lower ≤ bits)
    (hsize : upper ≤ 8 * b.size) :
    readBits bits lower upper b mem = pure (bitField b mem lower upper) := by
  have hfuel : 2 ^ bits + 1 = upper - lower + 1 + (2 ^ bits - (upper - lower)) := by
    have := h.1
    omega
  have hloop := h.readBitsLoop_eq hbits hle hfield hsize (2 ^ bits - (upper - lower))
  rw [readBits, Nat.mod_eq_of_lt (Nat.lt_of_le_of_lt hle h.1), hfuel, hloop, Checked.pure_bind]
  rfl

theorem Readable.of_readBits_eq (hle : lower ≤ upper) (hsize : upper ≤ 8 * b.size)
    (h : readBits bits lower upper b mem = pure (bitField b mem lower upper)) :
    Readable bits lower upper b mem := by
  obtain ⟨hloop, h⟩ := Checked.bind_eq_pure_iff.mp h
  obtain ⟨hcheck, hvalue⟩ := Checked.bind_eq_pure_iff.mp h
  obtain ⟨value, hval⟩ := Option.isSome_iff_exists.mp (Checked.check_eq_pure_iff.mp hcheck)
  rw [hval] at hloop hvalue
  refine Readable.of_readBitsLoop_eq hle hsize (hloop.trans ?_)
  rw [← Checked.pure_inj hvalue]
  rfl

/-- **Bit fields.**  A field that its type has room for is read as it is iff its upper
bound is of the type as well, and, if the type has 64 bits, the field has less than 32,
or 32 with a zero in front.  The fields of whole bytes are the integers of `read_unsigned`. -/
theorem read_bits_iff {bits lower upper : ℕ}
    (hbits : bits = 8 ∨ bits = 16 ∨ bits = 32 ∨ bits = 64) (hle : lower ≤ upper)
    (hfield : upper - lower ≤ bits) {b : Span} (mem : Memory) (hsize : upper ≤ 8 * b.size) :
    ((∃ fuel, readBitsLoop bits upper b mem fuel (lower % 2 ^ bits) 0
        = pure (some (bitField b mem lower upper))) ↔ Readable bits lower upper b mem) ∧
    (readBits bits lower upper b mem = pure (bitField b mem lower upper)
      ↔ Readable bits lower upper b mem) ∧
    ∀ idx, lower = 8 * idx → upper = lower + bits →
      (readBits bits lower upper b mem = readUnsigned (bits / 8) b mem (bits / 8) idx 0
        ↔ upper < 2 ^ bits ∧ bits ≠ 64) := by
  have hbits' : bits ≤ 32 ∨ bits = 64 := by omega
  have hread : readBits bits lower upper b mem = pure (bitField b mem lower upper)
      ↔ Readable bits lower upper b mem :=
    ⟨Readable.of_readBits_eq hle hsize, fun h => h.readBits_eq hbits' hle hfield hsize⟩
  refine ⟨⟨?_, fun h => ⟨upper - lower + 1 + 0, ?_⟩⟩, hread, ?_⟩
  · rintro ⟨fuel, h⟩
    exact Readable.of_readBitsLoop_eq hle hsize h
  · rw [Nat.mod_eq_of_lt (Nat.lt_of_le_of_lt hle h.1)]
    exact h.readBitsLoop_eq hbits' hle hfield hsize 0
  · rintro idx rfl rfl
    obtain ⟨k, hk, rfl⟩ : ∃ k, 0 < k ∧ bits = 8 * k := ⟨bits / 8, by omega, by omega⟩
    -- both are the number that the bytes make
    have hunsigned : readUnsigned k b mem k idx 0
        = pure (bitField b mem (8 * idx) (8 * idx + 8 * k)) := by
      refine Checked.eq_pure ?_ (avoids_readUnsigned.mpr fun _ _ => by omega)
      have hval := val_readUnsigned k b mem k idx 0 (by rw [Nat.zero_add, Nat.one_mul])
      rw [Nat.zero_mul, Nat.zero_add] at hval
      rw [hval, ← Nat.mul_add, bitField_whole]
    rw [Nat.mul_div_cancel_left k (by norm_num), hunsigned, hread, Readable,
      Nat.add_sub_cancel_left]
    refine and_congr_right fun _ => ⟨fun h h64 => ?_, fun h h64 => absurd h64 h⟩
    rcases h h64 with h | h <;> omega

/-- The thirteen bits of a fragment offset, behind three flags. -/
theorem read_bits_fragment_offset :
    readBits 16 51 64 ⟨0, 20⟩ (Memory.storeList (fun _ => 0) 6 [0x5f, 0xfe]) = pure 0x1ffe := by
  obtain ⟨-, hread, -⟩ := @read_bits_iff 16 51 64 (by decide) (by decide) (by decide) ⟨0, 20⟩
    (Memory.storeList (fun _ => 0) 6 [0x5f, 0xfe]) (by decide)
  exact (hread.mpr ⟨by decide, by decide⟩).trans (congrArg pure (by decide +kernel))

/-- A `u64` of 32 bits has all the upper ones set, one of 64 bits is shifted too far, and
the last byte of 32 cannot be read as a `u8`. -/
theorem read_bits_not_field :
    let mem := Memory.storeList (fun _ => 0) 0 [0x80]
    (readBits 64 0 32 ⟨0, 8⟩ mem).val = 0xffffffff80000000 ∧
      bitField ⟨0, 8⟩ mem 0 32 = 0x80000000 ∧
      Fault.shift ∈ (readBits 64 0 64 ⟨0, 8⟩ mem).faults ∧
      (∀ fuel, (readBitsLoop 8 256 ⟨0, 32⟩ mem fuel 248 0).val = none) ∧
      ¬ ∀ bits lower upper : ℕ, bits = 8 ∨ bits = 16 ∨ bits = 32 ∨ bits = 64 → lower ≤ upper →
        upper - lower ≤ bits → ∀ (b : Span) (mem : Memory), upper ≤ 8 * b.size →
          ∃ fuel, readBitsLoop bits upper b mem fuel (lower % 2 ^ bits) 0
            = pure (some (bitField b mem lower upper)) := by
  intro mem
  have hendless : ∀ fuel, (readBitsLoop 8 256 ⟨0, 32⟩ mem fuel 248 0).val = none :=
    fun fuel => val_readBitsLoop_endless (by decide) (by decide)
  refine ⟨by decide +kernel, by decide +kernel, by decide +kernel, hendless, fun h => ?_⟩
  obtain ⟨fuel, hloop⟩ := h 8 248 256 (by decide) (by decide) (by decide) ⟨0, 32⟩ mem (by decide)
  cases (hendless fuel).symm.trans (congrArg Checked.val hloop)

/-! ### Fields of known bytes -/

/-- A bit field of bytes that hold a number. -/
theorem readBits_of_bytes (first k : ℕ) {number value : ℕ} (hsize : first + k ≤ b.size)
    (hmem : mem.slice (b.off + first) k = beEncode k number) (hlt : number < 256 ^ k)
    (hbits : bits ≤ 32) (hfield : upper - lower ≤ bits) (hupper : upper < 2 ^ bits)
    (hle : lower ≤ upper) (hfirst : 8 * first ≤ lower) (hlast : upper ≤ 8 * (first + k))
    (hvalue : number / 2 ^ (8 * (first + k) - upper) % 2 ^ (upper - lower) = value) :
    readBits bits lower upper b mem = pure value := by
  have hreadable : Readable bits lower upper b mem := ⟨hupper, fun h => by omega⟩
  rw [hreadable.readBits_eq (Or.inl hbits) hle hfield (by omega),
    bitField_eq_beDecode first k hle hfirst hlast, hmem, beDecode_beEncode hlt, hvalue]

/-- A bit field of whole bytes. -/
theorem readBits_whole (first k : ℕ) {value : ℕ} (hsize : first + k ≤ b.size)
    (hmem : mem.slice (b.off + first) k = beEncode k value) (hlt : value < 256 ^ k)
    (hbits : bits ≤ 32) (hfield : 8 * k ≤ bits) (hupper : 8 * (first + k) < 2 ^ bits) :
    readBits bits (8 * first) (8 * (first + k)) b mem = pure value := by
  refine readBits_of_bytes first k hsize hmem hlt hbits (by omega) hupper (by omega) le_rfl le_rfl
    ?_
  rw [Nat.sub_self, pow_zero, Nat.div_one, Nat.mul_add, Nat.add_sub_cancel_left, pow_mul]
  exact Nat.mod_eq_of_lt hlt

/-- Two bit fields next to each other that share some bytes, the second of `n` bits. -/
theorem readBits_pair {bits bits' : ℕ} (first k n : ℕ) {x y : ℕ} (hsize : first + k ≤ b.size)
    (hmem : mem.slice (b.off + first) k = beEncode k (x * 2 ^ n + y))
    (hx : x < 2 ^ (8 * k - n)) (hy : y < 2 ^ n) (hn : n ≤ 8 * k)
    (hbits : bits ≤ 32 ∧ 8 * k - n ≤ bits ∧ 8 * (first + k) - n < 2 ^ bits)
    (hbits' : bits' ≤ 32 ∧ n ≤ bits' ∧ 8 * (first + k) < 2 ^ bits') :
    readBits bits (8 * first) (8 * (first + k) - n) b mem = pure x ∧
      readBits bits' (8 * (first + k) - n) (8 * (first + k)) b mem = pure y := by
  have hlt : x * 2 ^ n + y < 256 ^ k := by
    have hroom : (x + 1) * 2 ^ n ≤ 2 ^ (8 * k - n) * 2 ^ n := Nat.mul_le_mul_right _ hx
    have hpow : (256 : ℕ) ^ k = 2 ^ (8 * k) := by rw [pow_mul]; norm_num
    rw [← pow_add, Nat.sub_add_cancel hn, ← hpow, Nat.add_mul, Nat.one_mul] at hroom
    omega
  obtain ⟨hle, hfield, hupper⟩ := hbits
  obtain ⟨hle', hfield', hupper'⟩ := hbits'
  constructor
  · refine readBits_of_bytes first k hsize hmem hlt hle (by omega) hupper (by omega) le_rfl
      (by omega) ?_
    rw [Nat.sub_sub_self (by omega), show 8 * (first + k) - n - 8 * first = 8 * k - n by omega,
      Nat.add_comm, Nat.add_mul_div_right _ _ (Nat.two_pow_pos n), Nat.div_eq_of_lt hy,
      Nat.zero_add, Nat.mod_eq_of_lt hx]
  · refine readBits_of_bytes first k hsize hmem hlt hle' (by omega) hupper' (by omega) (by omega)
      le_rfl ?_
    rw [Nat.sub_self, pow_zero, Nat.div_one, Nat.sub_sub_self (by omega), Nat.add_comm,
      Nat.add_mul_mod_self_right, Nat.mod_eq_of_lt hy]

end Neptun
