/-
Byte memories, slices of them, and big-endian numbers.

A `Memory` gives the byte at every address.  `slice m a n` lists the `n` bytes
from address `a` on, `storeList m a bs` overwrites the bytes from `a` on by
`bs`; the rules say which slices a store determines and which it leaves alone:

* `slice_storeList_self` — reading back what was stored;
* `slice_storeList_of_disjoint` — a store elsewhere is not seen;
* `slice_add` — a slice is cut at any point.

`beEncode w n` are the `w` big-endian bytes of `n` and `beDecode` is the value
of a list of bytes; `beDecode_beEncode` is the round trip for the numbers that
fit.
-/
import Mathlib.Tactic
import Mathlib.Data.Nat.Bitwise

/-- The byte at every address. -/
abbrev Memory := ℕ → UInt8

namespace Memory

/-- Overwrite one byte. -/
def store (m : Memory) (a : ℕ) (b : UInt8) : Memory :=
  fun x => if x = a then b else m x

/-- Overwrite the bytes from address `a` on. -/
def storeList (m : Memory) (a : ℕ) : List UInt8 → Memory
  | [] => m
  | b :: bs => storeList (m.store a b) (a + 1) bs

/-- The `n` bytes from address `a` on. -/
def slice (m : Memory) (a : ℕ) : ℕ → List UInt8
  | 0 => []
  | n + 1 => m a :: slice m (a + 1) n

variable {m m' : Memory} {a a' n : ℕ}

@[simp] theorem length_slice (m : Memory) (a n : ℕ) : (m.slice a n).length = n := by
  induction n generalizing a with
  | zero => rfl
  | succ n ih => simp [slice, ih]

theorem slice_add (m : Memory) (a k n : ℕ) :
    m.slice a (k + n) = m.slice a k ++ m.slice (a + k) n := by
  induction k generalizing a with
  | zero => simp [slice]
  | succ k ih =>
    rw [show k + 1 + n = (k + n) + 1 by omega, slice, slice, ih]
    simp [Nat.add_assoc, Nat.add_comm 1 k]

/-- A part of a slice. -/
theorem take_drop_slice (m : Memory) (a : ℕ) {i k n : ℕ} (h : i + k ≤ n) :
    ((m.slice a n).drop i).take k = m.slice (a + i) k := by
  -- cut the slice at both ends of the part
  rw [show n = i + (k + (n - (i + k))) by omega, slice_add, slice_add,
    List.drop_left' (by simp), List.take_left' (by simp)]

theorem slice_congr (h : ∀ i < n, m (a + i) = m' (a' + i)) :
    m.slice a n = m'.slice a' n := by
  induction n generalizing a a' with
  | zero => rfl
  | succ n ih =>
    rw [slice, slice, ih (fun i hi => ?_)]
    · have h0 := h 0 (Nat.succ_pos n)
      rw [Nat.add_zero, Nat.add_zero] at h0
      rw [h0]
    · have := h (i + 1) (by omega)
      rwa [show a + (i + 1) = a + 1 + i by omega,
        show a' + (i + 1) = a' + 1 + i by omega] at this

theorem getElem?_slice {i : ℕ} (h : i < n) : (m.slice a n)[i]? = some (m (a + i)) := by
  induction n generalizing a i with
  | zero => omega
  | succ n ih =>
    rcases i with _ | i
    · simp [slice]
    · rw [slice, List.getElem?_cons_succ, ih (by omega)]
      rw [show a + 1 + i = a + (i + 1) by omega]

/-! ### Stores -/

theorem storeList_apply_of_lt {bs : List UInt8} {x : ℕ} (h : x < a) :
    m.storeList a bs x = m x := by
  induction bs generalizing m a with
  | nil => rfl
  | cons b bs ih =>
    rw [storeList, ih (by omega), store, if_neg (by omega)]

theorem storeList_apply_of_ge {bs : List UInt8} {x : ℕ} (h : a + bs.length ≤ x) :
    m.storeList a bs x = m x := by
  induction bs generalizing m a with
  | nil => rfl
  | cons b bs ih =>
    rw [List.length_cons] at h
    rw [storeList, ih (by omega), store, if_neg (by omega)]

theorem slice_storeList_of_disjoint {bs : List UInt8}
    (h : a' + n ≤ a ∨ a + bs.length ≤ a') :
    (m.storeList a bs).slice a' n = m.slice a' n := by
  refine slice_congr fun i hi => ?_
  rcases h with h | h
  · exact storeList_apply_of_lt (by omega)
  · exact storeList_apply_of_ge (by omega)

theorem slice_storeList_self (m : Memory) (a : ℕ) (bs : List UInt8) :
    (m.storeList a bs).slice a bs.length = bs := by
  induction bs generalizing m a with
  | nil => rfl
  | cons b bs ih =>
    rw [storeList, List.length_cons, slice, ih, storeList_apply_of_lt (by omega), store,
      if_pos rfl]

/-- Storing what is already there. -/
theorem storeList_of_slice_eq {bs : List UInt8}
    (h : m.slice a bs.length = bs) : m.storeList a bs = m := by
  funext x
  by_cases hlt : x < a
  · exact storeList_apply_of_lt hlt
  · by_cases hge : a + bs.length ≤ x
    · exact storeList_apply_of_ge hge
    · obtain ⟨i, rfl⟩ : ∃ i, x = a + i := ⟨x - a, by omega⟩
      have hself := slice_storeList_self m a bs
      have hi : i < bs.length := by omega
      rw [← Option.some_inj, ← getElem?_slice hi, ← getElem?_slice hi, hself, h]

theorem storeList_append (m : Memory) (a : ℕ) (bs cs : List UInt8) :
    m.storeList a (bs ++ cs) = (m.storeList a bs).storeList (a + bs.length) cs := by
  induction bs generalizing m a with
  | nil => rfl
  | cons b bs ih =>
    rw [List.cons_append, storeList, ih, storeList, List.length_cons]
    rw [show a + 1 + bs.length = a + (bs.length + 1) by omega]

/-- What is stored right behind the first bytes continues them. -/
theorem slice_storeList_behind (m : Memory) (k : ℕ) (bs : List UInt8) :
    (m.storeList k bs).slice 0 (k + bs.length) = m.slice 0 k ++ bs := by
  rw [slice_add, slice_storeList_of_disjoint (Or.inl (Nat.zero_add k).le), Nat.zero_add,
    slice_storeList_self]

/-- A memory that holds `bs ++ cs` holds `cs` behind `bs`. -/
theorem slice_eq_of_append {bs cs : List UInt8}
    (h : m.slice a (bs ++ cs).length = bs ++ cs) :
    m.slice a bs.length = bs ∧ m.slice (a + bs.length) cs.length = cs := by
  rw [List.length_append, slice_add] at h
  exact List.append_inj h (by simp)

/-- The bytes that a slice begins with. -/
theorem prefix_slice_iff {bs : List UInt8} :
    bs <+: m.slice a n ↔ bs.length ≤ n ∧ m.slice a bs.length = bs := by
  constructor
  · intro h
    have hle : bs.length ≤ n := by
      have := h.length_le
      rwa [length_slice] at this
    refine ⟨hle, ?_⟩
    have htake := take_drop_slice m a (i := 0) (k := bs.length) (n := n) (by omega)
    rw [List.drop_zero, Nat.add_zero] at htake
    rw [← htake, ← List.prefix_iff_eq_take.mp h]
  · rintro ⟨hle, hbs⟩
    refine ⟨m.slice (a + bs.length) (n - bs.length), ?_⟩
    have hcut := slice_add m a bs.length (n - bs.length)
    rw [Nat.add_sub_cancel' hle, hbs] at hcut
    exact hcut.symm

end Memory

/-! ### Big-endian numbers -/

/-- The `w` big-endian bytes of `n`. -/
def beEncode : ℕ → ℕ → List UInt8
  | 0, _ => []
  | w + 1, n => UInt8.ofNat (n / 256 ^ w) :: beEncode w n

/-- The number a list of big-endian bytes stands for. -/
def beDecode : List UInt8 → ℕ
  | [] => 0
  | b :: bs => b.toNat * 256 ^ bs.length + beDecode bs

@[simp] theorem length_beEncode (w n : ℕ) : (beEncode w n).length = w := by
  induction w with
  | zero => rfl
  | succ w ih => simp [beEncode, ih]

theorem beDecode_lt (bs : List UInt8) : beDecode bs < 256 ^ bs.length := by
  induction bs with
  | nil => simp [beDecode]
  | cons b bs ih =>
    rw [beDecode, List.length_cons, pow_succ]
    have hb : b.toNat + 1 ≤ 256 := b.toNat_lt
    have : (b.toNat + 1) * 256 ^ bs.length ≤ 256 * 256 ^ bs.length :=
      Nat.mul_le_mul_right _ hb
    rw [Nat.add_mul, Nat.one_mul] at this
    omega

theorem beDecode_beEncode_mod (w n : ℕ) : beDecode (beEncode w n) = n % 256 ^ w := by
  induction w with
  | zero => simp [beEncode, beDecode, Nat.mod_one]
  | succ w ih =>
    have hbyte : (UInt8.ofNat (n / 256 ^ w)).toNat = n / 256 ^ w % 256 := by
      rw [UInt8.toNat_ofNat']
    rw [beEncode, beDecode, length_beEncode, ih, hbyte, pow_succ, Nat.mod_mul (a := 256 ^ w),
      Nat.mul_comm (256 ^ w), Nat.add_comm]

/-- Big-endian numbers that fit are read back as they were written. -/
theorem beDecode_beEncode {w n : ℕ} (h : n < 256 ^ w) : beDecode (beEncode w n) = n := by
  rw [beDecode_beEncode_mod, Nat.mod_eq_of_lt h]

theorem beEncode_add_mul (w n k : ℕ) : beEncode w (n + k * 256 ^ w) = beEncode w n := by
  induction w generalizing k with
  | zero => rfl
  | succ w ih =>
    have hhead : (n + k * 256 ^ (w + 1)) / 256 ^ w = n / 256 ^ w + k * 256 := by
      rw [pow_succ, Nat.mul_comm (256 ^ w), ← Nat.mul_assoc,
        Nat.add_mul_div_right _ _ (Nat.pow_pos (by norm_num))]
    have htail : n + k * 256 ^ (w + 1) = n + (k * 256) * 256 ^ w := by
      rw [pow_succ, Nat.mul_comm (256 ^ w), Nat.mul_assoc]
    rw [beEncode, beEncode, hhead, htail, ih]
    congr 1
    rw [← UInt8.toNat_inj, UInt8.toNat_ofNat', UInt8.toNat_ofNat']
    omega

/-- Bytes are written back as they were read. -/
theorem beEncode_beDecode (bs : List UInt8) : beEncode bs.length (beDecode bs) = bs := by
  induction bs with
  | nil => rfl
  | cons b bs ih =>
    have hlt := beDecode_lt bs
    -- the first byte is the quotient, the others are what is left of the number
    have hhead : (b.toNat * 256 ^ bs.length + beDecode bs) / 256 ^ bs.length = b.toNat := by
      rw [Nat.add_comm, Nat.add_mul_div_right _ _ (Nat.pow_pos (by norm_num)),
        Nat.div_eq_of_lt hlt, Nat.zero_add]
    rw [List.length_cons, beDecode, beEncode, hhead, UInt8.ofNat_toNat, Nat.add_comm,
      beEncode_add_mul, ih]

/-- The first bytes of a number are those of its quotient. -/
theorem take_beEncode {j w : ℕ} (h : j ≤ w) (n : ℕ) :
    (beEncode w n).take j = beEncode j (n / 256 ^ (w - j)) := by
  induction w generalizing j with
  | zero =>
    rw [Nat.le_zero.mp h]
    rfl
  | succ w ih =>
    cases j with
    | zero => rfl
    | succ j =>
      rw [beEncode, beEncode, List.take_succ_cons, ih (by omega), Nat.div_div_eq_div_mul,
        ← pow_add, show w + 1 - (j + 1) = w - j by omega, show w - j + j = w by omega]

/-- A byte of a big-endian number. -/
theorem byte_eq_beDecode (m : Memory) {a j k : ℕ} (h : j < k) :
    (m (a + j)).toNat = beDecode (m.slice a k) / 256 ^ (k - 1 - j) % 256 := by
  obtain ⟨k, rfl⟩ : ∃ i, k = i + 1 := ⟨k - 1, by omega⟩
  have hlt := beDecode_lt (m.slice (a + 1) k)
  rw [Memory.length_slice] at hlt
  rw [Memory.slice, beDecode, Memory.length_slice, Nat.add_sub_cancel]
  -- on the number of bytes in front of this one
  induction j generalizing a k with
  | zero =>
    rw [Nat.sub_zero, Nat.add_zero, Nat.add_comm (_ * _),
      Nat.add_mul_div_right _ _ (Nat.pow_pos (by norm_num)), Nat.div_eq_of_lt hlt, Nat.zero_add,
      Nat.mod_eq_of_lt (m a).toNat_lt]
  | succ j ih =>
    obtain ⟨k, rfl⟩ : ∃ i, k = i + 1 := ⟨k - 1, by omega⟩
    have hlt' := beDecode_lt (m.slice (a + 1 + 1) k)
    rw [Memory.length_slice] at hlt'
    have hnext := ih (a := a + 1) (k := k) (by omega) hlt'
    -- the bytes in front of it are a multiple of `256 ^ (k - j) * 256`
    have hpow : (256 : ℕ) ^ (k + 1) = 256 ^ (k - j) * (256 * 256 ^ j) := by
      rw [← Nat.pow_succ', ← pow_add]
      congr 1
      omega
    rw [show k + 1 - (j + 1) = k - j by omega, hpow, Nat.mul_left_comm, Nat.mul_add_div
      (Nat.pow_pos (by norm_num)), Nat.mul_left_comm, Nat.mul_add_mod, Memory.slice, beDecode,
      Memory.length_slice, ← hnext, Nat.add_assoc, Nat.add_comm 1]

theorem beEncode_inj {w n n' : ℕ} (hn : n < 256 ^ w) (hn' : n' < 256 ^ w)
    (h : beEncode w n = beEncode w n') : n = n' := by
  rw [← beDecode_beEncode hn, h, beDecode_beEncode hn']

theorem beEncode_zero (w : ℕ) : beEncode w 0 = List.replicate w 0 := by
  induction w with
  | zero => rfl
  | succ w ih =>
    rw [beEncode, ih, Nat.zero_div]
    rfl

/-! ### Little-endian numbers -/

/-- The `w` little-endian bytes of `n`. -/
def leEncode (w n : ℕ) : List UInt8 := (beEncode w n).reverse

/-- The number of the first `w` bytes, and the bytes behind it. -/
def leSplit (w : ℕ) (bs : List UInt8) : ℕ × List UInt8 :=
  (beDecode (bs.take w).reverse, bs.drop w)

@[simp] theorem length_leEncode (w n : ℕ) : (leEncode w n).length = w := by
  rw [leEncode, List.length_reverse, length_beEncode]

theorem leSplit_leEncode {w n : ℕ} (h : n < 256 ^ w) (bs : List UInt8) :
    leSplit w (leEncode w n ++ bs) = (n, bs) := by
  rw [leSplit, List.take_left' (length_leEncode w n), List.drop_left' (length_leEncode w n),
    leEncode, List.reverse_reverse, beDecode_beEncode h]
