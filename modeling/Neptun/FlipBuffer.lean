/-
`FlipBuffer`: a byte buffer that is filled at its end, consumed at its front
and moved back to its beginning by `flip`.

The vector behind the buffer is a memory with a capacity.  A user's callback
writes into the free bytes at the end and returns a prefix of them; `slice_flip`
says that `flip` keeps the bytes between the two indices, although it copies
them in place.
-/
import Neptun.Types

namespace Neptun

structure FlipBuffer where
  beginIndex : ℕ
  endIndex : ℕ
  capacity : ℕ
  buffer : Memory

/-- What a `write_to_buffer` callback does with the span it is given: the new
contents of the span, and the length of the prefix it returns. -/
structure WriteToBufferFn where
  run : List UInt8 → List UInt8 × ℕ
  length_run : ∀ s, (run s).1.length = s.length
  le_run : ∀ s, (run s).2 ≤ s.length

/-- A callback that writes the given bytes, as far as they fit. -/
def WriteToBufferFn.ofBytes (bytes : List UInt8) : WriteToBufferFn where
  run span := (bytes.take span.length ++ span.drop bytes.length, min bytes.length span.length)
  length_run span := by
    rw [List.length_append, List.length_take, List.length_drop]
    omega
  le_run span := Nat.min_le_right _ _

namespace FlipBuffer

def ofCapacity (capacity : ℕ) : FlipBuffer := ⟨0, 0, capacity, fun _ => 0⟩

/-- `remaining()`: the free bytes behind the end. -/
def remaining (f : FlipBuffer) : Span := ⟨f.endIndex, usizeSub f.capacity f.endIndex⟩

/-- The loop of `flip`, with `n` bytes left to copy to index `i`. -/
def flipLoop (start : ℕ) : ℕ → ℕ → Memory → Memory
  | 0, _, m => m
  | n + 1, i, m => flipLoop start n (i + 1) (m.store i (m (start + i)))

def flip (f : FlipBuffer) : FlipBuffer :=
  let newEnd := usizeSub f.endIndex f.beginIndex
  { f with
    buffer := flipLoop f.beginIndex newEnd 0 f.buffer
    beginIndex := 0
    endIndex := newEnd }

def consume (f : FlipBuffer) (count : ℕ) : FlipBuffer :=
  { f with beginIndex := f.beginIndex + count }

def advance (f : FlipBuffer) (count : ℕ) : Checked Fault FlipBuffer := do
  Checked.check (f.endIndex + count ≤ f.capacity) (.assertion .flipAdvance)
  pure { f with endIndex := f.endIndex + count }

/-- A callback is run on the free bytes; it returns the first `length` bytes of
what it has written there. -/
def writeRemaining (f : FlipBuffer) (fn : WriteToBufferFn) : FlipBuffer × ℕ :=
  let span := f.remaining
  let (contents, length) := fn.run (f.buffer.slice span.off span.size)
  ({ f with buffer := f.buffer.storeList span.off contents }, length)

/-! ### The loop of `flip` -/

theorem flipLoop_apply_of_lt {start n i x : ℕ} {m : Memory} (h : x < i) :
    flipLoop start n i m x = m x := by
  induction n generalizing i m with
  | zero => rfl
  | succ n ih => rw [flipLoop, ih (by omega), Memory.store, if_neg (by omega)]

/-- The copy runs upwards and moves bytes down, so that it never overwrites a
byte it still has to copy. -/
theorem flipLoop_apply {start n i j : ℕ} {m : Memory} (h : j < n) :
    flipLoop start n i m (i + j) = m (start + i + j) := by
  induction n generalizing i j m with
  | zero => omega
  | succ n ih =>
    rw [flipLoop]
    rcases j with _ | j
    · show flipLoop start n (i + 1) _ i = m (start + i)
      rw [flipLoop_apply_of_lt (Nat.lt_succ_self i), Memory.store, if_pos rfl]
    · rw [show i + (j + 1) = i + 1 + j by omega, ih (by omega), Memory.store,
        if_neg (by omega)]
      congr 1
      omega

theorem flip_buffer_apply {f : FlipBuffer} (hf : f.beginIndex ≤ f.endIndex) {j : ℕ}
    (hj : f.beginIndex + j < f.endIndex) :
    f.flip.buffer j = f.buffer (f.beginIndex + j) := by
  have h := @flipLoop_apply f.beginIndex (f.endIndex - f.beginIndex) 0 j f.buffer (by omega)
  rw [Nat.zero_add, Nat.add_zero] at h
  rw [← h]
  simp only [flip, usizeSub_of_le hf]

/-- The bytes between the indices are kept, at their distance from the front. -/
theorem slice_flip {f : FlipBuffer} (hf : f.beginIndex ≤ f.endIndex) {a n : ℕ}
    (ha : f.beginIndex ≤ a) (hn : a + n ≤ f.endIndex) :
    f.flip.buffer.slice (a - f.beginIndex) n = f.buffer.slice a n := by
  refine Memory.slice_congr fun i hi => ?_
  rw [flip_buffer_apply hf (by omega)]
  congr 1
  omega

theorem consume_consume (f : FlipBuffer) (m n : ℕ) :
    (f.consume m).consume n = f.consume (m + n) := by
  rw [consume, consume, consume, Nat.add_assoc]

@[simp] theorem flip_beginIndex (f : FlipBuffer) : f.flip.beginIndex = 0 := (rfl)

theorem flip_endIndex {f : FlipBuffer} (hf : f.beginIndex ≤ f.endIndex) :
    f.flip.endIndex = f.endIndex - f.beginIndex := usizeSub_of_le hf

@[simp] theorem flip_capacity (f : FlipBuffer) : f.flip.capacity = f.capacity := (rfl)

end FlipBuffer

end Neptun
