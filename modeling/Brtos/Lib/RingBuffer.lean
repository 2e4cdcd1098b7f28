import Mathlib.Logic.Function.Basic
import Mathlib.Tactic.Common

/-!
# Brtos.Lib.RingBuffer

**Ring buffers with lazy wrap-around.** A buffer is an interval of a memory, with a
write and a read position, its size and the number of its entries. A position may
stand one past the end; it is brought back to the start by the operation that uses it
next, not by the one that moved it there.

`IsRing mem r xs` says that `r` holds the sequence `xs` in `mem`. `put` and `get` are
the two pointer programs, each with the lemma that says what it does to the sequence
(`IsRing.put`, `IsRing.get`); neither tests anything, so both lemmas have a
precondition, and `get` on an empty buffer has no meaning in terms of sequences.
`Stands` is what is left of the positions where such a precondition was not met.
-/

/-- A ring buffer: the interval from `start` to `stop`, the positions of the next write
and the next read, the size and the number of entries. -/
structure RingBuffer where
  start : Nat
  stop : Nat
  inPos : Nat
  outPos : Nat
  size : Nat
  entries : Nat

namespace RingBuffer

variable {α : Type}

/-- A position, brought back from the end of the buffer. -/
def wrap (r : RingBuffer) (pos : Nat) : Nat := if pos = r.stop then r.start else pos

/-- The buffer after a write, which goes to `r.wrap r.inPos`. -/
def put (r : RingBuffer) : RingBuffer := { r with entries := r.entries + 1, inPos := r.wrap r.inPos + 1 }

/-- The buffer after a read, which is of `r.wrap r.outPos`. -/
def get (r : RingBuffer) : RingBuffer := { r with entries := r.entries - 1, outPos := r.wrap r.outPos + 1 }

/-- Buffer `r` holds `xs` in `mem`. -/
structure IsRing (mem : Nat → α) (r : RingBuffer) (xs : List α) : Prop where
  stop_eq : r.stop = r.start + r.size
  in_mem : r.start ≤ r.inPos ∧ r.inPos ≤ r.stop
  out_mem : r.start ≤ r.outPos ∧ r.outPos ≤ r.stop
  length : xs.length = r.entries
  le_size : r.entries ≤ r.size
  in_eq : (r.inPos - r.start) % r.size = (r.outPos - r.start + r.entries) % r.size
  content : ∀ i, (h : i < xs.length) →
    mem (r.start + (r.outPos - r.start + i) % r.size) = xs[i]

/-- A fresh buffer is empty. -/
theorem isRing_nil (mem : Nat → α) (start size : Nat) :
    IsRing mem ⟨start, start + size, start, start, size, 0⟩ [] :=
  ⟨rfl, ⟨Nat.le_refl _, Nat.le_add_right _ _⟩, ⟨Nat.le_refl _, Nat.le_add_right _ _⟩, rfl, Nat.zero_le _,
    rfl, fun i h => by simp at h⟩

/-- Bringing a position back is reducing its offset modulo the size. -/
theorem wrap_eq {r : RingBuffer} {pos : Nat} (hstop : r.stop = r.start + r.size)
    (hpos : r.start ≤ pos ∧ pos ≤ r.stop) : r.wrap pos = r.start + (pos - r.start) % r.size := by
  unfold wrap
  split
  · rename_i heq
    have : pos - r.start = r.size := by omega
    rw [this, Nat.mod_self, Nat.add_zero]
  · rw [Nat.mod_eq_of_lt (by omega)]
    omega

theorem wrap_mem {r : RingBuffer} {pos : Nat} (hstop : r.stop = r.start + r.size) (hsize : 0 < r.size)
    (hpos : r.start ≤ pos ∧ pos ≤ r.stop) : r.start ≤ r.wrap pos ∧ r.wrap pos < r.stop := by
  rw [wrap_eq hstop hpos]
  have := Nat.mod_lt (pos - r.start) hsize
  omega

/-- The buffer only reads its own interval. -/
theorem IsRing.congr {mem mem' : Nat → α} {r : RingBuffer} {xs : List α} (h : IsRing mem r xs)
    (hmem : ∀ i, r.start ≤ i → i < r.stop → mem' i = mem i) : IsRing mem' r xs := by
  refine ⟨h.stop_eq, h.in_mem, h.out_mem, h.length, h.le_size, h.in_eq, fun i hi => ?_⟩
  have hsize : 0 < r.size := by
    have := h.length
    have := h.le_size
    omega
  have hlt := Nat.mod_lt (r.outPos - r.start + i) hsize
  have hstop := h.stop_eq
  rw [hmem _ (Nat.le_add_right _ _) (by omega)]
  exact h.content i hi

/-- A write puts its value at the end of the sequence. -/
theorem IsRing.put {mem : Nat → α} {r : RingBuffer} {xs : List α} (h : IsRing mem r xs)
    (hroom : r.entries < r.size) (x : α) :
    IsRing (Function.update mem (r.wrap r.inPos) x) r.put (xs ++ [x]) := by
  have hsize : 0 < r.size := by omega
  have hpos := wrap_eq h.stop_eq h.in_mem
  have hlt := Nat.mod_lt (r.inPos - r.start) hsize
  have hstop := h.stop_eq
  refine ⟨h.stop_eq, ?_, h.out_mem, ?_, hroom, ?_, fun i hi => ?_⟩
  · simp only [RingBuffer.put]
    omega
  · simp [RingBuffer.put, h.length]
  · have hoff : r.wrap r.inPos + 1 - r.start = (r.inPos - r.start) % r.size + 1 := by omega
    simp only [RingBuffer.put]
    rw [hoff, h.in_eq, Nat.mod_add_mod, ← Nat.add_assoc]
  · have hlen : (xs ++ [x]).length = r.entries + 1 := by simp [h.length]
    simp only [RingBuffer.put]
    rw [hpos, h.in_eq]
    by_cases hlast : i = r.entries
    · subst hlast
      rw [Function.update_self]
      simp [← h.length]
    · -- two offsets less than one size apart are different modulo the size
      have hi' : i < xs.length := by
        have := h.length
        omega
      have hne : r.start + (r.outPos - r.start + i) % r.size ≠
          r.start + (r.outPos - r.start + r.entries) % r.size := by
        intro heq
        have hmod := Nat.sub_mod_eq_zero_of_mod_eq (Nat.add_left_cancel heq).symm
        have hlen := h.length
        rw [Nat.mod_eq_of_lt (by omega)] at hmod
        omega
      rw [Function.update_of_ne hne, List.getElem_append_left hi']
      exact h.content i hi'

/-- A read of a buffer that holds something is of the first value. -/
theorem IsRing.get {mem : Nat → α} {r : RingBuffer} {x : α} {xs : List α} (h : IsRing mem r (x :: xs)) :
    mem (r.wrap r.outPos) = x ∧ IsRing mem r.get xs := by
  have hlen : xs.length + 1 = r.entries := by simpa using h.length
  have hle := h.le_size
  have hsize : 0 < r.size := by omega
  have hpos := wrap_eq h.stop_eq h.out_mem
  have hlt := Nat.mod_lt (r.outPos - r.start) hsize
  have hstop := h.stop_eq
  have hoff : r.wrap r.outPos + 1 - r.start = (r.outPos - r.start) % r.size + 1 := by omega
  refine ⟨?_, h.stop_eq, h.in_mem, ?_, ?_, ?_, ?_, fun i hi => ?_⟩
  · have := h.content 0 (by simp)
    rw [hpos]
    simpa using this
  · simp only [RingBuffer.get]
    omega
  · simp only [RingBuffer.get]
    omega
  · simp only [RingBuffer.get]
    omega
  · simp only [RingBuffer.get]
    rw [hoff, h.in_eq, Nat.add_assoc, Nat.mod_add_mod]
    congr 2
    omega
  · have := h.content (i + 1) (by simpa using hi)
    simp only [RingBuffer.get]
    rw [hoff, Nat.add_assoc, Nat.mod_add_mod]
    rw [show r.outPos - r.start + (1 + i) = r.outPos - r.start + (i + 1) by omega]
    simpa using this

/-- The values a buffer holds are counted by its entries. -/
theorem IsRing.entries_eq_zero {mem : Nat → α} {r : RingBuffer} {xs : List α} (h : IsRing mem r xs) :
    r.entries = 0 ↔ xs = [] := by
  rw [← h.length, List.length_eq_zero_iff]

/-! ### Positions without a count -/

/-- `pos` is a whole number of values, `width` addresses each, behind the start of a buffer for
at least one. So much of a ring buffer is left when the number of entries is wrong. -/
def Stands (r : RingBuffer) (width pos : Nat) : Prop :=
  ∃ n k, 0 < n ∧ r.stop = r.start + width * n ∧ k ≤ n ∧ pos = r.start + width * k

theorem stands_start {r : RingBuffer} {width n : Nat} (hn : 0 < n)
    (hstop : r.stop = r.start + width * n) : r.Stands width r.start :=
  ⟨n, 0, hn, hstop, Nat.zero_le _, rfl⟩

/-- A position that has been brought back has a whole value in front of it. -/
theorem Stands.wrap {r : RingBuffer} {width pos : Nat} (h : r.Stands width pos) :
    ∃ n k, r.stop = r.start + width * n ∧ k < n ∧ r.wrap pos = r.start + width * k := by
  obtain ⟨n, k, hn, hstop, hk, rfl⟩ := h
  unfold RingBuffer.wrap
  split
  · exact ⟨n, 0, hstop, hn, rfl⟩
  · rename_i hne
    refine ⟨n, k, hstop, Nat.lt_of_le_of_ne hk ?_, rfl⟩
    rintro rfl
    exact hne hstop.symm

/-- The value at a position lies in the buffer. -/
theorem Stands.inside {r : RingBuffer} {width pos : Nat} (h : r.Stands width pos) :
    r.start ≤ r.wrap pos ∧ r.wrap pos + width ≤ r.stop := by
  obtain ⟨n, k, hstop, hk, hpos⟩ := h.wrap
  refine ⟨hpos ▸ Nat.le_add_right _ _, ?_⟩
  rw [hpos, hstop, Nat.add_assoc, ← Nat.mul_succ]
  exact Nat.add_le_add_left (Nat.mul_le_mul_left _ hk) _

/-- The position behind that value. -/
theorem Stands.next {r : RingBuffer} {width pos : Nat} (h : r.Stands width pos) :
    r.Stands width (r.wrap pos + width) := by
  obtain ⟨n, k, hstop, hk, hpos⟩ := h.wrap
  refine ⟨n, k + 1, Nat.zero_lt_of_lt hk, hstop, hk, ?_⟩
  rw [hpos, Nat.add_assoc, Nat.mul_succ]

end RingBuffer
