import Mathlib.Data.Finset.Card
import Mathlib.Data.Finset.Range
import Mathlib.Tactic.Common

/-!
# Brtos.Lib.Bits

A machine word read as the **finite set of its set bits**.

Kernels keep small sets of priorities in one word: membership is a bit test,
insertion an `or` with a one-hot mask, deletion an `and` with its complement.
`bits` is the set such a word stands for; the lemmas below carry the three word
operations to `insert`, `erase` and intersection, so that the rest of a
development reasons with `Finset` and never unfolds a bit operation.
-/

namespace Bits

variable {w : Nat}

/-- The one-hot word with bit `p` set (the zero word when `p` is out of range). -/
def mask (w p : Nat) : BitVec w := 1#w <<< p

/-- The set of positions whose bit is set. -/
def bits (x : BitVec w) : Finset Nat := (Finset.range w).filter (fun p => x.getLsbD p = true)

theorem mem_bits {x : BitVec w} {p : Nat} : p ∈ bits x ↔ x.getLsbD p = true := by
  simp only [bits, Finset.mem_filter, Finset.mem_range, and_iff_right_iff_imp]
  exact fun h => BitVec.lt_of_getLsbD h

theorem lt_of_mem_bits {x : BitVec w} {p : Nat} (h : p ∈ bits x) : p < w :=
  BitVec.lt_of_getLsbD (mem_bits.mp h)

theorem getLsbD_mask (p q : Nat) : (mask w p).getLsbD q = decide (q < w ∧ q = p) := by
  simp only [mask, BitVec.getLsbD_shiftLeft, BitVec.getLsbD_one]
  by_cases h : q < w
  · by_cases hq : q = p
    · subst hq
      simp [h, show 0 < w by omega]
    · by_cases hlt : q < p
      · simp [h, hq, hlt]
      · simp [h, hq, hlt, show q - p ≠ 0 by omega]
  · simp [h]

@[simp] theorem bits_zero : bits (0#w) = ∅ := by
  ext p
  simp [mem_bits]

theorem bits_or_mask {x : BitVec w} {p : Nat} (hp : p < w) :
    bits (x ||| mask w p) = insert p (bits x) := by
  ext q
  simp only [mem_bits, BitVec.getLsbD_or, getLsbD_mask, Finset.mem_insert, Bool.or_eq_true,
    decide_eq_true_eq]
  constructor
  · rintro (h | ⟨-, h⟩)
    · exact Or.inr h
    · exact Or.inl h
  · rintro (rfl | h)
    · exact Or.inr ⟨hp, rfl⟩
    · exact Or.inl h

theorem mem_bits_or_mask {x : BitVec w} {p q : Nat} (hq : q < w) :
    q ∈ bits (x ||| mask w p) ↔ q ∈ bits x ∨ q = p := by
  rw [mem_bits, BitVec.getLsbD_or, getLsbD_mask, Bool.or_eq_true, ← mem_bits]
  simp [hq]

theorem bits_and_not_mask (x : BitVec w) (p : Nat) :
    bits (x &&& ~~~ mask w p) = (bits x).erase p := by
  ext q
  simp only [mem_bits, BitVec.getLsbD_and, BitVec.getLsbD_not, getLsbD_mask, Finset.mem_erase,
    Bool.and_eq_true, Bool.not_eq_true', decide_eq_false_iff_not, decide_eq_true_eq]
  constructor
  · rintro ⟨h, hw, hn⟩
    exact ⟨fun hq => hn ⟨hw, hq⟩, h⟩
  · rintro ⟨hq, h⟩
    exact ⟨h, BitVec.lt_of_getLsbD h, fun hn => hq hn.2⟩

theorem bits_and (x y : BitVec w) : bits (x &&& y) = bits x ∩ bits y := by
  ext q
  simp [mem_bits, BitVec.getLsbD_and]

theorem bits_eq_empty {x : BitVec w} : bits x = ∅ ↔ x = 0#w := by
  constructor
  · intro h
    apply BitVec.eq_of_getLsbD_eq
    intro i hi
    have hni : i ∉ bits x := by simp [h]
    simpa [mem_bits] using hni
  · rintro rfl
    exact bits_zero

/-- A test against a one-hot mask is membership. -/
theorem and_mask_ne_zero {x : BitVec w} {p : Nat} : x &&& mask w p ≠ 0#w ↔ p ∈ bits x := by
  rw [← not_iff_not, not_not, ← bits_eq_empty, Finset.eq_empty_iff_forall_notMem]
  constructor
  · intro h hp
    refine h p ?_
    rw [mem_bits, BitVec.getLsbD_and, getLsbD_mask]
    simp [mem_bits.mp hp, lt_of_mem_bits hp]
  · intro h q hq
    rw [mem_bits, BitVec.getLsbD_and, getLsbD_mask] at hq
    simp only [Bool.and_eq_true, decide_eq_true_eq] at hq
    exact h (mem_bits.mpr (hq.2.2 ▸ hq.1))

/-- The same test, written as equality with the mask. -/
theorem and_mask_eq_mask {x : BitVec w} {p : Nat} (hp : p < w) :
    x &&& mask w p = mask w p ↔ p ∈ bits x := by
  constructor
  · intro h
    have hb := congrArg (fun y => y.getLsbD p) h
    simp only [BitVec.getLsbD_and, getLsbD_mask] at hb
    simpa [mem_bits, hp] using hb
  · intro h
    apply BitVec.eq_of_getLsbD_eq
    intro i hi
    rw [BitVec.getLsbD_and, getLsbD_mask]
    by_cases hip : i = p
    · subst hip
      simp [mem_bits.mp h]
    · simp [hip]

theorem card_bits_le (x : BitVec w) : (bits x).card ≤ w := by
  calc (bits x).card ≤ (Finset.range w).card := Finset.card_filter_le _ _
    _ = w := Finset.card_range w

/-! ### The most significant set bit -/

/-- The binary logarithm of a non-zero word is the largest of its set bits. -/
theorem log2_mem_bits {x : BitVec w} (hx : x ≠ 0#w) : Nat.log2 x.toNat ∈ bits x := by
  have h0 : x.toNat ≠ 0 := fun h => hx (BitVec.eq_of_toNat_eq (by simpa using h))
  rw [mem_bits, BitVec.getLsbD, Nat.testBit_eq_decide_div_mod_eq]
  have h1 := Nat.log2_self_le h0
  have h2 := Nat.lt_log2_self (n := x.toNat)
  have h3 : x.toNat / 2 ^ x.toNat.log2 = 1 := by
    apply Nat.div_eq_of_lt_le
    · omega
    · rw [Nat.pow_succ] at h2
      omega
  simp [h3]

theorem le_log2_of_mem_bits {x : BitVec w} {p : Nat} (hp : p ∈ bits x) :
    p ≤ Nat.log2 x.toNat := by
  have hb : x.toNat.testBit p = true := mem_bits.mp hp
  have h0 : x.toNat ≠ 0 := by
    intro h
    simp [h] at hb
  exact (Nat.le_log2 h0).mpr (Nat.ge_two_pow_of_testBit hb)

end Bits
