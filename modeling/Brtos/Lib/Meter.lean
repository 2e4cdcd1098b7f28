import Mathlib.Algebra.BigOperators.Group.Finset.Piecewise
import Mathlib.Algebra.BigOperators.Ring.Finset
import Mathlib.Algebra.Order.BigOperators.Group.Finset
import Mathlib.Data.Nat.Init

/-!
# Brtos.Lib.Meter

**Time charged in slices.** A meter is read now and then, and what has passed since the last
reading is charged to one account. However often it is read and whoever pays, the accounts
add up to the last reading (`Meter.Settled.charge`), so that no set of accounts holds more.

`sum_div_le_iff` is about shares: quotients of the accounts by one divisor, each rounded
down, add up to at most `n` exactly when the accounts add up to at most `n` divisors and
what the divisions cut off.
-/

open Finset

variable {ι : Type*}

/-- What each account has been charged, and up to which reading. -/
structure Meter (ι : Type*) where
  charged : ι → ℕ
  upTo : ℕ

namespace Meter

/-- Charge the time since the last reading to `i`. -/
def charge [DecidableEq ι] (m : Meter ι) (i : ι) (r : ℕ) : Meter ι where
  charged := Function.update m.charged i (m.charged i + (r - m.upTo))
  upTo := r

/-- All time has been charged, and only to accounts in `s`. -/
structure Settled (s : Finset ι) (m : Meter ι) : Prop where
  sum : ∑ i ∈ s, m.charged i = m.upTo
  rest : ∀ i ∉ s, m.charged i = 0

namespace Settled

variable {s : Finset ι} {m : Meter ι}

theorem zero : Settled s ⟨fun _ => 0, 0⟩ := ⟨by simp, fun _ _ => rfl⟩

/-- A slice goes to one account, and the reading moves on by it. -/
theorem charge [DecidableEq ι] (hm : Settled s m) {i : ι} {r : ℕ} (hi : i ∈ s) (hr : m.upTo ≤ r) :
    Settled s (m.charge i r) where
  sum := by
    have hsplit := sum_update_of_mem hi m.charged (m.charged i + (r - m.upTo))
    have hold := add_sum_erase s m.charged hi
    have hsum := hm.sum
    rw [← sdiff_singleton_eq_erase] at hold
    show ∑ j ∈ s, Function.update m.charged i (m.charged i + (r - m.upTo)) j = r
    rw [hsplit]
    omega
  rest := by
    intro j hj
    have hne : j ≠ i := fun h => hj (h ▸ hi)
    show Function.update m.charged i (m.charged i + (r - m.upTo)) j = 0
    rw [Function.update_of_ne hne]
    exact hm.rest j hj

/-- No accounts hold more than the last reading. -/
theorem sum_le (hm : Settled s m) (t : Finset ι) : ∑ i ∈ t, m.charged i ≤ m.upTo := by
  classical
  rw [← hm.sum, ← sum_inter_add_sum_sdiff t s m.charged]
  have hrest : ∑ i ∈ t \ s, m.charged i = 0 :=
    sum_eq_zero fun i hi => hm.rest i (mem_sdiff.mp hi).2
  rw [hrest, add_zero]
  exact sum_le_sum_of_subset inter_subset_right

theorem charged_le (hm : Settled s m) (i : ι) : m.charged i ≤ m.upTo := by
  have h := hm.sum_le {i}
  rwa [sum_singleton] at h

end Settled

end Meter

section Shares

variable {s : Finset ι} {f : ι → ℕ} {d n : ℕ}

theorem sum_div_le_iff (hd : 0 < d) :
    ∑ i ∈ s, f i / d ≤ n ↔ ∑ i ∈ s, f i ≤ d * n + ∑ i ∈ s, f i % d := by
  have hsplit : ∑ i ∈ s, f i = d * ∑ i ∈ s, f i / d + ∑ i ∈ s, f i % d := by
    rw [mul_sum, ← sum_add_distrib]
    exact sum_congr rfl fun i _ => (Nat.div_add_mod (f i) d).symm
  rw [hsplit, Nat.add_le_add_iff_right]
  exact (Nat.mul_le_mul_left_iff hd).symm

/-- Rounding each share down is rounding down more. -/
theorem sum_div_le : ∑ i ∈ s, f i / d ≤ (∑ i ∈ s, f i) / d := by
  rcases Nat.eq_zero_or_pos d with rfl | hd
  · simp
  · rw [Nat.le_div_iff_mul_le hd, sum_mul]
    exact sum_le_sum fun i _ => Nat.div_mul_le_self (f i) d

end Shares
