import Brtos.Lib.Logged
import Mathlib.Algebra.Order.Group.Int

/-!
# Brtos.Lib.BinarySearch

**Binary search in a closed interval** `inf .. sup` of integers. What is searched is known by
a sign: `sign i` is negative where the entry `i` stands before the one that is wanted,
positive where it stands after it, and zero where it is found. The search notes every index
it looks at.

All of them are in the interval (`all_binarySearch`), and if the signs ascend the search
misses nothing (`binarySearch_eq_some`, `binarySearch_eq_none`).
-/

open Logged

/-- `while (inf <= sup)`, with the middle rounded down. -/
def binarySearch (sign : Int → Int) (inf sup : Int) : Logged Int (Option Int) :=
  if inf ≤ sup then
    let m := (inf + sup) / 2
    if sign m < 0 then do
      note m ()
      binarySearch sign (m + 1) sup
    else if 0 < sign m then do
      note m ()
      binarySearch sign inf (m - 1)
    else note m (some m)
  else pure none
termination_by (sup + 1 - inf).toNat
decreasing_by all_goals omega

/-- An entry before one that is not too late is too early. -/
def Ascends (sign : Int → Int) (inf sup : Int) : Prop :=
  ∀ i j, inf ≤ i → i < j → j ≤ sup → sign j ≤ 0 → sign i < 0

variable {sign : Int → Int} {inf sup m : Int}

theorem Ascends.mono (h : Ascends sign inf sup) {inf' sup' : Int} (hinf : inf ≤ inf')
    (hsup : sup' ≤ sup) : Ascends sign inf' sup' := fun i j hi hij hj =>
  h i j (le_trans hinf hi) hij (le_trans hj hsup)

/-- The search looks at nothing outside the interval. -/
theorem all_binarySearch : (binarySearch sign inf sup).All fun i => inf ≤ i ∧ i ≤ sup := by
  induction inf, sup using binarySearch.induct sign with
  | case1 inf sup hle m hneg ih =>
      rw [binarySearch, if_pos hle, if_pos hneg, all_bind, all_note]
      refine ⟨by omega, fun i hi => ?_⟩
      obtain ⟨h1, h2⟩ := ih i hi
      omega
  | case2 inf sup hle m hneg hpos ih =>
      rw [binarySearch, if_pos hle, if_neg hneg, if_pos hpos, all_bind, all_note]
      refine ⟨by omega, fun i hi => ?_⟩
      obtain ⟨h1, h2⟩ := ih i hi
      omega
  | case3 inf sup hle m hneg hpos =>
      rw [binarySearch, if_pos hle, if_neg hneg, if_neg hpos, all_note]
      omega
  | case4 inf sup hgt =>
      rw [binarySearch, if_neg hgt]
      exact all_pure none

/-- What is found is in the interval and is what was wanted. -/
theorem binarySearch_sound (h : (binarySearch sign inf sup).value = some m) :
    inf ≤ m ∧ m ≤ sup ∧ sign m = 0 := by
  induction inf, sup using binarySearch.induct sign with
  | case1 inf sup hle k hneg ih =>
      rw [binarySearch, if_pos hle, if_pos hneg, value_bind] at h
      obtain ⟨h1, h2, h3⟩ := ih h
      exact ⟨by omega, h2, h3⟩
  | case2 inf sup hle k hneg hpos ih =>
      rw [binarySearch, if_pos hle, if_neg hneg, if_pos hpos, value_bind] at h
      obtain ⟨h1, h2, h3⟩ := ih h
      exact ⟨h1, by omega, h3⟩
  | case3 inf sup hle k hneg hpos =>
      rw [binarySearch, if_pos hle, if_neg hneg, if_neg hpos] at h
      obtain rfl := Option.some.inj h
      exact ⟨by omega, by omega, le_antisymm (not_lt.mp hpos) (not_lt.mp hneg)⟩
  | case4 inf sup hgt =>
      rw [binarySearch, if_neg hgt] at h
      cases h

/-- If the signs ascend, nothing is missed. -/
theorem binarySearch_complete (hasc : Ascends sign inf sup)
    (h : (binarySearch sign inf sup).value = none) : ∀ i, inf ≤ i → i ≤ sup → sign i ≠ 0 := by
  induction inf, sup using binarySearch.induct sign with
  | case1 inf sup hle k hneg ih =>
      rw [binarySearch, if_pos hle, if_pos hneg, value_bind] at h
      intro i hi1 hi2 hzero
      -- everything up to the middle is too early
      rcases lt_trichotomy i k with hlt | rfl | hgt
      · have := hasc i k hi1 hlt (by omega) (le_of_lt hneg)
        omega
      · omega
      · exact ih (hasc.mono (by omega) le_rfl) h i (by omega) hi2 hzero
  | case2 inf sup hle k hneg hpos ih =>
      rw [binarySearch, if_pos hle, if_neg hneg, if_pos hpos, value_bind] at h
      intro i hi1 hi2 hzero
      -- everything from the middle on is too late
      rcases lt_trichotomy i k with hlt | rfl | hgt
      · exact ih (hasc.mono le_rfl (by omega)) h i hi1 (by omega) hzero
      · omega
      · have := hasc k i (by omega) hgt hi2 (le_of_eq hzero)
        omega
  | case3 inf sup hle k hneg hpos =>
      rw [binarySearch, if_pos hle, if_neg hneg, if_neg hpos] at h
      cases h
  | case4 inf sup hgt =>
      intro i hi1 hi2
      omega

theorem Ascends.unique (hasc : Ascends sign inf sup) {k : Int} (hm : inf ≤ m ∧ m ≤ sup)
    (hk : inf ≤ k ∧ k ≤ sup) (hm0 : sign m = 0) (hk0 : sign k = 0) : m = k := by
  rcases lt_trichotomy m k with h | h | h
  · have := hasc m k hm.1 h hk.2 (le_of_eq hk0)
    omega
  · exact h
  · have := hasc k m hk.1 h hm.2 (le_of_eq hm0)
    omega

/-- **Correctness.** -/
theorem binarySearch_eq_some (hasc : Ascends sign inf sup) :
    (binarySearch sign inf sup).value = some m ↔ inf ≤ m ∧ m ≤ sup ∧ sign m = 0 := by
  constructor
  · exact binarySearch_sound
  · intro ⟨h1, h2, h3⟩
    cases hr : (binarySearch sign inf sup).value with
    | none => exact absurd h3 (binarySearch_complete hasc hr m h1 h2)
    | some k =>
        obtain ⟨k1, k2, k3⟩ := binarySearch_sound hr
        rw [hasc.unique ⟨h1, h2⟩ ⟨k1, k2⟩ h3 k3]
