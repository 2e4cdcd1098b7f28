import Mathlib.Algebra.BigOperators.Group.List.Basic

/-!
# Brtos.Lib.Odometer

**Odometers**: wheels with a radix each, the fastest first. One advance turns the first wheel
on by one place, and a wheel that comes round to its radix goes to zero and advances the
next. On the places of a number this is adding one (`advance_places`), and the places of a
number determine it up to the product of the radices (`value_places`).
-/

namespace Odometer

variable {rs ds : List Nat} {n : Nat}

/-- The places of `n` under radices `rs`. -/
def places : List Nat → Nat → List Nat
  | [], _ => []
  | r :: rs, n => n % r :: places rs (n / r)

/-- The number that wheels show. -/
def value : List Nat → List Nat → Nat
  | r :: rs, d :: ds => d + r * value rs ds
  | _, _ => 0

/-- Turn the first wheel on by one place. -/
def advance : List Nat → List Nat → List Nat
  | r :: rs, d :: ds => if d + 1 = r then 0 :: advance rs ds else (d + 1) :: ds
  | _, ds => ds

/-- Every wheel shows less than its radix. -/
abbrev InRange (rs ds : List Nat) : Prop := List.Forall₂ (fun d r => d < r) ds rs

theorem inRange_places (hpos : ∀ r ∈ rs, 0 < r) : InRange rs (places rs n) := by
  induction rs generalizing n with
  | nil => exact .nil
  | cons r rs ih =>
      exact .cons (Nat.mod_lt _ (hpos r List.mem_cons_self))
        (ih fun r' hr => hpos r' (List.mem_cons_of_mem _ hr))

theorem places_value (h : InRange rs ds) : places rs (value rs ds) = ds := by
  induction h with
  | nil => rfl
  | @cons d r ds rs hd _ ih =>
      rw [value, places, Nat.add_mul_mod_self_left, Nat.mod_eq_of_lt hd,
        Nat.add_mul_div_left _ _ (by omega), Nat.div_eq_of_lt hd, Nat.zero_add, ih]

theorem value_places (rs : List Nat) (n : Nat) : value rs (places rs n) = n % rs.prod := by
  induction rs generalizing n with
  | nil => exact (Nat.mod_one n).symm
  | cons r rs ih =>
      rw [places, value, ih, List.prod_cons, Nat.mod_mul]

/-- **One advance adds one.** -/
theorem advance_places (hpos : ∀ r ∈ rs, 0 < r) (n : Nat) :
    advance rs (places rs n) = places rs (n + 1) := by
  induction rs generalizing n with
  | nil => rfl
  | cons r rs ih =>
      have hr := hpos r List.mem_cons_self
      have hlt := Nat.mod_lt n hr
      have hn := Nat.div_add_mod n r
      rw [places, places, advance]
      split
      · rename_i hfull
        have hsucc : n + 1 = r * (n / r + 1) := by
          rw [Nat.mul_add, Nat.mul_one]
          omega
        rw [ih fun r' h => hpos r' (List.mem_cons_of_mem _ h), hsucc, Nat.mul_mod_right,
          Nat.mul_div_cancel_left _ hr]
      · have hlt' : n % r + 1 < r := by omega
        have hsucc : n + 1 = r * (n / r) + (n % r + 1) := by omega
        have hmod : (n + 1) % r = n % r + 1 := by
          rw [hsucc, Nat.mul_add_mod, Nat.mod_eq_of_lt hlt']
        have hdiv : (n + 1) / r = n / r := by
          rw [hsucc, Nat.mul_add_div hr, Nat.div_eq_of_lt hlt', Nat.add_zero]
        rw [hmod, hdiv]

theorem advance_eq (h : InRange rs ds) (hpos : ∀ r ∈ rs, 0 < r) :
    advance rs ds = places rs (value rs ds + 1) := by
  rw [← advance_places hpos, places_value h]

/-- Wheels in range stay in range, and come round at the product of the radices. -/
theorem advance_spec (h : InRange rs ds) (hpos : ∀ r ∈ rs, 0 < r) :
    InRange rs (advance rs ds) ∧ value rs (advance rs ds) = (value rs ds + 1) % rs.prod := by
  rw [advance_eq h hpos]
  exact ⟨inRange_places hpos, value_places rs _⟩

end Odometer
