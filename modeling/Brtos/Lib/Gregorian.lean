import Mathlib.Order.Monotone.Basic
import Mathlib.Order.Nat
import Mathlib.Tactic.IntervalCases

/-!
# Brtos.Lib.Gregorian

The **proleptic Gregorian calendar** as a count of days and seconds.

`daysBeforeYear` and `daysBeforeMonth` add up the lengths of the years and months gone by,
so that `DateTime.seconds` is the number of seconds since the first second of year 0. A
valid date-time is determined by it (`DateTime.seconds_injective`).
-/

namespace Gregorian

/-- Every fourth year but for the centuries, and every fourth century. -/
def IsLeap (year : Nat) : Prop := 4 ∣ year ∧ (¬ 100 ∣ year ∨ 400 ∣ year)

instance (year : Nat) : Decidable (IsLeap year) := inferInstanceAs (Decidable (_ ∧ _))

/-- The days of a month, 1 to 12. -/
def monthLength (year : Nat) : Nat → Nat
  | 2 => if IsLeap year then 29 else 28
  | 4 | 6 | 9 | 11 => 30
  | 1 | 3 | 5 | 7 | 8 | 10 | 12 => 31
  | _ => 0

def yearLength (year : Nat) : Nat := if IsLeap year then 366 else 365

def daysBeforeYear : Nat → Nat
  | 0 => 0
  | year + 1 => daysBeforeYear year + yearLength year

def secondsBeforeYear (year : Nat) : Nat := daysBeforeYear year * 86400

/-- The days of the year before a month. -/
def daysBeforeMonth (year : Nat) : Nat → Nat
  | 0 => 0
  | month + 1 => daysBeforeMonth year month + monthLength year month

structure DateTime where
  year : Nat
  month : Nat
  day : Nat
  hour : Nat
  min : Nat
  sec : Nat
  deriving DecidableEq, Repr

/-! ### Sums of lengths -/

theorem monthLength_pos {year month : Nat} (h : 1 ≤ month) (h' : month ≤ 12) :
    0 < monthLength year month := by
  interval_cases month <;> simp only [monthLength] <;> first | decide | (split <;> decide)

/-- The twelve months make up the year. -/
theorem daysBeforeMonth_thirteen (year : Nat) : daysBeforeMonth year 13 = yearLength year := by
  simp only [daysBeforeMonth, monthLength, yearLength]
  split <;> rfl

theorem daysBeforeMonth_mono (year : Nat) : Monotone (daysBeforeMonth year) :=
  monotone_nat_of_le_succ fun _ => Nat.le_add_right _ _

theorem daysBeforeYear_mono : Monotone daysBeforeYear :=
  monotone_nat_of_le_succ fun _ => Nat.le_add_right _ _

theorem secondsBeforeYear_mono : Monotone secondsBeforeYear :=
  fun _ _ h => Nat.mul_le_mul_right _ (daysBeforeYear_mono h)

namespace DateTime

variable {a b : DateTime}

def ValidDate (d : DateTime) : Prop :=
  1 ≤ d.month ∧ d.month ≤ 12 ∧ 1 ≤ d.day ∧ d.day ≤ monthLength d.year d.month

def ValidTime (d : DateTime) : Prop := d.hour < 24 ∧ d.min < 60 ∧ d.sec < 60

def Valid (d : DateTime) : Prop := d.ValidDate ∧ d.ValidTime

instance (d : DateTime) : Decidable d.Valid := inferInstanceAs (Decidable ((_ ∧ _) ∧ (_ ∧ _)))

/-- The day of the year, from 0. -/
def dayOfYear (d : DateTime) : Nat := daysBeforeMonth d.year d.month + (d.day - 1)

/-- Days since the first day of year 0. -/
def days (d : DateTime) : Nat := daysBeforeYear d.year + d.dayOfYear

/-- Seconds since midnight. -/
def secondOfDay (d : DateTime) : Nat := (d.hour * 60 + d.min) * 60 + d.sec

/-- Seconds since the first second of year 0. -/
def seconds (d : DateTime) : Nat := d.days * 86400 + d.secondOfDay

/-! ### The count determines the date -/

/-- A day of a month comes before the next month. -/
theorem ValidDate.dayOfYear_lt (h : a.ValidDate) :
    a.dayOfYear < daysBeforeMonth a.year (a.month + 1) := by
  obtain ⟨-, -, hday, hlen⟩ := h
  show daysBeforeMonth a.year a.month + (a.day - 1) <
    daysBeforeMonth a.year a.month + monthLength a.year a.month
  omega

theorem ValidDate.dayOfYear_lt_yearLength (h : a.ValidDate) :
    a.dayOfYear < yearLength a.year := by
  have hmono : daysBeforeMonth a.year (a.month + 1) ≤ daysBeforeMonth a.year 13 :=
    daysBeforeMonth_mono a.year (by have := h.2.1; omega)
  rw [daysBeforeMonth_thirteen] at hmono
  exact lt_of_lt_of_le h.dayOfYear_lt hmono

theorem ValidDate.days_lt (h : a.ValidDate) : a.days < daysBeforeYear (a.year + 1) :=
  Nat.add_lt_add_left h.dayOfYear_lt_yearLength _

theorem year_le_of_days_le (hb : b.ValidDate) (h : a.days ≤ b.days) : a.year ≤ b.year := by
  by_contra hlt
  have hmono : daysBeforeYear (b.year + 1) ≤ daysBeforeYear a.year :=
    daysBeforeYear_mono (by omega)
  have hbd := hb.days_lt
  have had : daysBeforeYear a.year ≤ a.days := Nat.le_add_right _ _
  omega

theorem month_le_of_dayOfYear_le (hy : a.year = b.year) (hb : b.ValidDate)
    (h : a.dayOfYear ≤ b.dayOfYear) : a.month ≤ b.month := by
  by_contra hlt
  have hmono : daysBeforeMonth a.year (b.month + 1) ≤ daysBeforeMonth a.year a.month :=
    daysBeforeMonth_mono a.year (by omega)
  rw [hy] at hmono
  have hbd := hb.dayOfYear_lt
  have had : daysBeforeMonth a.year a.month ≤ a.dayOfYear := Nat.le_add_right _ _
  rw [hy] at had
  omega

theorem date_of_days_eq (ha : a.ValidDate) (hb : b.ValidDate) (h : a.days = b.days) :
    a.year = b.year ∧ a.month = b.month ∧ a.day = b.day := by
  have hy : a.year = b.year :=
    le_antisymm (year_le_of_days_le hb h.le) (year_le_of_days_le ha h.ge)
  have hdoy : a.dayOfYear = b.dayOfYear := by
    unfold days at h
    rw [hy] at h
    omega
  have hm : a.month = b.month :=
    le_antisymm (month_le_of_dayOfYear_le hy hb hdoy.le)
      (month_le_of_dayOfYear_le hy.symm ha hdoy.ge)
  refine ⟨hy, hm, ?_⟩
  have had := ha.2.2.1
  have hbd := hb.2.2.1
  unfold dayOfYear at hdoy
  rw [hy, hm] at hdoy
  omega

theorem ValidTime.secondOfDay_lt (h : a.ValidTime) : a.secondOfDay < 86400 := by
  obtain ⟨hh, hm, hs⟩ := h
  unfold secondOfDay
  omega

/-- A valid date-time is determined by its count of seconds. -/
theorem seconds_injective (ha : a.Valid) (hb : b.Valid) (h : a.seconds = b.seconds) : a = b := by
  have hsa := ha.2.secondOfDay_lt
  have hsb := hb.2.secondOfDay_lt
  unfold seconds at h
  obtain ⟨hy, hm, hd⟩ := date_of_days_eq ha.1 hb.1 (by omega)
  obtain ⟨-, hma, hsa'⟩ := ha.2
  obtain ⟨-, hmb, hsb'⟩ := hb.2
  have hsec : a.secondOfDay = b.secondOfDay := by omega
  unfold secondOfDay at hsec
  cases a
  cases b
  simp only [mk.injEq] at *
  omega

end DateTime

end Gregorian
