import Brtos.Lib.Gregorian

/-!
# Brtos.Properties.Calendar

The **calendar** of `OSTime.c`: `OSUpdateCalendar`, called once a second, keeps the
date-time that `SetCalendar` stored.

The calendar is compared with the day count of `Brtos.Lib.Gregorian`: one call adds one
second and keeps the date-time valid (`osUpdateCalendar_spec`), so `n` calls lead to the
one valid date-time `n` seconds later, as long as its year fits the 16-bit field.
-/

namespace Brtos

open Gregorian

/-- `OS_RTC`; the year is a `uint16_t`, the other fields are bytes. -/
abbrev OSRTC := Gregorian.DateTime

/-- The static variables of the calendar. -/
structure Calendar where
  osRtc : OSRTC
  leapMonth : Nat
  deriving DecidableEq, Repr

namespace Calendar

/-- `MonthLength[i]`, `none` outside the array. -/
def monthLength (i : Nat) : Option Nat :=
  [0, 31, 28, 31, 30, 31, 30, 31, 31, 30, 31, 30, 31][i]?

/-- The chain of tests that sets `LeapMonth`. An `else` belongs to the nearest `if`. -/
def leapMonthOf (r : OSRTC) : Nat :=
  if r.month = 2 then
    if r.year % 4 = 0 then
      if r.year % 100 = 0 then
        if r.year % 400 = 0 then 1 else 0
      else 1
    else 0
  else 0

/-- What `OSUpdateCalendar` does at midnight, after it has counted the day. -/
def nextDay (r : OSRTC) : Option Calendar :=
  let leapMonth := leapMonthOf r
  (monthLength r.month).map fun length =>
    if r.day > length + leapMonth then
      let r := { r with day := 1, month := (r.month + 1) % 256 }
      if r.month > 12 then ⟨{ r with month := 1, year := (r.year + 1) % 65536 }, leapMonth⟩
      else ⟨r, leapMonth⟩
    else ⟨r, leapMonth⟩

/-- `OSUpdateCalendar`. -/
def osUpdateCalendar (c : Calendar) : Option Calendar :=
  let r := { c.osRtc with sec := (c.osRtc.sec + 1) % 256 }
  if r.sec = 60 then
    let r := { r with sec := 0, min := (r.min + 1) % 256 }
    if r.min > 59 then
      let r := { r with min := 0, hour := (r.hour + 1) % 256 }
      if r.hour > 23 then nextDay { r with hour := 0, day := (r.day + 1) % 256 }
      else some { c with osRtc := r }
    else some { c with osRtc := r }
  else some { c with osRtc := r }

/-- `SetCalendar`. -/
def setCalendar (c : Calendar) (rtc : OSRTC) : Calendar := { c with osRtc := rtc }

/-- `n` calls of `OSUpdateCalendar`. -/
def updates : Nat → Calendar → Option Calendar
  | 0, c => some c
  | n + 1, c => (updates n c).bind osUpdateCalendar

/-! ### One second -/

theorem leapMonthOf_eq (r : OSRTC) :
    leapMonthOf r = if r.month = 2 ∧ IsLeap r.year then 1 else 0 := by
  unfold leapMonthOf IsLeap
  by_cases hm : r.month = 2
  · simp only [hm, true_and, if_true, Nat.dvd_iff_mod_eq_zero]
    by_cases h4 : r.year % 4 = 0
    · by_cases h100 : r.year % 100 = 0
      · by_cases h400 : r.year % 400 = 0 <;> simp [h4, h100, h400]
      · simp [h4, h100]
    · simp [h4]
  · simp [hm]

/-- The table and `LeapMonth` together are the length of the month. -/
theorem monthLength_eq {r : OSRTC} (h : 1 ≤ r.month) (h' : r.month ≤ 12) :
    ∃ length, monthLength r.month = some length ∧
      length + leapMonthOf r = Gregorian.monthLength r.year r.month := by
  rw [leapMonthOf_eq]
  obtain ⟨year, month, day, hour, min, sec⟩ := r
  dsimp only at h h' ⊢
  interval_cases month <;> refine ⟨_, rfl, ?_⟩
  case «2» =>
    by_cases hleap : IsLeap year <;> simp [Gregorian.monthLength, hleap]
  all_goals rfl

theorem monthLength_le (year month : Nat) : Gregorian.monthLength year month ≤ 31 := by
  unfold Gregorian.monthLength
  split
  · split <;> omega
  all_goals omega

/-- The branch at midnight leads to the next day. -/
theorem nextDay_spec {r : OSRTC} (hv : r.ValidDate) {top : Nat} (htop : top ≤ 65536)
    (hlast : r.days + 1 < daysBeforeYear top) :
    ∃ c, nextDay { r with day := (r.day + 1) % 256 } = some c ∧ c.osRtc.ValidDate ∧
      c.osRtc.days = r.days + 1 ∧ c.osRtc.secondOfDay = r.secondOfDay := by
  obtain ⟨hm, hm', hd, hd'⟩ := hv
  obtain ⟨length, hlength, hsum⟩ := monthLength_eq hm hm'
  have hmod : (r.day + 1) % 256 = r.day + 1 := by
    have := monthLength_le r.year r.month
    omega
  have hleap : leapMonthOf { r with day := r.day + 1 } = leapMonthOf r := rfl
  rw [hmod]
  unfold nextDay
  simp only [hlength, Option.map_some, hleap, hsum]
  refine ⟨_, rfl, ?_⟩
  split
  · -- the last day of its month
    rename_i hgt
    have hmod' : (r.month + 1) % 256 = r.month + 1 := by omega
    have hend : r.dayOfYear + 1 = daysBeforeMonth r.year (r.month + 1) := by
      show daysBeforeMonth r.year r.month + (r.day - 1) + 1 =
        daysBeforeMonth r.year r.month + Gregorian.monthLength r.year r.month
      omega
    rw [hmod']
    split
    · -- and of its year
      rename_i hyear
      have hdec : r.month = 12 := by omega
      rw [hdec, daysBeforeMonth_thirteen] at hend
      have hdays : r.days + 1 = daysBeforeYear (r.year + 1) := by
        show daysBeforeYear r.year + r.dayOfYear + 1 = daysBeforeYear r.year + yearLength r.year
        omega
      have hfits : (r.year + 1) % 65536 = r.year + 1 := by
        refine Nat.mod_eq_of_lt ?_
        by_contra hge
        have hmono := daysBeforeYear_mono (le_trans htop (Nat.le_of_not_lt hge))
        omega
      dsimp only
      rw [hfits]
      have hjanuary : 1 ≤ 12 := by decide
      refine ⟨⟨le_refl 1, hjanuary, le_refl 1, monthLength_pos (le_refl 1) hjanuary⟩, ?_, rfl⟩
      rw [hdays]
      rfl
    · rename_i hyear
      have hnext : 1 ≤ r.month + 1 := Nat.le_add_left 1 _
      have hnext' : r.month + 1 ≤ 12 := by omega
      refine ⟨⟨hnext, hnext', le_refl 1, monthLength_pos hnext hnext'⟩, ?_, rfl⟩
      show daysBeforeYear r.year + (daysBeforeMonth r.year (r.month + 1) + (1 - 1)) =
        daysBeforeYear r.year + r.dayOfYear + 1
      omega
  · rename_i hle
    have hday : r.day + 1 ≤ Gregorian.monthLength r.year r.month := Nat.le_of_not_lt hle
    refine ⟨⟨hm, hm', Nat.le_add_left 1 _, hday⟩, ?_, rfl⟩
    show daysBeforeYear r.year + (daysBeforeMonth r.year r.month + (r.day + 1 - 1)) =
      daysBeforeYear r.year + (daysBeforeMonth r.year r.month + (r.day - 1)) + 1
    omega

theorem seconds_of_same_day {a b : OSRTC} (hdays : a.days = b.days)
    (hsod : a.secondOfDay = b.secondOfDay + 1) : a.seconds = b.seconds + 1 := by
  unfold DateTime.seconds
  omega

/-- **The step lemma**: one call adds one second. -/
theorem osUpdateCalendar_spec {c : Calendar} (hv : c.osRtc.Valid) {top : Nat}
    (htop : top ≤ 65536) (hlast : c.osRtc.seconds + 1 < secondsBeforeYear top) :
    ∃ c', c.osUpdateCalendar = some c' ∧ c'.osRtc.Valid ∧
      c'.osRtc.seconds = c.osRtc.seconds + 1 := by
  obtain ⟨hdate, hhour, hmin, hsec⟩ := hv
  unfold osUpdateCalendar
  have hmodS : (c.osRtc.sec + 1) % 256 = c.osRtc.sec + 1 := by omega
  have hmodM : (c.osRtc.min + 1) % 256 = c.osRtc.min + 1 := by omega
  have hmodH : (c.osRtc.hour + 1) % 256 = c.osRtc.hour + 1 := by omega
  dsimp only
  rw [hmodS, hmodM, hmodH]
  -- one case for each carry: the next second, minute, hour and day
  split
  · rename_i hcarryS
    split
    · rename_i hcarryM
      split
      · rename_i hcarryH
        have hsod : c.osRtc.secondOfDay + 1 = 86400 := by
          unfold DateTime.secondOfDay
          omega
        have hlastDay : c.osRtc.days + 1 < daysBeforeYear top := by
          unfold DateTime.seconds secondsBeforeYear at hlast
          omega
        obtain ⟨c', hc', hdate', hdays, hmidnight⟩ :=
          nextDay_spec (r := { c.osRtc with hour := 0, min := 0, sec := 0 }) hdate htop hlastDay
        have hzero : c'.osRtc.secondOfDay = 0 := hmidnight
        have hdays : c'.osRtc.days = c.osRtc.days + 1 := hdays
        refine ⟨c', hc', ⟨hdate', ?_⟩, ?_⟩
        · unfold DateTime.secondOfDay at hzero
          unfold DateTime.ValidTime
          omega
        · unfold DateTime.seconds
          omega
      · refine ⟨_, rfl, ⟨hdate, ?_⟩, seconds_of_same_day rfl ?_⟩
        · unfold DateTime.ValidTime
          dsimp only
          omega
        · unfold DateTime.secondOfDay
          dsimp only
          omega
    · refine ⟨_, rfl, ⟨hdate, ?_⟩, seconds_of_same_day rfl ?_⟩
      · unfold DateTime.ValidTime
        dsimp only
        omega
      · unfold DateTime.secondOfDay
        dsimp only
        omega
  · refine ⟨_, rfl, ⟨hdate, ?_⟩, seconds_of_same_day rfl ?_⟩
    · unfold DateTime.ValidTime
      dsimp only
      omega
    · unfold DateTime.secondOfDay
      dsimp only
      omega

/-- **The run lemma**: `n` calls add `n` seconds. -/
theorem updates_spec {c : Calendar} (hv : c.osRtc.Valid) {top : Nat} (htop : top ≤ 65536)
    (n : Nat) (hlast : c.osRtc.seconds + n < secondsBeforeYear top) :
    ∃ c', updates n c = some c' ∧ c'.osRtc.Valid ∧ c'.osRtc.seconds = c.osRtc.seconds + n := by
  induction n with
  | zero => exact ⟨c, rfl, hv, (Nat.add_zero _).symm⟩
  | succ n ih =>
      obtain ⟨u, hu, huv, hus⟩ := ih (by omega)
      obtain ⟨c', hc', hv', hs'⟩ := osUpdateCalendar_spec huv htop (by omega)
      refine ⟨c', ?_, hv', by omega⟩
      rw [updates, hu]
      exact hc'

/-- **The calendar is correct**: `n` calls after a valid date-time was stored the calendar
shows a valid date-time, the only one that is `n` seconds later, as long as its year fits
the 16-bit field. -/
theorem calendar_correct (c : Calendar) {d : OSRTC} (hd : d.Valid) {n : Nat}
    (hlast : d.seconds + n < secondsBeforeYear 65536) :
    ∃ c', updates n (c.setCalendar d) = some c' ∧ c'.osRtc.Valid ∧
      c'.osRtc.seconds = d.seconds + n ∧
      ∀ d' : OSRTC, d'.Valid → d'.seconds = d.seconds + n → d' = c'.osRtc := by
  obtain ⟨c', hc', hv', hs'⟩ := updates_spec (c := c.setCalendar d) hd (le_refl 65536) n hlast
  refine ⟨c', hc', hv', hs', fun d' hd' hds' => ?_⟩
  exact DateTime.seconds_injective hd' hv' (hds'.trans hs'.symm)

/-- Three seconds over the end of February in a year divisible by 400. -/
theorem calendar_correct_leapDay :
    ∃ c', updates 3 (setCalendar ⟨⟨2011, 3, 28, 9, 0, 30⟩, 0⟩ ⟨400, 2, 29, 23, 59, 58⟩) = some c' ∧
      c'.osRtc = ⟨400, 3, 1, 0, 0, 1⟩ := by
  have hmono : secondsBeforeYear 401 ≤ secondsBeforeYear 65536 :=
    secondsBeforeYear_mono (by decide)
  have hlast : DateTime.seconds ⟨400, 2, 29, 23, 59, 58⟩ + 3 < secondsBeforeYear 401 := by
    decide +kernel
  obtain ⟨c', hc', -, -, hunique⟩ :=
    calendar_correct ⟨⟨2011, 3, 28, 9, 0, 30⟩, 0⟩ (d := ⟨400, 2, 29, 23, 59, 58⟩) (by decide)
      (lt_of_lt_of_le hlast hmono)
  exact ⟨c', hc', (hunique ⟨400, 3, 1, 0, 0, 1⟩ (by decide) (by decide +kernel)).symm⟩

end Calendar

end Brtos
