import Brtos.Info.Text
import Brtos.Lib.Odometer
import Brtos.Lib.Run

/-!
# Brtos.Info.Clock

**The clock of `OSTime.c`** and `OSUptimeInfo`. `Hora` and `Data` are two odometers that the
application turns on once a second or once a day. Three functions share them: the uptime
runs over into the day, which goes on to 255, while `OSUpdateDate` counts months of 30
days; the two are not meant for one program.

`OSUptimeInfo` reads the clock in one critical section and prints through a buffer `str`. The
source gives it six characters, and `PrintDecimal` puts the NUL in `str[6]`: with this size every
call goes out of bounds (`uptime_info_overruns`), with one character more it shows the uptime.
-/

namespace Brtos

open Decimal hiding value
open Odometer

/-- `OSTime`. -/
structure OSTime where
  rtcSecond : Nat
  rtcMinute : Nat
  rtcHour : Nat
  deriving DecidableEq, Repr

/-- `OSDate`; the year is a `uint16_t`, the other fields are bytes. -/
structure OSDate where
  rtcDay : Nat
  rtcMonth : Nat
  rtcYear : Nat
  deriving DecidableEq, Repr

/-- The static variables `Hora` and `Data`. -/
structure Clock where
  hora : OSTime
  data : OSDate
  deriving DecidableEq, Repr

namespace Clock

/-- `OSUpdateTime`. -/
def osUpdateTime (c : Clock) : Clock :=
  let t := { c.hora with rtcSecond := (c.hora.rtcSecond + 1) % 256 }
  if t.rtcSecond = 60 then
    let t := { t with rtcSecond := 0, rtcMinute := (t.rtcMinute + 1) % 256 }
    if t.rtcMinute = 60 then
      let t := { t with rtcMinute := 0, rtcHour := (t.rtcHour + 1) % 256 }
      if t.rtcHour = 24 then { c with hora := { t with rtcHour := 0 } } else { c with hora := t }
    else { c with hora := t }
  else { c with hora := t }

/-- `OSUpdateUptime`. -/
def osUpdateUptime (c : Clock) : Clock :=
  let t := { c.hora with rtcSecond := (c.hora.rtcSecond + 1) % 256 }
  if t.rtcSecond = 60 then
    let t := { t with rtcSecond := 0, rtcMinute := (t.rtcMinute + 1) % 256 }
    if t.rtcMinute = 60 then
      let t := { t with rtcMinute := 0, rtcHour := (t.rtcHour + 1) % 256 }
      if t.rtcHour = 24 then
        { hora := { t with rtcHour := 0 }
          data := { c.data with rtcDay := (c.data.rtcDay + 1) % 256 } }
      else { c with hora := t }
    else { c with hora := t }
  else { c with hora := t }

/-- `OSUpdateDate`. -/
def osUpdateDate (c : Clock) : Clock :=
  let d := { c.data with rtcDay := (c.data.rtcDay + 1) % 256 }
  if d.rtcDay = 30 then
    let d := { d with rtcDay := 0, rtcMonth := (d.rtcMonth + 1) % 256 }
    if d.rtcMonth = 12 then
      let d := { d with rtcMonth := 0, rtcYear := (d.rtcYear + 1) % 65536 }
      if d.rtcYear = 9999 then { c with data := { d with rtcYear := 0 } } else { c with data := d }
    else { c with data := d }
  else { c with data := d }

/-- `OSResetTime`. -/
def osResetTime (c : Clock) : Clock := { c with hora := ⟨0, 0, 0⟩ }

/-- `OSResetDate`. -/
def osResetDate (c : Clock) : Clock := { c with data := ⟨0, 0, 0⟩ }

/-- `OSUptimeInfo`, with what is in `str` when it is called; `none` when `str` is overrun. -/
def osUptimeInfo (c : Clock) (str : List UInt8) : Option (List UInt8) := do
  let uptime := c.hora
  let upDate := c.data
  let (days, str) ←
    if upDate.rtcDay > 0 then do
      let (text, str) ← decimalText (Int16.ofNat upDate.rtcDay) str
      some (text ++ ascii "d ", str)
    else some ([], str)
  let (hours, str) ← decimalText (Int16.ofNat uptime.rtcHour) str
  let (minutes, str) ← decimalText (Int16.ofNat uptime.rtcMinute) str
  let (seconds, _) ← decimalText (Int16.ofNat uptime.rtcSecond) str
  some (ascii "\n\rBRTOS UPTIME: " ++ days ++ (hours ++ ascii "h ") ++ (minutes ++ ascii "m ") ++
    (seconds ++ ascii "s\n\r") ++ [0])

/-- `sizeof(str)`. -/
def strSize : Nat := 6

/-- The functions that write the clock. -/
inductive Call
  | updateTime
  | updateUptime
  | updateDate
  | resetTime
  | resetDate
  deriving DecidableEq, Repr

def step (c : Clock) : Call → Option (Clock × Unit)
  | .updateTime => some (c.osUpdateTime, ())
  | .updateUptime => some (c.osUpdateUptime, ())
  | .updateDate => some (c.osUpdateDate, ())
  | .resetTime => some (c.osResetTime, ())
  | .resetDate => some (c.osResetDate, ())

/-! ### The odometers -/

def uptimeRadices : List Nat := [60, 60, 24, 256]

def timeRadices : List Nat := [60, 60, 24]

def dateRadices : List Nat := [30, 12, 9999]

def uptimeWheels (c : Clock) : List Nat :=
  [c.hora.rtcSecond, c.hora.rtcMinute, c.hora.rtcHour, c.data.rtcDay]

def timeWheels (c : Clock) : List Nat := [c.hora.rtcSecond, c.hora.rtcMinute, c.hora.rtcHour]

def dateWheels (c : Clock) : List Nat := [c.data.rtcDay, c.data.rtcMonth, c.data.rtcYear]

/-- `OSUpdateUptime` turns the time and the day. -/
theorem osUpdateUptime_wheels {c : Clock} (h : InRange uptimeRadices c.uptimeWheels) :
    c.osUpdateUptime.uptimeWheels = advance uptimeRadices c.uptimeWheels := by
  obtain ⟨⟨second, minute, hour⟩, ⟨day, month, year⟩⟩ := c
  simp only [uptimeRadices, uptimeWheels, InRange, List.forall₂_cons, List.forall₂_nil_right_iff,
    and_true] at h
  obtain ⟨hs, hm, hh, hd⟩ := h
  have hs' : (second + 1) % 256 = second + 1 := by omega
  have hm' : (minute + 1) % 256 = minute + 1 := by omega
  have hh' : (hour + 1) % 256 = hour + 1 := by omega
  have hd' : (day + 1) % 256 = if day + 1 = 256 then 0 else day + 1 := by
    split <;> omega
  simp only [osUpdateUptime, uptimeWheels, uptimeRadices, advance, hs', hm', hh', hd']
  split_ifs <;> rfl

/-- `OSUpdateTime` turns the time. -/
theorem osUpdateTime_wheels {c : Clock} (h : InRange timeRadices c.timeWheels) :
    c.osUpdateTime.timeWheels = advance timeRadices c.timeWheels ∧
      c.osUpdateTime.data = c.data := by
  obtain ⟨⟨second, minute, hour⟩, data⟩ := c
  simp only [timeRadices, timeWheels, InRange, List.forall₂_cons, List.forall₂_nil_right_iff,
    and_true] at h
  obtain ⟨hs, hm, hh⟩ := h
  have hs' : (second + 1) % 256 = second + 1 := by omega
  have hm' : (minute + 1) % 256 = minute + 1 := by omega
  have hh' : (hour + 1) % 256 = hour + 1 := by omega
  simp only [osUpdateTime, timeWheels, timeRadices, advance, hs', hm', hh']
  split_ifs <;> exact ⟨rfl, rfl⟩

/-- `OSUpdateDate` turns the date. -/
theorem osUpdateDate_wheels {c : Clock} (h : InRange dateRadices c.dateWheels) :
    c.osUpdateDate.dateWheels = advance dateRadices c.dateWheels ∧
      c.osUpdateDate.hora = c.hora := by
  obtain ⟨hora, ⟨day, month, year⟩⟩ := c
  simp only [dateRadices, dateWheels, InRange, List.forall₂_cons, List.forall₂_nil_right_iff,
    and_true] at h
  obtain ⟨hd, hm, hy⟩ := h
  have hd' : (day + 1) % 256 = day + 1 := by omega
  have hm' : (month + 1) % 256 = month + 1 := by omega
  have hy' : (year + 1) % 65536 = year + 1 := by omega
  simp only [osUpdateDate, dateWheels, dateRadices, advance, hd', hm', hy']
  split_ifs <;> exact ⟨rfl, rfl⟩

/-! ### What the clock counts -/

/-- The seconds of the uptime. -/
def uptime (c : Clock) : Nat := Odometer.value uptimeRadices c.uptimeWheels

/-- The second of the day. -/
def time (c : Clock) : Nat := Odometer.value timeRadices c.timeWheels

/-- The day since the year 0, of months of 30 days. -/
def date (c : Clock) : Nat := Odometer.value dateRadices c.dateWheels

/-- The program keeps an uptime. -/
def UptimeUse (_ : Clock) : Call → Prop
  | .updateUptime | .resetTime | .resetDate => True
  | _ => False

instance (c : Clock) : (x : Call) → Decidable (UptimeUse c x)
  | .updateUptime | .resetTime | .resetDate => isTrue trivial
  | .updateTime | .updateDate => isFalse id

/-- The program keeps the time and the date. -/
def DateUse (_ : Clock) : Call → Prop
  | .updateUptime => False
  | _ => True

instance (c : Clock) : (x : Call) → Decidable (DateUse c x)
  | .updateUptime => isFalse id
  | .updateTime | .updateDate | .resetTime | .resetDate => isTrue trivial

/-- What a call makes of the seconds of the uptime. -/
def uptimeAfter (n : Nat) : Call → Nat
  | .updateUptime => (n + 1) % (256 * 86400)
  | .resetTime => n / 86400 * 86400
  | .resetDate => n % 86400
  | _ => n

/-- What a call makes of the second and the day. -/
def dateAfter (x : Nat × Nat) : Call → Nat × Nat
  | .updateTime => ((x.1 + 1) % 86400, x.2)
  | .updateDate => (x.1, (x.2 + 1) % (30 * 12 * 9999))
  | .resetTime => (0, x.2)
  | .resetDate => (x.1, 0)
  | .updateUptime => x

/-- One call of a program that keeps an uptime. -/
theorem step_uptime {c : Clock} {x : Call} (h : InRange uptimeRadices c.uptimeWheels)
    (hx : UptimeUse c x) {c' : Clock} (hs : c.step x = some (c', ())) :
    InRange uptimeRadices c'.uptimeWheels ∧ c'.uptime = uptimeAfter c.uptime x := by
  have hin := h
  simp only [uptimeRadices, uptimeWheels, InRange, List.forall₂_cons, List.forall₂_nil_right_iff,
    and_true] at hin
  cases x with
  | updateUptime =>
      cases hs
      obtain ⟨hr, hv⟩ := advance_spec h (by decide)
      rw [uptime, osUpdateUptime_wheels h]
      exact ⟨hr, hv⟩
  | resetTime =>
      cases hs
      refine ⟨by simpa [uptimeRadices, uptimeWheels, InRange, osResetTime] using hin.2.2.2, ?_⟩
      simp only [uptime, uptimeAfter, uptimeWheels, uptimeRadices, Odometer.value, osResetTime]
      omega
  | resetDate =>
      cases hs
      refine ⟨by simpa [uptimeRadices, uptimeWheels, InRange, osResetDate] using
        ⟨hin.1, hin.2.1, hin.2.2.1⟩, ?_⟩
      simp only [uptime, uptimeAfter, uptimeWheels, uptimeRadices, Odometer.value, osResetDate]
      omega
  | updateTime | updateDate => exact hx.elim

/-- One call of a program that keeps the time and the date. -/
theorem step_date {c : Clock} {x : Call} (ht : InRange timeRadices c.timeWheels)
    (hd : InRange dateRadices c.dateWheels) (hx : DateUse c x) {c' : Clock}
    (hs : c.step x = some (c', ())) :
    (InRange timeRadices c'.timeWheels ∧ InRange dateRadices c'.dateWheels) ∧
      (c'.time, c'.date) = dateAfter (c.time, c.date) x := by
  cases x with
  | updateTime =>
      cases hs
      obtain ⟨hw, hdata⟩ := osUpdateTime_wheels ht
      obtain ⟨hr, hv⟩ := advance_spec ht (by decide)
      have hdate : c.osUpdateTime.dateWheels = c.dateWheels := by
        rw [dateWheels, hdata]
        rfl
      rw [time, date, hw, hdate]
      exact ⟨⟨hr, hd⟩, Prod.ext hv rfl⟩
  | updateDate =>
      cases hs
      obtain ⟨hw, hhora⟩ := osUpdateDate_wheels hd
      obtain ⟨hr, hv⟩ := advance_spec hd (by decide)
      have htime : c.osUpdateDate.timeWheels = c.timeWheels := by
        rw [timeWheels, hhora]
        rfl
      rw [time, date, hw, htime]
      exact ⟨⟨ht, hr⟩, Prod.ext rfl hv⟩
  | resetTime =>
      cases hs
      exact ⟨⟨inRange_places (n := 0) (by decide), hd⟩, rfl⟩
  | resetDate =>
      cases hs
      exact ⟨⟨ht, inRange_places (n := 0) (by decide)⟩, rfl⟩
  | updateUptime => exact hx.elim

/-! ### The report -/

/-- What `OSUptimeInfo` shows of `n` seconds. -/
def uptimeText (n : Nat) : List UInt8 :=
  ascii "\n\rBRTOS UPTIME: " ++
    (if n / 86400 > 0 then numeral (n / 86400) ++ ascii "d " else []) ++
    (numeral (n / 3600 % 24) ++ ascii "h ") ++ (numeral (n / 60 % 60) ++ ascii "m ") ++
    (numeral (n % 60) ++ ascii "s\n\r") ++ [0]

theorem osUptimeInfo_eq {c : Clock} (h : InRange uptimeRadices c.uptimeWheels) {str : List UInt8}
    (hlen : 6 < str.length) : c.osUptimeInfo str = some (uptimeText c.uptime) := by
  simp only [uptimeRadices, uptimeWheels, InRange, List.forall₂_cons, List.forall₂_nil_right_iff,
    and_true] at h
  obtain ⟨hs, hm, hh, hd⟩ := h
  have hn : c.uptime = c.hora.rtcSecond + 60 * (c.hora.rtcMinute + 60 * (c.hora.rtcHour +
      24 * (c.data.rtcDay + 256 * 0))) := rfl
  have hs' : c.uptime % 60 = c.hora.rtcSecond := by omega
  have hm' : c.uptime / 60 % 60 = c.hora.rtcMinute := by omega
  have hh' : c.uptime / 3600 % 24 = c.hora.rtcHour := by omega
  have hd' : c.uptime / 86400 = c.data.rtcDay := by omega
  -- the three numbers that are always shown
  have hrest : ∀ str : List UInt8, 6 < str.length → ∃ str₁ str₂ str₃,
      decimalText (Int16.ofNat c.hora.rtcHour) str = some (numeral c.hora.rtcHour, str₁) ∧
      decimalText (Int16.ofNat c.hora.rtcMinute) str₁ = some (numeral c.hora.rtcMinute, str₂) ∧
      decimalText (Int16.ofNat c.hora.rtcSecond) str₂ = some (numeral c.hora.rtcSecond, str₃) := by
    intro str hlen
    obtain ⟨str₁, h₁, hlen₁⟩ := decimalText_ofNat (n := c.hora.rtcHour) str (by omega) hlen
    obtain ⟨str₂, h₂, hlen₂⟩ :=
      decimalText_ofNat (n := c.hora.rtcMinute) str₁ (by omega) (by omega)
    obtain ⟨str₃, h₃, -⟩ :=
      decimalText_ofNat (n := c.hora.rtcSecond) str₂ (by omega) (by omega)
    exact ⟨str₁, str₂, str₃, h₁, h₂, h₃⟩
  rw [uptimeText, hs', hm', hh', hd']
  by_cases hday : c.data.rtcDay > 0
  · obtain ⟨str₀, h₀, hlen₀⟩ := decimalText_ofNat (n := c.data.rtcDay) str (by omega) hlen
    obtain ⟨str₁, str₂, str₃, h₁, h₂, h₃⟩ := hrest str₀ (by omega)
    simp [osUptimeInfo, hday, h₀, h₁, h₂, h₃]
  · obtain ⟨str₁, str₂, str₃, h₁, h₂, h₃⟩ := hrest str hlen
    simp [osUptimeInfo, hday, h₁, h₂, h₃]

/-- The first number that is printed overruns a buffer of six characters. -/
theorem osUptimeInfo_eq_none (c : Clock) {str : List UInt8} (hlen : ¬ 6 < str.length) :
    c.osUptimeInfo str = none := by
  have hnone : ∀ v, decimalText v str = none := by
    intro v
    rw [decimalText, printDecimal_eq_none v hlen]
    rfl
  rw [osUptimeInfo]
  split <;> simp [hnone]

/-- The text determines the seconds. -/
theorem uptimeText_inj {n m : Nat} (h : uptimeText n = uptimeText m) : n = m := by
  have hd : ascii "d " = [100, 32] := rfl
  have hh : ascii "h " = [104, 32] := rfl
  have hm : ascii "m " = [109, 32] := rfl
  have hs : ascii "s\n\r" = [115, 10, 13] := rfl
  -- hours, minutes and seconds
  have htail : ∀ {xs ys : List UInt8}, numeral (n / 3600 % 24) ++ 104 :: 32 ::
        (numeral (n / 60 % 60) ++ 109 :: 32 :: (numeral (n % 60) ++ 115 :: xs)) =
      numeral (m / 3600 % 24) ++ 104 :: 32 ::
        (numeral (m / 60 % 60) ++ 109 :: 32 :: (numeral (m % 60) ++ 115 :: ys)) →
      n % 86400 = m % 86400 := by
    intro xs ys h
    obtain ⟨hhour, -, h⟩ := numeral_append_inj (by decide) (by decide) h
    obtain ⟨hmin, -, h⟩ := numeral_append_inj (by decide) (by decide) (List.cons.inj h).2
    obtain ⟨hsec, -, -⟩ := numeral_append_inj (by decide) (by decide) (List.cons.inj h).2
    omega
  rw [uptimeText, uptimeText, hd, hh, hm, hs] at h
  simp only [List.append_assoc, List.append_cancel_left_eq, List.cons_append, List.nil_append] at h
  by_cases hn : n / 86400 > 0
  · rw [if_pos hn] at h
    by_cases hm' : m / 86400 > 0
    · rw [if_pos hm'] at h
      simp only [List.append_assoc, List.cons_append, List.nil_append] at h
      obtain ⟨hday, -, h⟩ := numeral_append_inj (by decide) (by decide) h
      have := htail (List.cons.inj h).2
      omega
    · rw [if_neg hm'] at h
      simp only [List.append_assoc, List.cons_append, List.nil_append] at h
      exact absurd (numeral_append_inj (by decide) (by decide) h).2.1 (by decide)
  · rw [if_neg hn] at h
    by_cases hm' : m / 86400 > 0
    · rw [if_pos hm'] at h
      simp only [List.append_assoc, List.cons_append, List.nil_append] at h
      exact absurd (numeral_append_inj (by decide) (by decide) h).2.1 (by decide)
    · rw [if_neg hm'] at h
      have := htail h
      omega

/-- **The uptime.** Whatever seconds and resets come, `OSUptimeInfo` shows the seconds they
leave, counted to 256 days, and shows no two counts alike, as long as `str` has seven characters;
with fewer it overruns `str`. -/
theorem uptime_info_shows {c c' : Clock} {tr : List (Call × Unit)}
    (hc : InRange uptimeRadices c.uptimeWheels) (hr : Run step UptimeUse c tr c') (str : List UInt8) :
    (c'.osUptimeInfo str = none ↔ str.length < 7) ∧
      ∀ n, c'.osUptimeInfo str = some (uptimeText n) ↔
        7 ≤ str.length ∧ n = (tr.map Prod.fst).foldl uptimeAfter c.uptime := by
  have hinv : InRange uptimeRadices c'.uptimeWheels ∧
      c'.uptime = (tr.map Prod.fst).foldl uptimeAfter c.uptime := by
    refine hr.induction_on (P := fun tr c' => InRange uptimeRadices c'.uptimeWheels ∧
      c'.uptime = (tr.map Prod.fst).foldl uptimeAfter c.uptime) ⟨hc, rfl⟩ ?_
    rintro tr d x d' ⟨⟩ - ⟨hd, hv⟩ hx hs
    obtain ⟨hd', hv'⟩ := step_uptime hd hx hs
    refine ⟨hd', ?_⟩
    rw [List.map_append, List.foldl_append, ← hv]
    exact hv'
  by_cases hlen : 6 < str.length
  · rw [osUptimeInfo_eq hinv.1 hlen, hinv.2]
    refine ⟨⟨fun h => by simp at h, fun h => by omega⟩, fun n => ⟨fun h => ⟨hlen, ?_⟩, ?_⟩⟩
    · exact (uptimeText_inj (Option.some.inj h)).symm
    · rintro ⟨-, rfl⟩
      rfl
  · rw [osUptimeInfo_eq_none c' hlen]
    refine ⟨⟨fun _ => by omega, fun _ => rfl⟩, fun n => ⟨fun h => by simp at h, fun h => ?_⟩⟩
    exact absurd h.1 hlen

/-- The end of a day and a reset of the time, with seven characters. -/
theorem uptime_info_shows_script :
    osUptimeInfo (Run.after step ⟨⟨58, 59, 23⟩, ⟨0, 0, 0⟩⟩
      [.updateUptime, .updateUptime, .updateUptime, .resetTime, .updateUptime])
      (List.replicate 7 0) = some (uptimeText 86401) :=
  ((uptime_info_shows (by decide) (Run.of_admits (by decide)) _).2 86401).mpr (by decide)

/-- **As it stands, `OSUptimeInfo` always goes out of bounds**: `str` has six characters. -/
theorem uptime_info_overruns (c : Clock) {str : List UInt8} (hsize : str.length = strSize) :
    c.osUptimeInfo str = none :=
  osUptimeInfo_eq_none c (by rw [hsize]; decide)

/-- **The date.** A program that keeps time and date counts seconds of the day, and days in
months of 30 days up to the year 9998. -/
theorem date_counts {c c' : Clock} {tr : List (Call × Unit)} (ht : InRange timeRadices c.timeWheels)
    (hd : InRange dateRadices c.dateWheels) (hr : Run step DateUse c tr c') :
    InRange timeRadices c'.timeWheels ∧ InRange dateRadices c'.dateWheels ∧
      (c'.time, c'.date) = (tr.map Prod.fst).foldl dateAfter (c.time, c.date) := by
  have hinv := hr.induction_on (P := fun tr c' => (InRange timeRadices c'.timeWheels ∧
    InRange dateRadices c'.dateWheels) ∧
      (c'.time, c'.date) = (tr.map Prod.fst).foldl dateAfter (c.time, c.date)) ⟨⟨ht, hd⟩, rfl⟩ ?_
  · exact ⟨hinv.1.1, hinv.1.2, hinv.2⟩
  · rintro tr d x d' ⟨⟩ - ⟨⟨hdt, hdd⟩, hv⟩ hx hs
    obtain ⟨hd', hv'⟩ := step_date hdt hdd hx hs
    refine ⟨hd', ?_⟩
    rw [List.map_append, List.foldl_append, ← hv]
    exact hv'

/-- The end of the last year. -/
theorem date_counts_script :
    let c := Run.after step ⟨⟨59, 59, 23⟩, ⟨29, 11, 9998⟩⟩ [.updateDate, .updateTime]
    InRange timeRadices c.timeWheels ∧ InRange dateRadices c.dateWheels ∧
      (c.time, c.date) = [Call.updateDate, .updateTime].foldl dateAfter (86399, 3599639) :=
  date_counts (by decide) (by decide) (Run.of_admits (by decide))

end Clock

end Brtos
