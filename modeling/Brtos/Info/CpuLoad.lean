import Brtos.Info.Text
import Mathlib.Data.List.GetD

/-!
# Brtos.Info.CpuLoad

**The CPU load** (`COMPUTES_CPU_LOAD`). The idle task raises `OSDutyTmp` whenever it passes,
and the tick handler counts the ticks before which it did not. Of 1001 ticks it looks at
1000; the next one publishes the count, and leaves the flag as it is. So an idle pass before
a publishing tick counts for the first tick of the next window.

`OSCPULoad` prints the count as a percentage with one decimal.
-/

namespace Brtos

open Decimal

/-- The static variables of the CPU load. -/
structure DutyMeter where
  dutyCnt : Nat
  osDuty : Nat
  osDutyTmp : Bool
  lastOSDuty : Nat
  deriving DecidableEq, Repr

/-- What moves them. -/
inductive DutyEvent
  | idle
  | tick
  deriving DecidableEq, Repr

namespace DutyMeter

def zero : DutyMeter := ⟨0, 0, false, 0⟩

/-- A pass of `Idle`. -/
def idle (d : DutyMeter) : DutyMeter := { d with osDutyTmp := true }

/-- The system load in `OS_TICK_HANDLER`; `LastOSDuty` is never above 1000. -/
def tick (d : DutyMeter) : DutyMeter :=
  if d.dutyCnt ≥ 1000 then { d with dutyCnt := 0, lastOSDuty := d.osDuty, osDuty := 0 }
  else
    { d with
      osDuty := if d.osDutyTmp then d.osDuty else (d.osDuty + 1) % 2 ^ 32
      osDutyTmp := false
      dutyCnt := (d.dutyCnt + 1) % 2 ^ 16 }

def step (d : DutyMeter) : DutyEvent → DutyMeter
  | .idle => d.idle
  | .tick => d.tick

/-- `OSCPULoad`. -/
def osCPULoad (d : DutyMeter) : List UInt8 :=
  let percent := d.lastOSDuty
  ascii "\n\rCPU LOAD: " ++
    (if percent ≥ 1000 then ascii "100 %"
    else
      let cent := percent / 100
      let dez := (percent - cent * 100) / 10
      (if UInt8.ofNat (cent + 48) ≠ 48 then [UInt8.ofNat (cent + 48)] else []) ++
        [UInt8.ofNat (dez + 48), 46, UInt8.ofNat (percent % 10 + 48), 37]) ++
    ascii "\n\r" ++ [0]

/-! ### The count -/

/-- For each tick so far, whether the idle task passed since the one before; and whether it
has passed since the last one. -/
def passes (es : List DutyEvent) : List Bool × Bool :=
  es.foldl (fun x e => match e with
    | .idle => (x.1, true)
    | .tick => (x.1 ++ [x.2], false)) ([], false)

/-- The idle task's passes count for tick `i`; at the beginning of a window also those
before the publishing tick. -/
def idleAt (bs : List Bool) (i : Nat) : Bool :=
  bs.getD i false || (i % 1001 == 0 && 0 < i && bs.getD (i - 1) false)

/-- The busy ones of the first `k` ticks of window `w`. -/
def busy (bs : List Bool) (w k : Nat) : Nat :=
  (List.range k).countP fun j => !idleAt bs (1001 * w + j)

theorem busy_le (bs : List Bool) (w k : Nat) : busy bs w k ≤ k := by
  have := List.countP_le_length (p := fun j => !idleAt bs (1001 * w + j)) (l := List.range k)
  rwa [List.length_range] at this

theorem busy_succ (bs : List Bool) (w k : Nat) :
    busy bs w (k + 1) = busy bs w k + if idleAt bs (1001 * w + k) then 0 else 1 := by
  rw [busy, List.range_succ, List.countP_append, ← busy, List.countP_singleton]
  cases idleAt bs (1001 * w + k) <;> rfl

/-- Ticks to come do not change what was counted. -/
theorem idleAt_append {bs : List Bool} {i : Nat} (b : Bool) (hi : i < bs.length) :
    idleAt (bs ++ [b]) i = idleAt bs i := by
  rw [idleAt, idleAt, List.getD_append _ _ _ _ hi, List.getD_append _ _ _ _ (by omega)]

theorem busy_append {bs : List Bool} {w k : Nat} (b : Bool) (hk : 1001 * w + k ≤ bs.length) :
    busy (bs ++ [b]) w k = busy bs w k := by
  refine List.countP_congr fun j hj => ?_
  have := List.mem_range.mp hj
  rw [idleAt_append b (by omega)]

/-- The meter after the ticks `bs` and, if `p`, a pass of the idle task. -/
structure Shows (d : DutyMeter) (bs : List Bool) (p : Bool) : Prop where
  dutyCnt : d.dutyCnt = bs.length % 1001
  osDuty : d.osDuty = busy bs (bs.length / 1001) (bs.length % 1001)
  osDutyTmp : d.osDutyTmp = (p || (bs.length % 1001 == 0 && 0 < bs.length &&
    bs.getD (bs.length - 1) false))
  lastOSDuty : d.lastOSDuty = if bs.length < 1001 then 0 else busy bs (bs.length / 1001 - 1) 1000

theorem Shows.idle {d : DutyMeter} {bs : List Bool} {p : Bool} (h : d.Shows bs p) :
    d.idle.Shows bs true := ⟨h.dutyCnt, h.osDuty, rfl, h.lastOSDuty⟩

theorem Shows.tick {d : DutyMeter} {bs : List Bool} {p : Bool} (h : d.Shows bs p) :
    d.tick.Shows (bs ++ [p]) false := by
  obtain ⟨hc, hd, ht, hl⟩ := h
  have hlen : (bs ++ [p]).length = bs.length + 1 := by simp
  have hlt : bs.length % 1001 < 1001 := Nat.mod_lt _ (by omega)
  unfold DutyMeter.tick
  split
  · -- the publishing tick
    rename_i hfull
    have hcnt : bs.length % 1001 = 1000 := by omega
    have hmod : (bs.length + 1) % 1001 = 0 := by omega
    have hdiv : (bs.length + 1) / 1001 - 1 = bs.length / 1001 := by omega
    constructor
    · rw [hlen, hmod]
    · rw [hlen, hmod]
      rfl
    · rw [hlen, hmod, ht, hcnt]
      simp
    · rw [hlen, if_neg (by omega), hdiv, busy_append p (by omega), ← hcnt, ← hd]
  · rename_i hnot
    have hcnt : bs.length % 1001 < 1000 := by omega
    have hmod : (bs.length + 1) % 1001 = bs.length % 1001 + 1 := by omega
    have hdiv : (bs.length + 1) / 1001 = bs.length / 1001 := by omega
    have hidx : 1001 * (bs.length / 1001) + bs.length % 1001 = bs.length := Nat.div_add_mod ..
    have hidle : idleAt (bs ++ [p]) bs.length = d.osDutyTmp := by
      rw [ht, idleAt, List.getD_append_right _ _ _ _ (le_refl _), Nat.sub_self]
      by_cases h0 : 0 < bs.length
      · rw [List.getD_append _ _ _ _ (by omega)]
        rfl
      · have h0' : bs.length = 0 := by omega
        simp [h0']
    have hle := busy_le bs (bs.length / 1001) (bs.length % 1001)
    constructor
    · dsimp only
      rw [hlen, hmod, hc, Nat.mod_eq_of_lt (by omega)]
    · dsimp only
      rw [hlen, hmod, hdiv, busy_succ, busy_append p (by omega), hidx, hidle, hd]
      split
      · rfl
      · rw [Nat.mod_eq_of_lt (by omega)]
    · rw [hlen, hmod]
      simp
    · dsimp only
      rw [hlen, hdiv, hl]
      by_cases hfirst : bs.length < 1001
      · rw [if_pos hfirst, if_pos (by omega)]
      · rw [if_neg hfirst, if_neg (by omega), busy_append p (by omega)]

theorem shows_passes (es : List DutyEvent) :
    (es.foldl step zero).Shows (passes es).1 (passes es).2 := by
  induction es using List.reverseRecOn with
  | nil => exact ⟨rfl, rfl, rfl, rfl⟩
  | append_singleton es e ih =>
      rw [passes, List.foldl_append, List.foldl_append]
      cases e with
      | idle => exact ih.idle
      | tick => exact ih.tick

/-! ### The report -/

/-- What `OSCPULoad` shows of `n` thousandths. -/
def loadText (n : Nat) : List UInt8 :=
  ascii "\n\rCPU LOAD: " ++
    (if n ≥ 1000 then ascii "100 %" else numeral (n / 10) ++ 46 :: (numeral (n % 10) ++ [37])) ++
    ascii "\n\r" ++ [0]

theorem osCPULoad_eq (d : DutyMeter) : d.osCPULoad = loadText d.lastOSDuty := by
  have hchar : ∀ n, UInt8.ofNat (n + 48) = digit n := fun n => by rw [digit, Nat.add_comm]
  unfold osCPULoad loadText
  dsimp only
  by_cases hfull : d.lastOSDuty ≥ 1000
  · rw [if_pos hfull, if_pos hfull]
  · rw [if_neg hfull, if_neg hfull, hchar, hchar, hchar,
      numeral_of_lt (Nat.mod_lt d.lastOSDuty (by omega : 0 < 10))]
    by_cases h0 : d.lastOSDuty / 100 = 0
    · have hten : d.lastOSDuty / 10 < 10 := by omega
      rw [h0, Nat.zero_mul, Nat.sub_zero, numeral_of_lt hten]
      rfl
    · have hne : digit (d.lastOSDuty / 100) ≠ 48 := fun heq =>
        h0 (digit_inj (by omega) (by omega) heq)
      have hsplit : d.lastOSDuty / 10 = 10 * (d.lastOSDuty / 100) +
          (d.lastOSDuty - d.lastOSDuty / 100 * 100) / 10 := by omega
      rw [if_pos hne]
      conv_rhs => rw [hsplit]
      rw [numeral_append h0 (by omega), numeral_of_lt (by omega : d.lastOSDuty / 100 < 10)]
      rfl

/-- The text determines the thousandths. -/
theorem loadText_inj {n m : Nat} (hn : n ≤ 1000) (hm : m ≤ 1000) (h : loadText n = loadText m) :
    n = m := by
  have hfull : ascii "100 %" = numeral 100 ++ 32 :: [37] := by decide
  simp only [loadText, List.append_assoc, List.append_cancel_left_eq] at h
  rw [hfull] at h
  by_cases hn' : n ≥ 1000
  · by_cases hm' : m ≥ 1000
    · omega
    · rw [if_pos hn', if_neg hm', List.append_assoc, List.append_assoc] at h
      exact absurd (numeral_append_inj (by decide) (by decide) h).2.1 (by decide)
  · by_cases hm' : m ≥ 1000
    · rw [if_neg hn', if_pos hm', List.append_assoc, List.append_assoc] at h
      exact absurd (numeral_append_inj (by decide) (by decide) h).2.1 (by decide)
    · rw [if_neg hn', if_neg hm', List.append_assoc, List.append_assoc] at h
      obtain ⟨hdiv, -, h⟩ := numeral_append_inj (by decide) (by decide) h
      rw [List.append_eq, List.append_eq, List.append_assoc, List.append_assoc] at h
      have hmod := (numeral_append_inj (by decide) (by decide) h).1
      omega

/-- **The CPU load.** Whenever ticks and idle passes come, `OSCPULoad` shows the busy ticks
of the last full window, and shows no two counts alike. -/
theorem cpu_load_shows (es : List DutyEvent) {n : Nat} (hn : n ≤ 1000) :
    (es.foldl step zero).osCPULoad = loadText n ↔
      n = if (passes es).1.length < 1001 then 0
        else busy (passes es).1 ((passes es).1.length / 1001 - 1) 1000 := by
  rw [osCPULoad_eq, (shows_passes es).lastOSDuty]
  refine ⟨fun h => (loadText_inj ?_ hn h).symm, fun h => h ▸ rfl⟩
  split
  · exact Nat.zero_le _
  · exact busy_le _ _ _

/-- A full window: the idle task passes before each of 500 ticks, and then no more. -/
def halfLoad : List DutyEvent :=
  (List.replicate 500 [.idle, .tick]).flatten ++ List.replicate 501 .tick

set_option maxRecDepth 20000 in
theorem cpu_load_shows_script :
    (halfLoad.foldl step zero).osCPULoad = loadText 500 ∧
      500 = if (passes halfLoad).1.length < 1001 then 0
        else busy (passes halfLoad).1 ((passes halfLoad).1.length / 1001 - 1) 1000 := by
  have htext : (halfLoad.foldl step zero).osCPULoad = loadText 500 := by decide +kernel
  exact ⟨htext, (cpu_load_shows halfLoad (by decide)).mp htext⟩

end DutyMeter

end Brtos
