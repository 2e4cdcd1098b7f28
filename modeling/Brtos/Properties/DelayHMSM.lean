import Brtos.Properties.Delay
import Mathlib.Algebra.GroupWithZero.Nat

/-!
# Brtos.Properties.DelayHMSM

**Delays in hours, minutes, seconds and milliseconds.** `OSDelayTaskHMSM` turns the time
into ticks and asks `OSDelayTask` for them in pieces: first the remainder modulo 60000,
then 60000 ticks as often as needed, because one delay is limited to the period of the tick
counter. Each piece lasts exactly as long as it says (`wake_up_exact`), so the pieces
together last as long as the total, wherever the counter stands when they begin.

The total is computed in `uint32_t`. Its last term multiplies the milliseconds by the tick
rate before it divides by 1000, and that product may wrap although the total does not.
-/

namespace Brtos

open Bits Kernel

variable {cfg : Config} {s t u : Kernel cfg}

/-! ### The function -/

/-- What `OSDelayTaskHMSM` returns. -/
inductive HmsmRet
  | ok | noTaskDelay | invalidTime
  deriving DecidableEq, Repr

/-- The time a task asks to be delayed for. -/
structure Hmsm where
  hours : UInt8
  minutes : UInt8
  seconds : UInt8
  miliseconds : UInt16

/-- The total in ticks, as it is computed in `uint32_t`. -/
def Hmsm.ticks (hz : UInt32) (x : Hmsm) : UInt32 :=
  x.hours.toUInt32 * 3600 * hz + x.minutes.toUInt32 * 60 * hz + x.seconds.toUInt32 * hz +
    x.miliseconds.toUInt32 * hz / 1000

/-- The delays the loop asks for. -/
def delayLoop : Nat → List Nat
  | 0 => []
  | loops + 1 => 60000 :: delayLoop loops

/-- `OSDelayTaskHMSM`: the arguments of its calls of `OSDelayTask`, whose results it
ignores, and what it returns. `hz` is `configTICK_RATE_HZ`. -/
def osDelayTaskHMSM (hz : UInt32) (x : Hmsm) : List Nat × HmsmRet :=
  if x.minutes > 59 then ([], .invalidTime)
  else if x.seconds > 59 then ([], .invalidTime)
  else if x.miliseconds > 999 then ([], .invalidTime)
  else if x.ticks hz > 0 then
    let loops := x.ticks hz / 60000
    let ticks := x.ticks hz % 60000
    (ticks.toUInt16.toNat :: delayLoop loops.toNat, .ok)
  else ([], .noTaskDelay)

/-! ### The total -/

/-- The time in ticks. -/
def Hmsm.total (hz : UInt32) (x : Hmsm) : Nat :=
  x.hours.toNat * 3600 * hz.toNat + x.minutes.toNat * 60 * hz.toNat + x.seconds.toNat * hz.toNat +
    x.miliseconds.toNat * hz.toNat / 1000

/-- Every field but the hours has a limit. -/
def Hmsm.InRange (x : Hmsm) : Prop :=
  x.minutes ≤ 59 ∧ x.seconds ≤ 59 ∧ x.miliseconds ≤ 999

/-- The computation, without the wraps that do not happen. -/
theorem Hmsm.toNat_ticks {hz : UInt32} {x : Hmsm} (hfits : x.total hz < 2 ^ 32) :
    (x.ticks hz).toNat = x.hours.toNat * 3600 * hz.toNat + x.minutes.toNat * 60 * hz.toNat +
      x.seconds.toNat * hz.toNat + x.miliseconds.toNat * hz.toNat % 2 ^ 32 / 1000 := by
  unfold Hmsm.total at hfits
  have hle : x.miliseconds.toNat * hz.toNat % 2 ^ 32 / 1000 ≤
      x.miliseconds.toNat * hz.toNat / 1000 := Nat.div_le_div_right (Nat.mod_le _ _)
  simp only [Hmsm.ticks, UInt32.toNat_add, UInt32.toNat_mul, UInt32.toNat_div,
    UInt8.toNat_toUInt32, UInt16.toNat_toUInt32]
  have h3600 : (3600 : UInt32).toNat = 3600 := rfl
  have h60 : (60 : UInt32).toNat = 60 := rfl
  have h1000 : (1000 : UInt32).toNat = 1000 := rfl
  rw [h3600, h60, h1000]
  simp only [Nat.mod_mul_mod, Nat.mod_add_mod, Nat.add_mod_mod]
  exact Nat.mod_eq_of_lt (by omega)

/-- The total is right exactly when the milliseconds do not overflow. -/
theorem Hmsm.toNat_ticks_eq_iff {hz : UInt32} {x : Hmsm} (hfits : x.total hz < 2 ^ 32) :
    (x.ticks hz).toNat = x.total hz ↔ x.miliseconds.toNat * hz.toNat < 2 ^ 32 := by
  rw [Hmsm.toNat_ticks hfits, Hmsm.total]
  generalize x.miliseconds.toNat * hz.toNat = p
  constructor
  · intro h
    by_contra hge
    have hmod : p % 2 ^ 32 ≤ p - 2 ^ 32 := by
      rw [Nat.mod_eq_sub_mod (by omega)]
      exact Nat.mod_le _ _
    omega
  · intro h
    rw [Nat.mod_eq_of_lt h]

/-! ### The delays asked for -/

theorem sum_delayLoop (n : Nat) : (delayLoop n).sum = 60000 * n := by
  induction n with
  | zero => rfl
  | succ n ih =>
      rw [delayLoop, List.sum_cons, ih]
      omega

theorem eq_of_mem_delayLoop {n d : Nat} (h : d ∈ delayLoop n) : d = 60000 := by
  induction n with
  | zero => cases h
  | succ n ih =>
      rcases List.mem_cons.mp h with rfl | h
      · rfl
      · exact ih h

/-- What the function does with a time in range. -/
theorem osDelayTaskHMSM_inRange {hz : UInt32} {x : Hmsm} (hx : x.InRange) :
    osDelayTaskHMSM hz x =
      if x.ticks hz > 0 then
        (((x.ticks hz).toNat % 60000) :: delayLoop ((x.ticks hz).toNat / 60000), .ok)
      else ([], .noTaskDelay) := by
  obtain ⟨hm, hs, hms⟩ := hx
  unfold osDelayTaskHMSM
  rw [if_neg (by simpa using hm), if_neg (by simpa using hs), if_neg (by simpa using hms)]
  have h60000 : (60000 : UInt32).toNat = 60000 := rfl
  have hlt := Nat.mod_lt (x.ticks hz).toNat (by decide : 0 < 60000)
  simp only [UInt32.toNat_toUInt16, UInt32.toNat_mod, UInt32.toNat_div, h60000]
  rw [Nat.mod_eq_of_lt (lt_trans hlt (by decide))]

theorem osDelayTaskHMSM_outOfRange {hz : UInt32} {x : Hmsm} (hx : ¬ x.InRange) :
    osDelayTaskHMSM hz x = ([], .invalidTime) := by
  unfold osDelayTaskHMSM
  split
  · rfl
  · split
    · rfl
    · split
      · rfl
      · refine absurd ⟨?_, ?_, ?_⟩ hx <;> simp_all

/-- The delays add up to the computed total. -/
theorem sum_delays {hz : UInt32} {x : Hmsm} (hx : x.InRange) :
    (osDelayTaskHMSM hz x).1.sum = (x.ticks hz).toNat := by
  rw [osDelayTaskHMSM_inRange hx]
  split
  · rw [List.sum_cons, sum_delayLoop]
    omega
  · rename_i h
    have h0 : x.ticks hz = 0 := by simpa using h
    rw [h0]
    rfl

/-- Each delay is one that `OSDelayTask` can make. -/
theorem delays_le (cfg : Config) {hz : UInt32} {x : Hmsm} {d : Nat}
    (hd : d ∈ (osDelayTaskHMSM hz x).1) : d ≤ cfg.tickCountOverflow := by
  have hle : 60000 ≤ cfg.tickCountOverflow := by
    obtain ⟨-, -, hspec, -⟩ := cfg.tickCountOverflow_spec
    rcases cfg.tickBits_cases with h | h <;> rw [h] at hspec <;> omega
  by_cases hx : x.InRange
  · rw [osDelayTaskHMSM_inRange hx] at hd
    split at hd
    · rcases List.mem_cons.mp hd with rfl | hd
      · omega
      · rw [eq_of_mem_delayLoop hd]
        exact hle
    · cases hd
  · rw [osDelayTaskHMSM_outOfRange hx] at hd
    cases hd

/-! ### How long they last -/

/-- Nobody uninstalls task `h`, and it is not ready. -/
def Asleep (h : Nat) (s : Kernel cfg) (a : Action) : Prop :=
  Disciplined NestedRelease s a ∧ NotUninstalling h s a ∧ s.prio h ∉ s.ready

instance (h : Nat) (s : Kernel cfg) (a : Action) : Decidable (Asleep h s a) :=
  inferInstanceAs (Decidable (_ ∧ _ ∧ _))

/-- Task `h` asks for a delay of `d` in state `s` and is outside it in state `t`: the call
returns at once, or the task continues in the tick that makes it ready. -/
inductive PromptDelay (h d : Nat) (s : Kernel cfg) : Trace → Kernel cfg → Prop
  | none {t : Kernel cfg}
      (hcall : s.step (.call (.delayTask d)) =
        some (t, .returned h (.delayTask d) RetCode.noTaskDelay.ret)) :
      PromptDelay h d s
        [(.call (.delayTask d), .returned h (.delayTask d) RetCode.noTaskDelay.ret)] t
  | waited {tr tr' : Trace} {t u v w x : Kernel cfg} {o : Obs}
      (hcall : s.step (.call (.delayTask d)) = some (t, .suspended h (.delayTask d)))
      (hsleep : Run Kernel.step (Asleep h) t tr u) (hnot : u.prio h ∉ u.ready)
      (htick : u.step .tick = some (v, o)) (hready : v.prio h ∈ v.ready)
      (hrun : Run Kernel.step (Disciplined NestedRelease) v tr' w) (hsame : ticks tr' = 0)
      (hresume : w.step .resume = some (x, .returned h (.delayTask d) RetCode.ok.ret)) :
      PromptDelay h d s
        ([(.call (.delayTask d), .suspended h (.delayTask d))] ++ tr ++ [(.tick, o)] ++ tr' ++
          [(.resume, .returned h (.delayTask d) RetCode.ok.ret)]) x

/-- Task `h` asks for the delays `ds` one after the other, each in the tick in which it is
outside the one before it. -/
inductive PromptDelays (h : Nat) : List Nat → Kernel cfg → Trace → Kernel cfg → Prop
  | nil (s : Kernel cfg) : PromptDelays h [] s [] s
  | cons {d : Nat} {ds : List Nat} {s t u v : Kernel cfg} {tr tr' tr'' : Trace}
      (hdelay : PromptDelay h d s tr t) (hrun : Run Kernel.step (Disciplined NestedRelease) t tr' u)
      (hsame : ticks tr' = 0) (hrest : PromptDelays h ds u tr'' v) :
      PromptDelays h (d :: ds) s (tr ++ tr' ++ tr'') v

theorem ticks_append (tr tr' : Trace) : ticks (tr ++ tr') = ticks tr + ticks tr' :=
  List.countP_append

/-- No post can select a task that delays, so `wake_up_exact` holds of it whatever posts
there are. -/
theorem Asleep.run {h d : Nat} {tr : Trace} (hk : KernelInv s) (hi : s.Installed h)
    (hf : s.frame h = .delay d) (hr : Run Kernel.step (Asleep h) s tr t) :
    Run Kernel.step (fun v a => Disciplined NestedRelease v a ∧ NotUninstalling h v a ∧
      NotSelecting h v a) s tr t := by
  refine (hr.strengthen (P := fun v => KernelInv v ∧ v.Installed h ∧ v.frame h = .delay d)
    ⟨hk, hi, hf⟩ ?_ ?_).1
  · intro v a ⟨_, _, hfv⟩ ⟨hd, hun, _⟩
    refine ⟨hd, hun, ?_⟩
    cases a with
    | call c =>
        intro ev hev hacc hpend
        rw [hfv] at hpend
        cases hpend
    | _ => trivial
  · intro v a w o ⟨hkv, hiv, hfv⟩ hok ⟨hd, hun, hnot⟩ hstep
    have hm := hkv.move hd hstep
    refine ⟨move_inv hkv hm, ?_⟩
    by_cases htick : a = .tick
    · subst htick
      cases hm with
      | tick hnest ht =>
          obtain ⟨hinst, hframe, -⟩ := tick_frame hkv ht
          exact ⟨(hinst h).mpr hiv, hframe ▸ hfv⟩
    · -- a task that is not ready does not run
      have hne : h ≠ v.currentTask := by
        intro heq
        have hrun := hkv.run (heq ▸ hiv.pos)
        exact hnot (heq ▸ hrun.2)
      have hkeep := move_keeps hm hiv (by simp [hfv]) (.inr (.inl hun)) (fun _ => hne) htick
      exact ⟨hkeep.installed, hkeep.frame.trans hfv⟩

/-- A delay is a run. -/
theorem PromptDelay.run {h d : Nat} {tr : Trace} (hp : PromptDelay h d s tr t) :
    Run Kernel.step (Disciplined NestedRelease) s tr t := by
  have hcallOk : Disciplined NestedRelease s (.call (.delayTask d)) := trivial
  have hone : ∀ {u o}, s.step (.call (.delayTask d)) = some (u, o) →
      Run Kernel.step (Disciplined NestedRelease) s ([] ++ [(.call (.delayTask d), o)]) u :=
    fun hcall => .snoc .nil hcallOk hcall
  cases hp with
  | none hcall => exact hone hcall
  | waited hcall hsleep hnot htick hready hrun hsame hresume =>
      rename_i tr tr' t u v w o
      have htickOk : Disciplined NestedRelease u .tick := trivial
      have hresumeOk : Disciplined NestedRelease w .resume := trivial
      have hslept := (hone hcall).trans (hsleep.mono fun _ _ ha => ha.1)
      exact ((hslept.snoc htickOk htick).trans hrun).snoc hresumeOk hresume

/-- The caller of a call that suspends is the running task, and its frame says so. -/
theorem delay_suspended (hk : KernelInv s) {h d : Nat}
    (hcall : s.step (.call (.delayTask d)) = some (t, .suspended h (.delayTask d))) :
    h = s.currentTask ∧ 1 ≤ d ∧ t.Installed h ∧ t.frame h = .delay d := by
  obtain ⟨-, u, oc, hex, ho⟩ := step_call_inv hcall
  rcases ho with ⟨r, -, -, h⟩ | ⟨task, -, rfl, ⟨r, -, h⟩ | ⟨rfl, ho⟩⟩
  · cases h
  · cases h
  · simp only [exec, osDelayTask] at hex
    split at hex
    · cases hex
    · rename_i hnest
      split at hex
      · cases hex
      · rename_i hcur
        split at hex
        · cases hex
        · rename_i hd
          cases hex
          obtain rfl : h = s.currentTask := by
            injection ho with ho
            exact ho.trans (if_pos (by omega))
          refine ⟨rfl, by omega, ?_, Function.update_self _ _ _⟩
          exact (installed_congr rfl _).mpr (hk.run hcur).1

/-- What `wake_up_exact` says of a delay. -/
theorem Asleep.wake_up {h d : Nat} {tr₀ tr : Trace}
    (hr : RunFromInit (Disciplined NestedRelease) tr₀ s) (hle : d ≤ cfg.tickCountOverflow)
    (hcall : s.step (.call (.delayTask d)) = some (t, .suspended h (.delayTask d)))
    (hsleep : Run Kernel.step (Asleep h) t tr u) :
    (ticks tr < d → u.prio h = s.prio h ∧ s.prio h ∉ u.ready) ∧
      (ticks tr + 1 = d → ∀ v o, u.step .tick = some (v, o) →
        v.prio h = s.prio h ∧ s.prio h ∈ v.ready) := by
  have hk := run_inv hr
  have hd : Disciplined NestedRelease s (.call (.delayTask d)) := trivial
  obtain ⟨rfl, h1, hi, hf⟩ := delay_suspended hk hcall
  have hkt : KernelInv t := step_inv hk hd hcall
  exact wake_up_exact hr (.inl rfl) h1 hle hd hcall (Asleep.run hkt hi hf hsleep)

/-- While the task sleeps, fewer ticks come than it asked for. -/
theorem Asleep.ticks_lt {h d : Nat} {tr₀ tr : Trace}
    (hr : RunFromInit (Disciplined NestedRelease) tr₀ s) (hle : d ≤ cfg.tickCountOverflow)
    (hcall : s.step (.call (.delayTask d)) = some (t, .suspended h (.delayTask d)))
    (hsleep : Run Kernel.step (Asleep h) t tr u) (hnot : u.prio h ∉ u.ready) : ticks tr < d := by
  have h1 := (delay_suspended (run_inv hr) hcall).2.1
  have hbound : ticks tr < d ∨ u.prio h ∈ u.ready := by
    refine hsleep.induction_on (P := fun tr u => ticks tr < d ∨ u.prio h ∈ u.ready) (.inl h1) ?_
    intro tr v a w o hrun hlt ⟨_, _, hnot⟩ hstep
    have hlt := hlt.resolve_right hnot
    rw [ticks_snoc]
    by_cases htick : a = .tick
    · subst htick
      rw [if_pos rfl]
      by_cases hlast : ticks tr + 1 = d
      · -- the last tick makes the task ready
        obtain ⟨hprio, hready⟩ := (Asleep.wake_up hr hle hcall hrun).2 hlast w o hstep
        exact .inr (hprio ▸ hready)
      · exact .inl (by omega)
    · rw [if_neg htick]
      exact .inl hlt
  exact hbound.resolve_right hnot

/-- **One delay.** A task that continues in the tick that makes it ready has been delayed
for exactly the ticks it asked for. -/
theorem PromptDelay.ticks_eq {h d : Nat} {tr₀ tr : Trace}
    (hr : RunFromInit (Disciplined NestedRelease) tr₀ s) (hle : d ≤ cfg.tickCountOverflow)
    (hp : PromptDelay h d s tr t) : ticks tr = d := by
  cases hp with
  | none hcall =>
      -- only a delay of no ticks ends at once
      obtain ⟨-, u, oc, hex, ho⟩ := step_call_inv hcall
      have hret : oc = .returned RetCode.noTaskDelay.ret ∨ oc = .switched RetCode.noTaskDelay.ret := by
        rcases ho with ⟨r, rfl, -, h⟩ | ⟨task, -, -, ⟨r, rfl, h⟩ | ⟨-, h⟩⟩
        · cases h
          exact .inl rfl
        · cases h
          exact .inr rfl
        · cases h
      simp only [exec, osDelayTask] at hex
      repeat' split at hex
      all_goals cases hex
      all_goals simp_all
      rfl
  | waited hcall hsleep hnot htick hready hrun hsame hresume =>
      rename_i tr tr' t u v w o
      have hlt := Asleep.ticks_lt hr hle hcall hsleep hnot
      have hlast : ticks tr + 1 = d := by
        by_contra hne
        have htickOk : Asleep h u .tick := ⟨trivial, trivial, hnot⟩
        have hlater := Asleep.wake_up hr hle hcall (hsleep.snoc htickOk htick)
        have hcount : ticks (tr ++ [(Action.tick, o)]) < d := by
          rw [ticks_snoc, if_pos rfl]
          omega
        obtain ⟨hprio, hno⟩ := hlater.1 hcount
        exact hno (hprio ▸ hready)
      have hone : ∀ o, ticks [(Action.tick, o)] = 1 := fun _ => rfl
      have hcallTicks : ∀ c o, ticks [(Action.call c, o)] = 0 := fun _ _ => rfl
      have hresumeTicks : ∀ o, ticks [(Action.resume, o)] = 0 := fun _ => rfl
      simp only [ticks_append, hone, hcallTicks, hresumeTicks, hsame]
      omega

/-- **Delays add up.** -/
theorem PromptDelays.ticks_eq {h : Nat} {ds : List Nat} {tr₀ tr : Trace}
    (hr : RunFromInit (Disciplined NestedRelease) tr₀ s) (hle : ∀ d ∈ ds, d ≤ cfg.tickCountOverflow)
    (hp : PromptDelays h ds s tr t) : ticks tr = ds.sum := by
  induction hp generalizing tr₀ with
  | nil => rfl
  | cons hdelay hrun hsame hrest ih =>
      have hone := hdelay.ticks_eq hr (hle _ (by simp))
      have hrest := ih ((hr.trans hdelay.run).trans hrun) fun d hd => hle d (by simp [hd])
      rw [ticks_append, ticks_append, List.sum_cons, hone, hsame, hrest]
      omega

/-! ### The whole delay -/

/-- `OSDelayTaskHMSM` waits the requested time. -/
structure HmsmWaits (cfg : Config) (hz : UInt32) (x : Hmsm) : Prop where
  invalid : (osDelayTaskHMSM hz x).2 = .invalidTime ↔ ¬ x.InRange
  noDelay : (osDelayTaskHMSM hz x).2 = .noTaskDelay ↔ x.InRange ∧ x.total hz = 0
  refused : (osDelayTaskHMSM hz x).2 ≠ .ok → (osDelayTaskHMSM hz x).1 = []
  within : ∀ d ∈ (osDelayTaskHMSM hz x).1, d ≤ cfg.tickCountOverflow
  sum : x.InRange → (osDelayTaskHMSM hz x).1.sum = x.total hz
  prompt : x.InRange → ∀ {h : Nat} {tr₀ tr : Trace} {s t : Kernel cfg},
    RunFromInit (Disciplined NestedRelease) tr₀ s →
    PromptDelays h (osDelayTaskHMSM hz x).1 s tr t → ticks tr = x.total hz

/-- It does if the total is computed right. -/
theorem HmsmWaits.of_ticks (cfg : Config) {hz : UInt32} {x : Hmsm}
    (hticks : x.InRange → (x.ticks hz).toNat = x.total hz) : HmsmWaits cfg hz x := by
  have hzero : x.InRange → (x.ticks hz > 0 ↔ x.total hz ≠ 0) := by
    intro hx
    rw [← hticks hx, gt_iff_lt, UInt32.lt_iff_toNat_lt]
    exact Nat.pos_iff_ne_zero
  by_cases hx : x.InRange
  · have hcall := @osDelayTaskHMSM_inRange hz x hx
    constructor
    case invalid => rw [hcall]; split <;> simp [hx]
    case noDelay => rw [hcall]; split <;> simp_all
    case refused => rw [hcall]; split <;> simp
    case within => exact fun d hd => delays_le cfg hd
    case sum => exact fun _ => (sum_delays hx).trans (hticks hx)
    case prompt =>
      intro _ h tr₀ tr s t hr hp
      rw [hp.ticks_eq hr fun d hd => delays_le cfg hd, sum_delays hx, hticks hx]
  · have hcall := @osDelayTaskHMSM_outOfRange hz x hx
    constructor
    case within => exact fun d hd => delays_le cfg hd
    case sum => exact fun h => absurd h hx
    case prompt => exact fun h => absurd h hx
    all_goals simp [hcall, hx]

/-- A rate at which the longest time fits 32 bits has no overflow, so at such a rate, 1000
among them, every time is waited for. -/
theorem HmsmWaits.of_rate (cfg : Config) {hz : UInt32}
    (hfits : Hmsm.total hz ⟨255, 59, 59, 999⟩ < 2 ^ 32) (x : Hmsm) : HmsmWaits cfg hz x := by
  refine .of_ticks cfg fun hx => ?_
  have hh : x.hours.toNat ≤ 255 := by have := x.hours.toNat_lt; omega
  have hm : x.minutes.toNat ≤ 59 := hx.1
  have hs : x.seconds.toNat ≤ 59 := hx.2.1
  have hms : x.miliseconds.toNat ≤ 999 := hx.2.2
  have h1 := Nat.mul_le_mul_right (3600 * hz.toNat) hh
  have h2 := Nat.mul_le_mul_right (60 * hz.toNat) hm
  have h3 := Nat.mul_le_mul_right hz.toNat hs
  have h4 := Nat.mul_le_mul_right hz.toNat hms
  have h5 := Nat.div_le_div_right (c := 1000) h4
  have hmax : Hmsm.total hz ⟨255, 59, 59, 999⟩ = 255 * 3600 * hz.toNat + 59 * 60 * hz.toNat +
    59 * hz.toNat + 999 * hz.toNat / 1000 := rfl
  rw [hmax] at hfits
  refine (Hmsm.toNat_ticks_eq_iff ?_).mpr (by omega)
  rw [Hmsm.total, Nat.mul_assoc, Nat.mul_assoc]
  omega

/-- Task 2 is delayed for two milliseconds, with one tick between the call and the tick
that wakes it. -/
example :
    let s := Run.after Kernel.step (Kernel.init Config.exampleConfig) twoTasksScript
    ∃ tr t, PromptDelays 2 (osDelayTaskHMSM 1000 ⟨0, 0, 0, 2⟩).1 s tr t ∧ ticks tr = 2 := by
  intro s
  let t := Run.after Kernel.step s [.call (.delayTask 2)]
  let u := Run.after Kernel.step t [.intEnter, .tick, .intExit, .intEnter]
  let v := Run.after Kernel.step u [.tick]
  let w := Run.after Kernel.step v [.intExit]
  have hcall : s.step (.call (.delayTask 2)) = some (t, .suspended 2 (.delayTask 2)) :=
    Run.step_of_traceOf (by decide +kernel)
  have htick : u.step .tick = some (v, .silent) := Run.step_of_traceOf (by decide +kernel)
  have hresume : w.step .resume = some (_, .returned 2 (.delayTask 2) RetCode.ok.ret) :=
    Run.step_of_traceOf (by decide +kernel)
  have hexit : Run Kernel.step (Disciplined NestedRelease) v (Run.traceOf Kernel.step v [.intExit]) w :=
    Run.of_admits (by decide +kernel)
  have hdelay := PromptDelay.waited hcall (Run.of_admits (by decide +kernel)) (by decide +kernel)
    htick (by decide +kernel) hexit (by decide +kernel) hresume
  exact ⟨_, _, .cons hdelay .nil rfl (.nil _), by decide +kernel⟩

end Brtos
