import Brtos.Properties.Idle
import Mathlib.Order.Bounds.Basic

/-!
# Brtos.Properties.Selection

**The scheduler finds the highest priority.** `SAScheduler` compares the word with thresholds,
or counts its leading zeros; in every build both return the place of the highest bit of a word
that is not empty. So `OSSchedule` returns the entry of `PriorityVector` for the highest
priority that is both ready and not blocked.

`clz32`, the instruction as `Brtos.Scheduler` writes it, is the number of leading zeros that
the bits of the register have (`clz32_eq`).
-/

namespace Brtos

open Bits Kernel

variable {cfg : Config}

/-- `CLZ` counts the zeros in front of the highest bit. -/
theorem clz32_eq (x : BitVec 32) : clz32 x.toNat = x.clz.toNat := by
  unfold clz32
  by_cases hx : x = 0
  · rw [if_pos (by simp [hx]), BitVec.clz_eq_iff_eq_zero.mpr hx]
    rfl
  · have h0 : x.toNat ≠ 0 := fun h => hx (BitVec.eq_of_toNat_eq h)
    have hlow := BitVec.two_pow_sub_clz_le_toNat_of_ne_zero (by decide) hx
    have hhigh := BitVec.toNat_lt_two_pow_sub_clz (x := x)
    have hlt : x.clz.toNat < 32 := by
      have hc := BitVec.lt_def.mp (BitVec.clz_lt_iff_ne_zero.mpr hx)
      simpa using hc
    have hlog : Nat.log2 x.toNat = 32 - 1 - x.clz.toNat := by
      rw [Nat.log2_eq_iff h0]
      exact ⟨hlow, by rwa [show 32 - 1 - x.clz.toNat + 1 = 32 - x.clz.toNat by omega]⟩
    rw [if_neg h0, hlog]
    omega

/-- The optimised scheduler is `31 - CLZ` of the register that holds the word. -/
theorem optimizedScheduler_eq_clz {x : BitVec cfg.prioBits} (hx : x ≠ 0) :
    optimizedScheduler x.toNat = 31 - (x.setWidth 32).clz.toNat := by
  have hwide : (x.setWidth 32).toNat = x.toNat := by
    have hlt : x.toNat < 2 ^ cfg.prioBits := x.isLt
    have hle : 2 ^ cfg.prioBits ≤ 2 ^ 32 := Nat.pow_le_pow_right (by decide) cfg.prioBits_le
    rw [BitVec.toNat_setWidth, Nat.mod_eq_of_lt (hlt.trans_le hle)]
  have h0 : x.toNat ≠ 0 := fun h => hx (BitVec.eq_of_toNat_eq (by simpa using h))
  have hle : clz32 x.toNat ≤ 31 := by
    unfold clz32
    rw [if_neg h0]
    omega
  rw [← clz32_eq, hwide, optimizedScheduler]
  omega

/-- The highest bit of a word. -/
theorem saScheduler_isGreatest {x : BitVec cfg.prioBits} (hx : x ≠ 0) :
    IsGreatest {p | x.getLsbD p = true} (saScheduler x) := by
  have hne : (bits x).Nonempty := Finset.nonempty_iff_ne_empty.mpr fun h => hx (bits_eq_empty.mp h)
  exact ⟨mem_bits.mp (saScheduler_mem hne), fun p hp => le_saScheduler (mem_bits.mpr hp)⟩

/-- **Selection.** In every build, for every word that is not empty, the comparison tree
returns the place of its highest bit, the optimised scheduler and `31 - CLZ` return the same,
and `SAScheduler` is one of them; and whenever some priority is both ready and not blocked,
`OSSchedule` returns the entry of the highest one. -/
theorem scheduler_selects_highest (cfg : Config) :
    (∀ x : BitVec cfg.prioBits, x ≠ 0 →
      IsGreatest {p | x.getLsbD p = true} (cfg.comparisonTree x.toNat) ∧
        cfg.comparisonTree x.toNat = optimizedScheduler x.toNat ∧
        optimizedScheduler x.toNat = 31 - (x.setWidth 32).clz.toNat ∧
        saScheduler x = cfg.comparisonTree x.toNat) ∧
    ∀ s : Kernel cfg, s.osReadyList &&& s.osBlockedList ≠ 0 →
      ∃ p, IsGreatest {p | s.osReadyList.getLsbD p = true ∧ s.osBlockedList.getLsbD p = true} p ∧
        s.osSchedule = some (s.priorityVector p) := by
  constructor
  · intro x hx
    obtain ⟨htree, hclz⟩ := schedulers_agree hx
    refine ⟨?_, htree.trans hclz.symm, optimizedScheduler_eq_clz hx, htree.symm⟩
    rw [htree]
    exact saScheduler_isGreatest hx
  · intro s hs
    have hbits : ∀ p, (s.osReadyList &&& s.osBlockedList).getLsbD p = true ↔
        s.osReadyList.getLsbD p = true ∧ s.osBlockedList.getLsbD p = true := fun p => by
      rw [BitVec.getLsbD_and, Bool.and_eq_true]
    have htop := saScheduler_isGreatest hs
    simp only [hbits] at htop
    refine ⟨_, htop, osSchedule_of_isTop ⟨mem_bits.mpr htop.1.1, mem_bits.mpr htop.1.2, ?_⟩⟩
    exact fun q hq hq' => htop.2 ⟨mem_bits.mp hq, mem_bits.mp hq'⟩

/-- Priorities 5 and 9 are ready, and 9 is blocked. -/
def blockedBest : Kernel Config.exampleConfig :=
  { Kernel.init Config.exampleConfig with
    osReadyList := BitVec.ofNat _ 0x220
    osBlockedList := BitVec.ofNat _ 0x1ff
    priorityVector := fun p => p + 1 }

theorem scheduler_selects_highest_blocked :
    let x : BitVec Config.exampleConfig.prioBits := BitVec.ofNat _ 0x80000001
    IsGreatest {p | x.getLsbD p = true} 31 ∧
      ∃ p, IsGreatest {p | blockedBest.osReadyList.getLsbD p = true ∧
        blockedBest.osBlockedList.getLsbD p = true} p ∧
        blockedBest.osSchedule = some (blockedBest.priorityVector p) ∧
        blockedBest.osSchedule = some 6 := by
  intro x
  have hx : x ≠ 0 := fun h => absurd (congrArg BitVec.toNat h) (by decide)
  have hs : blockedBest.osReadyList &&& blockedBest.osBlockedList ≠ 0 :=
    fun h => absurd (congrArg BitVec.toNat h) (by decide)
  obtain ⟨p, hp, hsel⟩ := (scheduler_selects_highest Config.exampleConfig).2 blockedBest hs
  exact ⟨((scheduler_selects_highest Config.exampleConfig).1 x hx).1, p, hp, hsel, by decide⟩

end Brtos
