import Brtos.State

/-!
# Brtos.Scheduler

`SAScheduler`, the search for the highest set priority in a word, in its two
implementations, and `OSSchedule` over it.

The comparison tree is cut down by the preprocessor for the narrower widths:
`saTree8` is the innermost part, `saTree16` puts the tree for priorities 8 to 15
in front of it and `saTree32` the tree for 16 to 31. The optimised version is
`31 - CLZ` in a `uint8_t`. The two agree on every non-zero word
(`saScheduler_eq_log2`); on the zero word the tree returns 0 and the optimised
one 255, an index past `PriorityVector`.
-/

namespace Brtos

open Bits

/-- The part of the tree every width has. -/
def saTree8 (readyList : Nat) : Nat :=
  if readyList > 0x0F then
    if readyList > 0x3F then
      if readyList > 0x7F then 7 else 6
    else
      if readyList > 0x1F then 5 else 4
  else
    if readyList > 0x03 then
      if readyList > 0x07 then 3 else 2
    else
      if readyList > 0x1 then 1 else 0

/-- The tree for `NUMBER_OF_PRIORITIES > 8`. -/
def saTree16 (readyList : Nat) : Nat :=
  if readyList > 0xFF then
    if readyList > 0xFFF then
      if readyList > 0x3FFF then
        if readyList > 0x7FFF then 15 else 14
      else
        if readyList > 0x1FFF then 13 else 12
    else
      if readyList > 0x3FF then
        if readyList > 0x7FF then 11 else 10
      else
        if readyList > 0x1FF then 9 else 8
  else saTree8 readyList

/-- The tree for `NUMBER_OF_PRIORITIES > 16`. -/
def saTree32 (readyList : Nat) : Nat :=
  if readyList > 0xFFFF then
    if readyList > 0xFFFFFF then
      if readyList > 0xFFFFFFF then
        if readyList > 0x3FFFFFFF then
          if readyList > 0x7FFFFFFF then 31 else 30
        else
          if readyList > 0x1FFFFFFF then 29 else 28
      else
        if readyList > 0x3FFFFFF then
          if readyList > 0x7FFFFFF then 27 else 26
        else
          if readyList > 0x1FFFFFF then 25 else 24
    else
      if readyList > 0xFFFFF then
        if readyList > 0x3FFFFF then
          if readyList > 0x7FFFFF then 23 else 22
        else
          if readyList > 0x1FFFFF then 21 else 20
      else
        if readyList > 0x3FFFF then
          if readyList > 0x7FFFF then 19 else 18
        else
          if readyList > 0x1FFFF then 17 else 16
  else saTree16 readyList

/-- `CLZ` on a 32-bit register: 32 for the zero word. -/
def clz32 (n : Nat) : Nat := if n = 0 then 32 else 31 - Nat.log2 n

/-- `Optimezed_Scheduler`: `RSB priority, clz, 31`, kept in a `uint8_t`. -/
def optimizedScheduler (readyList : Nat) : Nat := (256 + 31 - clz32 readyList) % 256

/-- `SAScheduler`. -/
def saScheduler {cfg : Config} (x : BitVec cfg.prioBits) : Nat :=
  if cfg.optimizedScheduler then optimizedScheduler x.toNat
  else
    match cfg.priorities with
    | .w8 => saTree8 x.toNat
    | .w16 => saTree16 x.toNat
    | .w32 => saTree32 x.toNat

/-- `OSSchedule`. Reading `PriorityVector` past its end, which the optimised
scheduler does when nothing is eligible, has no defined result. -/
def Kernel.osSchedule {cfg : Config} (s : Kernel cfg) : Option Nat :=
  let priority := saScheduler (s.osReadyList &&& s.osBlockedList)
  if priority ≤ cfg.configMaxTaskPriority then some (s.priorityVector priority) else none

/-! ### The tree finds the most significant bit -/

theorem saTree8_eq_log2 {n : Nat} (h0 : n ≠ 0) (h : n < 2 ^ 8) : saTree8 n = Nat.log2 n := by
  unfold saTree8
  repeat' split
  all_goals
    rw [eq_comm, Nat.log2_eq_iff h0]
    omega

theorem saTree16_eq_log2 {n : Nat} (h0 : n ≠ 0) (h : n < 2 ^ 16) :
    saTree16 n = Nat.log2 n := by
  unfold saTree16
  split
  · repeat' split
    all_goals
      rw [eq_comm, Nat.log2_eq_iff h0]
      omega
  · exact saTree8_eq_log2 h0 (by omega)

theorem saTree32_eq_log2 {n : Nat} (h0 : n ≠ 0) (h : n < 2 ^ 32) :
    saTree32 n = Nat.log2 n := by
  unfold saTree32
  split
  · repeat' split
    all_goals
      rw [eq_comm, Nat.log2_eq_iff h0]
      omega
  · exact saTree16_eq_log2 h0 (by omega)

theorem optimizedScheduler_eq_log2 {n : Nat} (h0 : n ≠ 0) (h : n < 2 ^ 32) :
    optimizedScheduler n = Nat.log2 n := by
  have hl : Nat.log2 n < 32 := (Nat.log2_lt h0).mpr h
  unfold optimizedScheduler clz32
  rw [if_neg h0]
  omega

variable {cfg : Config}

/-- Both schedulers return the index of the most significant set bit. -/
theorem saScheduler_eq_log2 {x : BitVec cfg.prioBits} (hx : x ≠ 0) :
    saScheduler x = Nat.log2 x.toNat := by
  have h0 : x.toNat ≠ 0 := fun h => hx (BitVec.eq_of_toNat_eq (by simpa using h))
  have hlt : x.toNat < 2 ^ cfg.priorities.bits := x.isLt
  unfold saScheduler
  split
  · refine optimizedScheduler_eq_log2 h0 (lt_of_lt_of_le hlt ?_)
    exact Nat.pow_le_pow_right (by decide) cfg.prioBits_le
  · cases hp : cfg.priorities with
    | w8 => rw [hp] at hlt; exact saTree8_eq_log2 h0 hlt
    | w16 => rw [hp] at hlt; exact saTree16_eq_log2 h0 hlt
    | w32 => rw [hp] at hlt; exact saTree32_eq_log2 h0 hlt

theorem saScheduler_mem {x : BitVec cfg.prioBits} (hx : (bits x).Nonempty) :
    saScheduler x ∈ bits x := by
  have h0 : x ≠ 0 := fun h => by simp [h] at hx
  rw [saScheduler_eq_log2 h0]
  exact log2_mem_bits h0

theorem le_saScheduler {x : BitVec cfg.prioBits} {p : Nat} (hp : p ∈ bits x) :
    p ≤ saScheduler x := by
  have h0 : x ≠ 0 := fun h => by simp [h] at hp
  rw [saScheduler_eq_log2 h0]
  exact le_log2_of_mem_bits hp

/-- On the empty set the comparison tree answers 0 and the optimised scheduler
an index outside the table. -/
theorem saScheduler_zero :
    saScheduler (0 : BitVec cfg.prioBits) = if cfg.optimizedScheduler then 255 else 0 := by
  unfold saScheduler
  split
  · rfl
  · cases cfg.priorities <;> rfl

/-! ### `OSSchedule` -/

/-- The priority `OSSchedule` looks up, when some task is eligible: the highest
priority that is both ready and not blocked. -/
def Kernel.IsTop (s : Kernel cfg) (p : Nat) : Prop :=
  p ∈ s.ready ∧ p ∈ s.unblocked ∧ ∀ q ∈ s.ready, q ∈ s.unblocked → q ≤ p

theorem Kernel.isTop_saScheduler {s : Kernel cfg} (h : (s.ready ∩ s.unblocked).Nonempty) :
    s.IsTop (saScheduler (s.osReadyList &&& s.osBlockedList)) := by
  have hb : (bits (s.osReadyList &&& s.osBlockedList)).Nonempty := by rwa [bits_and]
  have hm := saScheduler_mem hb
  rw [bits_and, Finset.mem_inter] at hm
  refine ⟨hm.1, hm.2, fun q hq hq' => le_saScheduler ?_⟩
  rw [bits_and, Finset.mem_inter]
  exact ⟨hq, hq'⟩

theorem Kernel.IsTop.unique {s : Kernel cfg} {p q : Nat} (hp : s.IsTop p) (hq : s.IsTop q) :
    p = q :=
  le_antisymm (hq.2.2 p hp.1 hp.2.1) (hp.2.2 q hq.1 hq.2.1)

/-- `OSSchedule` returns the `PriorityVector` entry of the top eligible priority. -/
theorem Kernel.osSchedule_of_isTop {s : Kernel cfg} {p : Nat} (h : s.IsTop p) :
    s.osSchedule = some (s.priorityVector p) := by
  have hne : (s.ready ∩ s.unblocked).Nonempty := ⟨p, Finset.mem_inter.mpr ⟨h.1, h.2.1⟩⟩
  have hp := (Kernel.isTop_saScheduler hne).unique h
  unfold Kernel.osSchedule
  rw [hp, if_pos (cfg.lt_prioBits_iff.mp (lt_of_mem_bits h.1))]

/-- What `OSSchedule` can answer: the entry of the top eligible priority, or, when
nothing is eligible, the comparison tree's entry 0. -/
theorem Kernel.osSchedule_cases {s : Kernel cfg} {h : Nat} (hs : s.osSchedule = some h) :
    (∃ p, s.IsTop p ∧ s.priorityVector p = h) ∨
      (s.ready ∩ s.unblocked = ∅ ∧ s.priorityVector 0 = h) := by
  by_cases hne : (s.ready ∩ s.unblocked).Nonempty
  · have ht := Kernel.isTop_saScheduler hne
    rw [Kernel.osSchedule_of_isTop ht] at hs
    exact Or.inl ⟨_, ht, Option.some.inj hs⟩
  · have he := Finset.not_nonempty_iff_eq_empty.mp hne
    have hz : s.osReadyList &&& s.osBlockedList = 0 := by
      rw [← bits_and] at he
      exact bits_eq_empty.mp he
    refine Or.inr ⟨he, ?_⟩
    unfold Kernel.osSchedule at hs
    rw [hz, saScheduler_zero] at hs
    cases ho : cfg.optimizedScheduler with
    | true =>
        have hmax : ¬ 255 ≤ cfg.configMaxTaskPriority := by
          have := cfg.prioBits_le
          unfold Config.configMaxTaskPriority
          omega
        simp [ho, hmax] at hs
    | false => simpa [ho] using hs

end Brtos
