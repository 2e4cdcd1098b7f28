import Mathlib.Order.Lattice

/-!
# Brtos.Lib.Ceilings

**Immediate priority ceilings**, for any tasks and any linear order of priorities.

A task has a base priority, and a current one that is raised while it holds resources.
Two facts carry the protocol. Holders are *nested*: one that is better placed than another
began its own critical sections after it had preempted that one, so its base priority is
already above the other's current priority (`Nested`). And the running task is above
every other holder by its base priority alone (`Above`).

What the running task does to itself keeps both (`Nested.step`), choosing the best task
establishes the second (`Nested.above`), and what the protocol is for follows: a resource
whose ceiling is above the running task's base priority is free or its own (`Above.free`),
and at most one task holds resources across a level (`Nested.unique`).
-/

/-- Tasks, their priorities and who holds a resource. -/
structure Ceilings (α P : Type*) where
  base : α → P
  prio : α → P
  Holds : α → Prop

namespace Ceilings

variable {α P : Type*} [LinearOrder P] {c d : Ceilings α P} {a b r : α} {k : P}

/-- A better placed holder began after it had preempted the other. -/
def Nested (c : Ceilings α P) : Prop :=
  ∀ a b, c.Holds a → c.Holds b → c.prio a < c.prio b → c.prio a < c.base b

/-- By its base priority alone `r` is above every other holder. -/
def Above (c : Ceilings α P) (r : α) : Prop :=
  ∀ a, c.Holds a → a ≠ r → c.prio a < c.base r

/-- **Choice.** The best task is above the holders by its base priority. -/
theorem Nested.above (hn : c.Nested) (hbest : ∀ a, c.Holds a → a ≠ r → c.prio a < c.prio r)
    (hplain : ¬ c.Holds r → c.prio r = c.base r) : c.Above r := by
  intro a ha hne
  have hlt := hbest a ha hne
  by_cases hr : c.Holds r
  · exact hn a r ha hr hlt
  · exact hplain hr ▸ hlt

/-- **Step.** The running task takes or gives back resources and moves between its base
priority and their ceilings; of the others no one becomes a holder. -/
theorem Nested.step (hn : c.Nested) (hr : c.Above r)
    (hother : ∀ a, a ≠ r → d.Holds a → c.Holds a ∧ d.prio a = c.prio a ∧ d.base a = c.base a)
    (hbase : d.base r = c.base r) (hle : d.Holds r → d.base r ≤ d.prio r) :
    d.Nested ∧ d.Above r := by
  have hr' : d.Above r := by
    intro a ha hne
    obtain ⟨hc, hp, -⟩ := hother a hne ha
    rw [hp, hbase]
    exact hr a hc hne
  refine ⟨?_, hr'⟩
  intro a b ha hb hlt
  by_cases hbr : b = r
  · subst hbr
    exact hr' a ha fun he => lt_irrefl _ (he ▸ hlt)
  · by_cases har : a = r
    · -- the running task is above `b`, whatever it holds
      subst har
      have hba := (hr' b hb hbr).trans_le (hle ha)
      exact absurd (hlt.trans hba) (lt_irrefl _)
    · obtain ⟨ha', hpa, -⟩ := hother a har ha
      obtain ⟨hb', hpb, hbb⟩ := hother b hbr hb
      rw [hpa, hpb] at hlt
      rw [hpa, hbb]
      exact hn a b ha' hb' hlt

/-- **No waiting.** A holder at or above a ceiling that is above the running task's base
priority is the running task. -/
theorem Above.free (hr : c.Above r) (ha : c.Holds a) (hk : k ≤ c.prio a) (hb : c.base r < k) :
    a = r := by
  by_contra hne
  exact absurd ((hr a ha hne).trans (hb.trans_le hk)) (lt_irrefl _)

/-- **One inversion.** At most one holder is lifted from below a level to it or above. -/
theorem Nested.unique (hn : c.Nested) (hinj : ∀ a b, c.Holds a → c.Holds b →
      c.prio a = c.prio b → a = b)
    (ha : c.Holds a) (hab : c.base a < k) (hak : k ≤ c.prio a)
    (hb : c.Holds b) (hbb : c.base b < k) (hbk : k ≤ c.prio b) : a = b := by
  rcases lt_trichotomy (c.prio a) (c.prio b) with hlt | heq | hgt
  · exact absurd ((hn a b ha hb hlt).trans (hbb.trans_le hak)) (lt_irrefl _)
  · exact hinj a b ha hb heq
  · exact absurd ((hn b a hb ha hgt).trans (hab.trans_le hbk)) (lt_irrefl _)

end Ceilings
