import Mathlib.Tactic.Common

/-!
# Brtos.Lib.Run

**Guarded runs** of a partial, deterministic, labelled step function.

A system is a function `step : σ → α → Option (σ × ο)`: from a state, an action
either is not possible (`none`) or leads to a state and shows an observation.
`Run step ok s tr t` is a finite execution from `s` to `t` in which every action
satisfies the guard `ok` in the state it is taken; `tr` is the trace of actions
and observations. The guard is how a *discipline* of the environment (what
callers promise) enters a theorem without changing the system.

Runs grow at their end, so the induction rules (`Run.invariant`,
`Run.induction_on`) hand out "one more step after a run", which is the shape a
step lemma has.
-/

variable {σ α ο : Type*}

/-- Executions of `step` whose actions all satisfy `ok`. -/
inductive Run (step : σ → α → Option (σ × ο)) (ok : σ → α → Prop) (s : σ) :
    List (α × ο) → σ → Prop
  | nil : Run step ok s [] s
  | snoc {tr : List (α × ο)} {t u : σ} {a : α} {o : ο} :
      Run step ok s tr t → ok t a → step t a = some (u, o) → Run step ok s (tr ++ [(a, o)]) u

namespace Run

variable {step : σ → α → Option (σ × ο)} {ok ok' : σ → α → Prop} {s t u : σ}
  {tr tr' : List (α × ο)}

/-- **Invariant rule.** What holds at the start and is kept by every guarded step
holds at the end of every run. -/
theorem invariant {P : σ → Prop} (h : Run step ok s tr t) (h0 : P s)
    (hstep : ∀ t a u o, P t → ok t a → step t a = some (u, o) → P u) : P t := by
  induction h with
  | nil => exact h0
  | snoc _ hok hs ih => exact hstep _ _ _ _ ih hok hs

/-- The invariant rule for a property of the state together with the trace so far. -/
theorem induction_on {P : List (α × ο) → σ → Prop} (h : Run step ok s tr t) (h0 : P [] s)
    (hstep : ∀ tr t a u o, Run step ok s tr t → P tr t → ok t a → step t a = some (u, o) →
      P (tr ++ [(a, o)]) u) : P tr t := by
  induction h with
  | nil => exact h0
  | snoc hr hok hs ih => exact hstep _ _ _ _ _ hr ih hok hs

/-- A run under a guard is a run under any weaker guard. -/
theorem mono (h : Run step ok s tr t) (hok : ∀ s a, ok s a → ok' s a) :
    Run step ok' s tr t := by
  induction h with
  | nil => exact .nil
  | snoc _ hk hs ih => exact .snoc ih (hok _ _ hk) hs

/-- A guard may be strengthened by what an invariant gives: if along the run the
invariant `P` makes `ok` imply `ok'`, the run satisfies `ok'`. -/
theorem strengthen {P : σ → Prop} (h : Run step ok s tr t) (h0 : P s)
    (hok : ∀ t a, P t → ok t a → ok' t a)
    (hstep : ∀ t a u o, P t → ok' t a → ok t a → step t a = some (u, o) → P u) :
    Run step ok' s tr t ∧ P t := by
  induction h with
  | nil => exact ⟨.nil, h0⟩
  | snoc _ hk hs ih =>
      have hk' := hok _ _ ih.2 hk
      exact ⟨.snoc ih.1 hk' hs, hstep _ _ _ _ ih.2 hk' hk hs⟩

/-- Two guards that say the same wherever the invariant `P` holds have the same runs. -/
theorem guard_iff {P : σ → Prop} (h0 : P s) (hok : ∀ t a, P t → (ok t a ↔ ok' t a))
    (hstep : ∀ t a u o, P t → step t a = some (u, o) → P u) :
    Run step ok s tr t ↔ Run step ok' s tr t :=
  ⟨fun h => (h.strengthen h0 (fun t a hp => (hok t a hp).mp)
      fun t a u o hp _ _ hs => hstep t a u o hp hs).1,
    fun h => (h.strengthen h0 (fun t a hp => (hok t a hp).mpr)
      fun t a u o hp _ _ hs => hstep t a u o hp hs).1⟩

/-- A value that every step changes, modulo `n`, by 1 or not at all, counts the actions that
change it. -/
theorem countP_mod {f : σ → Nat} {n : Nat} {p : α → Prop} [DecidablePred p] (hlt : f s < n)
    (hstep : ∀ t a u o, f t < n → step t a = some (u, o) → f u = (f t + if p a then 1 else 0) % n)
    (h : Run step ok s tr t) : f t = (f s + tr.countP fun x => p x.1) % n := by
  induction h with
  | nil => exact (Nat.mod_eq_of_lt hlt).symm
  | @snoc tr t u a o _ _ hs ih =>
      have hpos : 0 < n := by omega
      have hone : (tr ++ [(a, o)]).countP (fun x => p x.1) =
          tr.countP (fun x => p x.1) + if p a then 1 else 0 := by
        rw [List.countP_append]
        by_cases ha : p a <;> simp [ha]
      rw [hstep _ _ _ _ (ih ▸ Nat.mod_lt _ hpos) hs, hone, ih, Nat.mod_add_mod, Nat.add_assoc]

theorem trans (h₁ : Run step ok s tr t) (h₂ : Run step ok t tr' u) :
    Run step ok s (tr ++ tr') u := by
  induction h₂ with
  | nil => simpa using h₁
  | snoc _ hk hs ih =>
      rw [← List.append_assoc]
      exact .snoc ih hk hs

/-! ### Running a script

Concrete executions are computed, not derived: `after` and `traceOf` follow a
list of actions, and `admits` checks that every one of them is possible and
satisfies the guard. -/

/-- The state a script of actions leads to. -/
def after (step : σ → α → Option (σ × ο)) : σ → List α → σ
  | s, [] => s
  | s, a :: as =>
    match step s a with
    | some (t, _) => after step t as
    | none => s

/-- The trace a script of actions leaves. -/
def traceOf (step : σ → α → Option (σ × ο)) : σ → List α → List (α × ο)
  | _, [] => []
  | s, a :: as =>
    match step s a with
    | some (t, o) => (a, o) :: traceOf step t as
    | none => []

/-- Where every action is possible, the trace has all of the script. -/
theorem map_fst_traceOf (htotal : ∀ s a, ∃ q, step s a = some q) : ∀ (as : List α) (s : σ),
    (traceOf step s as).map Prod.fst = as
  | [], _ => rfl
  | a :: as, s => by
      obtain ⟨⟨t, o⟩, hs⟩ := htotal s a
      simp only [traceOf, hs, List.map_cons]
      rw [map_fst_traceOf htotal as t]

/-- Every action of the script is possible and meets the guard. -/
def admits (step : σ → α → Option (σ × ο)) (ok : σ → α → Prop)
    [∀ s a, Decidable (ok s a)] : σ → List α → Bool
  | _, [] => true
  | s, a :: as =>
    decide (ok s a) &&
      match step s a with
      | some (t, _) => admits step ok t as
      | none => false

theorem step_of_traceOf {s : σ} {a : α} {o : ο} (h : traceOf step s [a] = [(a, o)]) :
    step s a = some (after step s [a], o) := by
  simp only [traceOf, after] at h ⊢
  split at h
  · rename_i t o' hs
    obtain rfl : o' = o := by simpa using h
    exact hs
  · simp at h

theorem of_admits [∀ s a, Decidable (ok s a)] : ∀ {as : List α} {s : σ},
    admits step ok s as = true → Run step ok s (traceOf step s as) (after step s as)
  | [], _, _ => .nil
  | a :: as, s, h => by
      simp only [admits, Bool.and_eq_true, decide_eq_true_eq] at h
      cases hs : step s a with
      | none => simp [hs] at h
      | some q =>
          obtain ⟨t, o⟩ := q
          rw [hs] at h
          have hrest : Run step ok t (traceOf step t as) (after step t as) := of_admits h.2
          have hone : Run step ok s ([] ++ [(a, o)]) t := .snoc .nil h.1 hs
          simpa [traceOf, after, hs] using trans hone hrest

end Run
