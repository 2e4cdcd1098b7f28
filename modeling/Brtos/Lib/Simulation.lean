import Brtos.Lib.Run

/-!
# Brtos.Lib.Simulation

**Runs followed by a specification.** A specification says, for one action taken in one
state, what may be observed and what becomes of its own, abstract state. A run *follows*
it when each of its steps is one the specification allows, from an abstract state to the
next. The specification may look at the state the action is taken in, so that it can
speak of who acts; what it promises is in the observation and in its own state.

`Run.follows` is the simulation rule: a relation between the two states that every
guarded step keeps carries a whole run.
-/

variable {σ α ο β : Type*}

/-- The run with trace `tr` from `s` to `t` takes the specification from `b` to `c`. -/
inductive Follows (step : σ → α → Option (σ × ο)) (spec : σ → β → α → ο → β → Prop) (s : σ) (b : β) :
    List (α × ο) → σ → β → Prop
  | nil : Follows step spec s b [] s b
  | snoc {tr : List (α × ο)} {t u : σ} {c d : β} {a : α} {o : ο} :
      Follows step spec s b tr t c → step t a = some (u, o) → spec t c a o d →
        Follows step spec s b (tr ++ [(a, o)]) u d

namespace Run

variable {step : σ → α → Option (σ × ο)} {ok : σ → α → Prop}
  {spec : σ → β → α → ο → β → Prop} {s t : σ} {b : β} {tr : List (α × ο)}

/-- **Simulation rule.** -/
theorem follows {R : σ → β → Prop} (hrun : Run step ok s tr t) (h0 : R s b)
    (hstep : ∀ t c a u o, R t c → ok t a → step t a = some (u, o) → ∃ d, spec t c a o d ∧ R u d) :
    ∃ c, Follows step spec s b tr t c ∧ R t c := by
  induction hrun with
  | nil => exact ⟨b, .nil, h0⟩
  | snoc _ hok hs ih =>
      obtain ⟨c, hf, hc⟩ := ih
      obtain ⟨d, hspec, hd⟩ := hstep _ _ _ _ _ hc hok hs
      exact ⟨d, .snoc hf hs hspec, hd⟩

end Run

/-- Nothing has happened yet. -/
theorem Follows.nil_inv {step : σ → α → Option (σ × ο)} {spec : σ → β → α → ο → β → Prop}
    {s t : σ} {b c : β} (h : Follows step spec s b [] t c) : t = s ∧ c = b := by
  generalize htr : ([] : List (α × ο)) = tr at h
  cases h with
  | nil => exact ⟨rfl, rfl⟩
  | snoc => simp at htr
