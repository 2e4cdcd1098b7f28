import Mathlib.Tactic.Common

/-!
# Brtos.Lib.Logged

**Computations with a log.** `Logged ι α` is a value of type `α` with the list of what
was noted on the way. A function is instrumented by writing it again in this monad; that
the instrumentation changes nothing is an equation between values, and what the log says
is proved by the rules for `All`, one for each way a computation is put together.
-/

/-- A value and what was noted while it was computed, in order. -/
structure Logged (ι α : Type*) where
  log : List ι
  value : α

namespace Logged

variable {ι α β σ : Type*}

instance : Monad (Logged ι) where
  pure a := ⟨[], a⟩
  bind x f := ⟨x.log ++ (f x.value).log, (f x.value).value⟩

/-- Note one item. -/
def note (i : ι) (a : α) : Logged ι α := ⟨[i], a⟩

@[simp] theorem value_note (i : ι) (a : α) : (note i a).value = a := rfl

@[simp] theorem log_note (i : ι) (a : α) : (note i a).log = [i] := rfl

section Monad

variable {α β : Type _}

@[simp] theorem value_pure (a : α) : (pure a : Logged ι α).value = a := rfl

@[simp] theorem log_pure (a : α) : (pure a : Logged ι α).log = [] := rfl

@[simp] theorem value_bind (x : Logged ι α) (f : α → Logged ι β) :
    (x >>= f).value = (f x.value).value := rfl

@[simp] theorem log_bind (x : Logged ι α) (f : α → Logged ι β) :
    (x >>= f).log = x.log ++ (f x.value).log := rfl

end Monad

@[simp] theorem value_ite (c : Prop) [Decidable c] (x y : Logged ι α) :
    (if c then x else y).value = if c then x.value else y.value := by
  split <;> rfl

/-! ### What the log says -/

/-- Everything noted satisfies `P`. -/
def All (P : ι → Prop) (x : Logged ι α) : Prop := ∀ i ∈ x.log, P i

variable {P : ι → Prop}

theorem all_note {i : ι} {a : α} : All P (note i a) ↔ P i := by simp [All]

theorem all_ite {c : Prop} [Decidable c] {x y : Logged ι α} (hx : c → All P x)
    (hy : ¬ c → All P y) : All P (if c then x else y) := by
  split
  · exact hx (by assumption)
  · exact hy (by assumption)

section Monad

variable {α β : Type _}

theorem all_pure (a : α) : All P (pure a : Logged ι α) := by simp [All]

theorem all_bind {x : Logged ι α} {f : α → Logged ι β} :
    All P (x >>= f) ↔ All P x ∧ All P (f x.value) := by
  simp only [All, log_bind, List.mem_append]
  constructor
  · intro h
    exact ⟨fun i hi => h i (Or.inl hi), fun i hi => h i (Or.inr hi)⟩
  · rintro ⟨hx, hf⟩ i (hi | hi)
    · exact hx i hi
    · exact hf i hi

end Monad

/-! ### Loops -/

section Loop

variable {σ : Type _} {β : Type*}

theorem value_foldlM {f : σ → β → Logged ι σ} {g : σ → β → σ} (h : ∀ s b, (f s b).value = g s b)
    (bs : List β) (s : σ) : (bs.foldlM f s).value = bs.foldl g s := by
  induction bs generalizing s with
  | nil => rfl
  | cons b bs ih => rw [List.foldlM_cons, List.foldl_cons, value_bind, ih, h]

/-- The rule for a loop with an invariant. -/
theorem all_foldlM {f : σ → β → Logged ι σ} {I : σ → Prop} {bs : List β} {s : σ} (hs : I s)
    (hstep : ∀ s b, b ∈ bs → I s → All P (f s b) ∧ I (f s b).value) : All P (bs.foldlM f s) := by
  induction bs generalizing s with
  | nil => exact all_pure s
  | cons b bs ih =>
      obtain ⟨hb, hi⟩ := hstep s b (List.mem_cons_self ..) hs
      rw [List.foldlM_cons, all_bind]
      exact ⟨hb, ih hi fun s b hm => hstep s b (List.mem_cons_of_mem _ hm)⟩

/-- The rule for a loop that only notes. -/
theorem all_forM {f : β → Logged ι PUnit} {bs : List β} (h : ∀ b ∈ bs, All P (f b)) :
    All P (bs.forM f) := by
  induction bs with
  | nil => exact all_pure _
  | cons b bs ih =>
      show All P (f b >>= fun _ => bs.forM f)
      rw [all_bind]
      exact ⟨h b (List.mem_cons_self ..), ih fun b hb => h b (List.mem_cons_of_mem _ hb)⟩

end Loop

end Logged
