import Mathlib.Algebra.Order.Group.Int
import Mathlib.Algebra.Order.Ring.Int
import Mathlib.Data.Int.Order.Basic
import Mathlib.Logic.Function.Basic
import Mathlib.Tactic.Ring

/-!
# Brtos.Lib.WordStack

**Writes to word memory by a stack pointer that moves downwards.** A piece of code that
initialises memory is the list of its writes, oldest first: which addresses it touches and
what it leaves behind are then facts about a list (`Writes.apply_other`, `apply_push`).

`push` is `*--sp = v` for one word after the other, `fillDown` the loop
`do { *--sp = v; } while (sp > limit);`. Addresses are integers, so that a write below
everything there is remains visible as one.
-/

/-- Writes to memory, oldest first. -/
abbrev Writes (α : Type*) := List (Int × α)

namespace Writes

variable {α : Type*} {m : Int → α} {ws ws' : Writes α} {a : Int}

/-- The memory after the writes. -/
def apply (m : Int → α) (ws : Writes α) : Int → α :=
  ws.foldl (fun m x => Function.update m x.1 x.2) m

@[simp] theorem apply_nil : Writes.apply m [] = m := rfl

@[simp] theorem apply_cons {x : Int × α} :
    Writes.apply m (x :: ws) = Writes.apply (Function.update m x.1 x.2) ws := rfl

theorem apply_append : Writes.apply m (ws ++ ws') = Writes.apply (Writes.apply m ws) ws' :=
  List.foldl_append

/-- A word nothing is written to. -/
theorem apply_other (h : ∀ x ∈ ws, x.1 ≠ a) : Writes.apply m ws a = m a := by
  induction ws generalizing m with
  | nil => rfl
  | cons x ws ih =>
      rw [apply_cons, ih fun y hy => h y (List.mem_cons_of_mem x hy),
        Function.update_of_ne (h x List.mem_cons_self).symm]

end Writes

section Stack

variable {α : Type*} {w sp limit : Int} {v : α} {vs : List α} {m : Int → α} {x : Int × α}

/-- Push the words `vs`, each of `w` bytes. -/
def push (w sp : Int) : List α → Writes α
  | [] => []
  | v :: vs => (sp - w, v) :: push w (sp - w) vs

/-- The stack pointer after `push`. -/
def afterPush (w sp : Int) (vs : List α) : Int := sp - w * vs.length

theorem mem_push (hw : 0 < w) (hx : x ∈ push w sp vs) : afterPush w sp vs ≤ x.1 ∧ x.1 + w ≤ sp := by
  unfold afterPush
  induction vs generalizing sp with
  | nil => cases hx
  | cons v vs ih =>
      have hlen : w * ((v :: vs).length : Int) = w * vs.length + w := by
        rw [List.length_cons]
        push_cast
        ring
      have hnonneg : 0 ≤ w * (vs.length : Int) := Int.mul_nonneg hw.le (Int.natCast_nonneg _)
      rcases List.mem_cons.mp hx with rfl | hx
      · constructor <;> dsimp only <;> omega
      · obtain ⟨h1, h2⟩ := ih hx
        omega

/-- The words that were pushed can be read back. -/
theorem apply_push (hw : 0 < w) {k : Nat} (hk : k < vs.length) :
    (push w sp vs).apply m (sp - w * (k + 1)) = vs[k] := by
  induction vs generalizing sp m k with
  | nil => cases hk
  | cons v vs ih =>
      rw [push, Writes.apply_cons]
      cases k with
      | zero =>
          -- the first word is above all the others
          rw [Writes.apply_other]
          · simp
          · intro y hy
            have hle := (mem_push hw hy).2
            simp only [Nat.cast_zero]
            omega
      | succ k =>
          have haddr : sp - w * ((k + 1 : Nat) + 1) = sp - w - w * (k + 1) := by
            push_cast
            ring
          rw [haddr]
          exact ih (Nat.lt_of_succ_lt_succ hk)

/-- `do { *--sp = v; } while (sp > limit);`. A word has at least one byte; that this is
tested makes the definition total. -/
def fillDown (w : Int) (v : α) (limit sp : Int) : Writes α :=
  (sp - w, v) :: if 0 < w ∧ limit < sp - w then fillDown w v limit (sp - w) else []
termination_by (sp - limit).toNat
decreasing_by omega

/-- The loop writes one word before it tests, and after that only words that begin above
`limit - w`. -/
theorem mem_fillDown (hx : x ∈ fillDown w v limit sp) :
    x.1 + w = sp ∨ x.1 + w < sp ∧ limit < x.1 + w := by
  induction sp using fillDown.induct w limit with
  | case1 sp ih =>
      rw [fillDown] at hx
      rcases List.mem_cons.mp hx with rfl | hx
      · left
        dsimp only
        omega
      · split at hx
        · rename_i hgo
          rcases ih hgo hx with h | h <;> right <;> omega
        · cases hx

theorem first_mem_fillDown : (sp - w, v) ∈ fillDown w v limit sp := by
  rw [fillDown]
  exact List.mem_cons_self

end Stack
