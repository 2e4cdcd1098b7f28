import Mathlib.Data.List.Basic
import Mathlib.Logic.Function.Basic

/-!
# Brtos.Lib.SList

**Singly linked lists** in a heap: `next` says what follows a node, and a pointer is `none` for
`NULL`. `Chain next p as` is the list that begins at `p`; it determines the nodes, so that a
walk along `next` is a walk along `as`: `advance` follows the link a number of times, `last`
goes to the end, and a node that is linked there becomes the end (`Chain.append`).
-/

namespace SList

variable {α : Type*}

/-- The list from `p` has the nodes `as`. -/
def Chain (next : α → Option α) : Option α → List α → Prop
  | p, [] => p = none
  | p, a :: as => p = some a ∧ Chain next (next a) as

/-- `while (n) { p = p->next; n--; }`. -/
def advance (next : α → Option α) : Nat → Option α → Option α
  | 0, p => p
  | n + 1, p => advance next n (p.bind next)

/-- `while (p->next != NULL) p = p->next`. -/
def last (next : α → Option α) : Nat → α → Option α
  | 0, _ => none
  | fuel + 1, p =>
    match next p with
    | none => some p
    | some q => last next fuel q

variable {next next' : α → Option α} {p : Option α} {a b : α} {as : List α} {n fuel : Nat}

/-- A list depends on the links of its own nodes only. -/
theorem Chain.congr (h : Chain next p as) (heq : ∀ a ∈ as, next' a = next a) :
    Chain next' p as := by
  induction as generalizing p with
  | nil => exact h
  | cons a as ih =>
      obtain ⟨hp, hnext⟩ := h
      refine ⟨hp, ?_⟩
      rw [heq a List.mem_cons_self]
      exact ih hnext fun b hb => heq b (List.mem_cons_of_mem a hb)

@[simp] theorem advance_none : advance next n none = none := by
  induction n with
  | zero => rfl
  | succ n ih => exact ih

/-- Following the link `n` times reaches the node number `n`. -/
theorem Chain.advance_eq (h : Chain next p as) : advance next n p = as[n]? := by
  induction as generalizing p n with
  | nil =>
      obtain rfl : p = none := h
      simp
  | cons a as ih =>
      obtain ⟨rfl, hnext⟩ := h
      cases n with
      | zero => rfl
      | succ n => exact ih hnext

theorem Chain.last_eq (h : Chain next (some a) (a :: as)) (hfuel : as.length < fuel) :
    last next fuel a = (a :: as).getLast? := by
  induction as generalizing a fuel with
  | nil =>
      obtain ⟨fuel, rfl⟩ := Nat.exists_eq_add_one.mpr (Nat.zero_lt_of_lt hfuel)
      have hnone : next a = none := h.2
      simp [last, hnone]
  | cons b as ih =>
      obtain ⟨fuel, rfl⟩ := Nat.exists_eq_add_one.mpr (Nat.zero_lt_of_lt hfuel)
      have hsome : next a = some b := h.2.1
      have htail : Chain next (some b) (b :: as) := ⟨rfl, h.2.2⟩
      simp only [last, hsome, List.getLast?_cons_cons]
      exact ih htail (by simpa using hfuel)

/-- Link a new node behind the last one. -/
theorem Chain.append [DecidableEq α] (h : Chain next p as) (hnd : as.Nodup) (hb : b ∉ as)
    (hlast : as.getLast? = some a) :
    Chain (Function.update (Function.update next a (some b)) b none) p (as ++ [b]) := by
  induction as generalizing p with
  | nil => cases hlast
  | cons c as ih =>
      obtain ⟨rfl, hnext⟩ := h
      have hcb : c ≠ b := fun h => hb (h ▸ List.mem_cons_self)
      rw [List.cons_append]
      refine ⟨rfl, ?_⟩
      rw [Function.update_of_ne hcb]
      cases as with
      | nil =>
          obtain rfl : c = a := by simpa using hlast
          rw [Function.update_self]
          exact ⟨rfl, Function.update_self ..⟩
      | cons d as =>
          have hlast' : (d :: as).getLast? = some a := by rwa [List.getLast?_cons_cons] at hlast
          have hca : c ≠ a := by
            rintro rfl
            exact (List.nodup_cons.mp hnd).1 (List.mem_of_getLast? hlast')
          rw [Function.update_of_ne hca]
          exact ih hnext (List.nodup_cons.mp hnd).2 (fun h => hb (List.mem_cons_of_mem c h)) hlast'

end SList
