import Mathlib.Data.List.Nodup
import Mathlib.Data.List.Pairwise
import Mathlib.Logic.Function.Basic
import Mathlib.Tactic.Common

/-!
# Brtos.Lib.ByteStore

**What an allocator of bytes is for.** A `ByteStore` is what its callers see: the blocks they
hold, no two of which overlap, and the bytes in them. `Allows` says what a call may return and
what becomes of the store. A request may always be turned away, and otherwise gets a block
the allocator has (`ok`) that overlaps no other; only a caller changes a byte that it holds.

A caller keeps to the rules (`Obeys`) if it gives back what it holds and touches nothing else.
`Tenants` says that the callers share the blocks among them: each block has one owner.
-/

/-- A block somebody holds: `size` bytes from `ptr` on. -/
structure Grant where
  ptr : Nat
  size : Nat
  deriving DecidableEq, Repr

namespace Grant

/-- The addresses of the block. -/
def Owns (g : Grant) (x : Nat) : Prop := g.ptr ≤ x ∧ x < g.ptr + g.size

instance (g : Grant) (x : Nat) : Decidable (g.Owns x) := inferInstanceAs (Decidable (_ ∧ _))

/-- Two blocks do not overlap. -/
def Apart (g k : Grant) : Prop := g.ptr + g.size ≤ k.ptr ∨ k.ptr + k.size ≤ g.ptr

instance : Std.Symm Apart := ⟨fun _ _ => Or.symm⟩

end Grant

/-- A call to the allocator, or an access to the memory it hands out. -/
inductive MemCall
  | malloc (size : Nat)
  | calloc (num itemSize : Nat)
  | free (ptr : Option Nat)
  | store (a : Nat) (v : UInt8)
  | load (a : Nat)
  deriving DecidableEq, Repr

/-- What it returns; `none` is the null pointer. -/
inductive MemRet
  | pointer (p : Option Nat)
  | done
  | byte (v : UInt8)
  deriving DecidableEq, Repr

/-- The blocks that are held after a call. -/
def MemCall.held (held : List Grant) : MemCall → MemRet → List Grant
  | .malloc size, .pointer (some p) => ⟨p, size⟩ :: held
  | .calloc num itemSize, .pointer (some p) => ⟨p, num * itemSize⟩ :: held
  | .free (some p), _ => held.filter fun g => g.ptr ≠ p
  | _, _ => held

/-- The caller holds what it uses, and asks for no more than the allocator can count. -/
def MemCall.Obeys (most : Nat) (held : List Grant) : MemCall → Prop
  | .malloc size => size ≤ most
  | .calloc num itemSize => num * itemSize ≤ most
  | .free none => True
  | .free (some p) => ∃ g ∈ held, g.ptr = p
  | .store a _ => ∃ g ∈ held, g.Owns a
  | .load a => ∃ g ∈ held, g.Owns a

instance (most : Nat) (held : List Grant) (c : MemCall) : Decidable (c.Obeys most held) := by
  induction c using MemCall.casesOn with
  | malloc size => exact inferInstanceAs (Decidable (_ ≤ _))
  | calloc num itemSize => exact inferInstanceAs (Decidable (_ ≤ _))
  | free ptr =>
      induction ptr using Option.casesOn with
      | none => exact isTrue trivial
      | some p => exact inferInstanceAs (Decidable (∃ g ∈ held, g.ptr = p))
  | store a v => exact inferInstanceAs (Decidable (∃ g ∈ held, g.Owns a))
  | load a => exact inferInstanceAs (Decidable (∃ g ∈ held, g.Owns a))

/-- It is byte `a` that is stored. -/
def MemCall.StoresAt (a : Nat) : MemCall → Prop
  | .store b _ => b = a
  | _ => False

instance (a : Nat) (c : MemCall) : Decidable (c.StoresAt a) := by
  induction c using MemCall.casesOn with
  | store b v => exact inferInstanceAs (Decidable (b = a))
  | _ => exact isFalse not_false

/-- The callers' view of the memory. -/
structure ByteStore where
  held : List Grant
  bytes : Nat → UInt8
  apart : held.Pairwise Grant.Apart

namespace ByteStore

/-- Nothing is held. -/
def empty : ByteStore := ⟨[], fun _ => 0, .nil⟩

/-- Byte `x` is held by somebody. -/
def Owned (s : ByteStore) (x : Nat) : Prop := ∃ g ∈ s.held, g.Owns x

/-- `t` has the bytes of `s` wherever somebody holds them in both. -/
def Keeps (s t : ByteStore) : Prop := ∀ x, s.Owned x → t.Owned x → t.bytes x = s.bytes x

/-- What a call may return, and the store after it; `ok` are the blocks the allocator has. -/
structure Allows (ok : Grant → Prop) (s : ByteStore) (c : MemCall) (r : MemRet) (t : ByteStore) :
    Prop where
  held : t.held = c.held s.held r
  fresh : ∀ g ∈ t.held, g ∈ s.held ∨ ok g
  kept : (∀ a v, c ≠ .store a v) → s.Keeps t
  zeros : ∀ num itemSize p, c = .calloc num itemSize → r = .pointer (some p) →
    ∀ x, p ≤ x → x < p + num * itemSize → t.bytes x = 0
  stored : ∀ a v, c = .store a v → ∀ x, t.Owned x → t.bytes x = if x = a then v else s.bytes x
  loaded : ∀ a, c = .load a → r = .byte (s.bytes a)

/-- A byte that stays in somebody's hands changes by a store only. -/
theorem Allows.bytes_eq {ok : Grant → Prop} {s t : ByteStore} {c : MemCall} {r : MemRet} {a : Nat}
    (h : Allows ok s c r t) (ha : s.Owned a) (ha' : t.Owned a) (hc : ∀ v, c ≠ .store a v) :
    t.bytes a = s.bytes a := by
  by_cases hstore : ∃ b v, c = .store b v
  · obtain ⟨b, v, rfl⟩ := hstore
    rw [h.stored b v rfl a ha', if_neg]
    rintro rfl
    exact hc v rfl
  · exact h.kept (fun b v hbv => hstore ⟨b, v, hbv⟩) a ha ha'

end ByteStore

/-! ### Who holds what -/

variable {ι : Type*} {held : List Grant} {live live' : ι → Prop} {block block' : ι → Grant}

/-- Every block that is held belongs to one of the owners that live, and each owner has its own. -/
structure Tenants (held : List Grant) (live : ι → Prop) (block : ι → Grant) : Prop where
  nodup : (held.map Grant.ptr).Nodup
  mem : ∀ g, g ∈ held ↔ ∃ o, live o ∧ block o = g
  inj : ∀ o o', live o → live o' → block o = block o' → o = o'

namespace Tenants

theorem held_of_live (h : Tenants held live block) {o : ι} (ho : live o) : block o ∈ held :=
  (h.mem _).mpr ⟨o, ho, rfl⟩

theorem ptr_mem (h : Tenants held live block) {o : ι} (ho : live o) :
    (block o).ptr ∈ held.map Grant.ptr := List.mem_map_of_mem (h.held_of_live ho)

theorem eq_of_ptr (h : Tenants held live block) {o o' : ι} (ho : live o) (ho' : live o')
    (hp : (block o).ptr = (block o').ptr) : o = o' :=
  h.inj o o' ho ho' (List.inj_on_of_nodup_map h.nodup (h.held_of_live ho) (h.held_of_live ho') hp)

/-- The same owners have the same blocks. -/
theorem congr (h : Tenants held live block) (hlive : ∀ o, live' o ↔ live o)
    (hblock : ∀ o, live o → block' o = block o) : Tenants held live' block' := by
  refine ⟨h.nodup, fun g => ?_, fun o o' ho ho' he => ?_⟩
  · rw [h.mem]
    constructor
    · rintro ⟨o, ho, rfl⟩
      exact ⟨o, (hlive o).mpr ho, hblock o ho⟩
    · rintro ⟨o, ho, rfl⟩
      exact ⟨o, (hlive o).mp ho, (hblock o ((hlive o).mp ho)).symm⟩
  · rw [hlive] at ho ho'
    rw [hblock o ho, hblock o' ho'] at he
    exact h.inj o o' ho ho' he

/-- A new owner gets a new block. -/
theorem take (h : Tenants held live block) {g : Grant} {n : ι} (hfresh : g.ptr ∉ held.map Grant.ptr)
    (hlive : ∀ o, live' o ↔ live o ∨ o = n) (hnew : block n = g) : Tenants (g :: held) live' block := by
  have hne : ∀ o, live o → block o ≠ block n := fun o ho he => by
    have hmem := h.ptr_mem ho
    rw [he, hnew] at hmem
    exact hfresh hmem
  refine ⟨List.nodup_cons.mpr ⟨hfresh, h.nodup⟩, fun k => ?_, fun o o' ho ho' he => ?_⟩
  · rw [List.mem_cons, h.mem]
    constructor
    · rintro (rfl | ⟨o, ho, rfl⟩)
      · exact ⟨n, (hlive n).mpr (Or.inr rfl), hnew⟩
      · exact ⟨o, (hlive o).mpr (Or.inl ho), rfl⟩
    · rintro ⟨o, ho, rfl⟩
      rcases (hlive o).mp ho with ho | rfl
      · exact Or.inr ⟨o, ho, rfl⟩
      · exact Or.inl hnew
  · rcases (hlive o).mp ho with ho | rfl <;> rcases (hlive o').mp ho' with ho' | rfl
    · exact h.inj o o' ho ho' he
    · exact absurd he (hne o ho)
    · exact absurd he.symm (hne o' ho')
    · rfl

/-- An owner gives its block back. -/
theorem drop (h : Tenants held live block) {n : ι} (hn : live n)
    (hlive : ∀ o, live' o ↔ live o ∧ o ≠ n) :
    Tenants (held.filter fun g => g.ptr ≠ (block n).ptr) live' block := by
  refine ⟨h.nodup.sublist (List.filter_sublist.map _), fun k => ?_, fun o o' ho ho' he => ?_⟩
  · rw [List.mem_filter, h.mem, decide_eq_true_eq]
    constructor
    · rintro ⟨⟨o, ho, rfl⟩, hne⟩
      refine ⟨o, (hlive o).mpr ⟨ho, ?_⟩, rfl⟩
      rintro rfl
      exact hne rfl
    · rintro ⟨o, ho, rfl⟩
      obtain ⟨ho, hne⟩ := (hlive o).mp ho
      exact ⟨⟨o, ho, rfl⟩, fun hp => hne (h.eq_of_ptr ho hn hp)⟩
  · exact h.inj o o' ((hlive o).mp ho).1 ((hlive o').mp ho').1 he

end Tenants
