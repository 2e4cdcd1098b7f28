import Brtos.Lib.Links
import Brtos.MemoryAllocation.Arena
import Brtos.MemoryAllocation.Model
import Mathlib.Data.Nat.Bitwise

/-!
# Brtos.MemoryAllocation.Heap

The heap **represents** an arena: along the cuts the block numbers in the headers lead forth
and back, with the mask on the free blocks, and the free list does the same from block 0 over
the free blocks to the last cut. Each static function of `umm_malloc.c` is one operation of the
arena: in a heap that represents one it stays inside `umm_heap`, leaves the heap representing
the next one, and leaves the callers' bytes alone.
-/

namespace Brtos

namespace UmmHeap

variable {uc : UmmConfig} {h : UmmHeap uc}

/-! ### The fields -/

/-- Writing one field leaves the others. -/
theorem get_set (f g : UmmField) (b c v : Nat) :
    (h.set f b v).get g c = if g = f ∧ c = b then v % 65536 else h.get g c := by
  unfold get set
  split
  · rename_i heq
    rw [heq.1, heq.2]
    exact Bytes.load16_store16
  · rename_i hne
    apply Bytes.load16_store16_of_disjoint
    cases f <;> cases g <;> simp only [UmmField.offset, reduceCtorEq, true_and, false_and,
      not_false_eq_true] at hne ⊢ <;> omega

/-- Copying a block copies its fields. -/
theorem get_copy (g : UmmField) (b c d : Nat) :
    (⟨h.mem.copy (8 * d) (8 * b) 8⟩ : UmmHeap uc).get g c = if c = d then h.get g b else h.get g c := by
  have hoff : g.offset + 1 < 8 := by
    cases g <;> decide
  unfold get
  split
  · rename_i heq
    subst heq
    exact Bytes.load16_copy_of_mem hoff
  · exact Bytes.load16_copy_of_disjoint (by omega)

theorem read_of_lt {f : UmmField} {b : Nat} (hb : b < uc.numblocks) : h.read f b = some (h.get f b) :=
  if_pos hb

theorem write_of_lt {f : UmmField} {b v : Nat} (hb : b < uc.numblocks) :
    h.write f b v = some (h.set f b v) := if_pos hb

/-! ### The masks -/

theorem and_ummBlocknoMask (x : Nat) : x &&& ummBlocknoMask = x % 0x8000 :=
  Nat.and_two_pow_sub_one_eq_mod x 15

theorem or_ummFreelistMask {x : Nat} (hx : x < 0x8000) : x ||| ummFreelistMask = x + 0x8000 := by
  rw [Nat.or_comm, Nat.add_comm]
  exact (Nat.two_pow_add_eq_or_of_lt (i := 15) hx 1).symm

theorem and_ummFreelistMask {x : Nat} (hx : x < 0x8000) : x &&& ummFreelistMask = 0 := by
  have h : x &&& 2 ^ 15 = (x.testBit 15).toNat * 2 ^ 15 := Nat.and_two_pow x 15
  rw [Nat.testBit_lt_two_pow hx] at h
  exact h

theorem add_and_ummFreelistMask {x : Nat} (hx : x < 0x8000) :
    (x + 0x8000) &&& ummFreelistMask ≠ 0 := by
  have h : (x + 0x8000) &&& 2 ^ 15 = ((x + 0x8000).testBit 15).toNat * 2 ^ 15 := Nat.and_two_pow _ 15
  have hbit : (x + 2 ^ 15).testBit 15 = true := by
    rw [Nat.add_comm, Nat.testBit_two_pow_add_eq, Nat.testBit_lt_two_pow hx]
    rfl
  rw [show (x + 0x8000).testBit 15 = true from hbit] at h
  show (x + 0x8000) &&& 2 ^ 15 ≠ 0
  rw [h]
  decide

/-! ### The represented arena -/

/-- The fields of the heap describe the arena. -/
structure Represents (h : UmmHeap uc) (A : Arena) : Prop where
  lt : A.last < uc.numblocks
  next : ∀ b n, Adj A.cuts b n → h.get .next b = n + if b ∈ A.free then 0x8000 else 0
  prev : ∀ b n, Adj A.cuts b n → h.get .prev n = b
  last : h.get .next A.last = 0
  links : Links (h.get .freeNext) (h.get .freePrev) (0 :: (A.free ++ [A.last]))
  lastFree : h.get .freeNext A.last = 0

/-- The bytes in `P` are as before. -/
def SameAt (P : Nat → Prop) (h h' : UmmHeap uc) : Prop := ∀ x, P x → h'.mem x = h.mem x

theorem SameAt.trans {P : Nat → Prop} {h h' h'' : UmmHeap uc} (h₁ : SameAt P h h')
    (h₂ : SameAt P h' h'') : SameAt P h h'' := fun x hx => (h₂ x hx).trans (h₁ x hx)

theorem sameAt_set {P : Nat → Prop} {f : UmmField} {b v : Nat}
    (hno : ∀ k, f.offset ≤ k → k ≤ f.offset + 1 → ¬ P (8 * b + k)) : SameAt P h (h.set f b v) := by
  intro x hx
  refine Bytes.store16_of_ne ?_ ?_
  · rintro rfl
    exact hno f.offset le_rfl (by omega) hx
  · rintro rfl
    exact hno (f.offset + 1) (by omega) le_rfl hx

/-- Header fields of blocks are no caller's. -/
theorem sameAt_set_header {A : Arena} {f : UmmField} {b v : Nat} (hb : b ∈ A.cuts)
    (hf : f = .next ∨ f = .prev) : SameAt A.Holds h (h.set f b v) := by
  refine sameAt_set fun k _ hk => Arena.not_holds_header hb ?_
  rcases hf with rfl | rfl <;> simp only [UmmField.offset] at hk <;> omega

/-- Nor is any field of a node of the free list. -/
theorem sameAt_set_free {A : Arena} {f : UmmField} {b v : Nat}
    (hb : b ∈ 0 :: (A.free ++ [A.last])) : SameAt A.Holds h (h.set f b v) := by
  refine sameAt_set fun k _ hk => Arena.not_holds_ends hb ?_
  cases f <;> simp only [UmmField.offset] at hk <;> omega

namespace Represents

variable {A : Arena} {b c n p : Nat}

theorem lt_numblocks (hr : h.Represents A) (hb : b ∈ A.cuts) : b < uc.numblocks :=
  (A.le_last b hb).trans_lt hr.lt

theorem lt_mask (hr : h.Represents A) (hb : b ∈ A.cuts) : b < 0x8000 :=
  (hr.lt_numblocks hb).trans_le uc.numblocks_le

theorem mod_eq (hr : h.Represents A) (hb : b ∈ A.cuts) : b % 65536 = b :=
  Nat.mod_eq_of_lt ((hr.lt_mask hb).trans (by decide))

theorem next_of_notMem (hr : h.Represents A) (hadj : Adj A.cuts b n) (hb : b ∉ A.free) :
    h.get .next b = n := by
  rw [hr.next b n hadj, if_neg hb, Nat.add_zero]

theorem next_of_mem (hr : h.Represents A) (hadj : Adj A.cuts b n) (hb : b ∈ A.free) :
    h.get .next b = n + 0x8000 := by
  rw [hr.next b n hadj, if_pos hb]

/-- Without the mask the field is the number of the next block. -/
theorem next_mod (hr : h.Represents A) (hadj : Adj A.cuts b n) : h.get .next b % 0x8000 = n := by
  have := hr.lt_mask hadj.right
  rw [hr.next b n hadj]
  split <;> omega

/-- `umm_disconnect_from_free_list` takes a free block. -/
theorem take (hr : h.Represents A) (hc : c ∈ A.free) :
    ∃ h', h.ummDisconnectFromFreeList c = some h' ∧ h'.Represents (A.take c) ∧
      SameAt A.Holds h h' := by
  obtain ⟨hcut, hc0, hlast⟩ := A.free_mem c hc
  obtain ⟨n, hadj⟩ := A.exists_right hcut hlast
  obtain ⟨xs, a, b, ys, hlist, hlist'⟩ := Links.exists_neighbours (s := 0) (t := A.last) hc A.nodup
  have hlinks := hr.links
  have hnd := A.nodup_ends
  rw [hlist] at hlinks hnd
  obtain ⟨-, ⟨hac, hca⟩, hrest⟩ := Links.mid_iff.mp hlinks
  obtain ⟨⟨hcb, hbc⟩, -⟩ := List.isChain_cons_cons.mp hrest
  obtain ⟨hne, hab, hne'⟩ : a ≠ c ∧ a ≠ b ∧ c ≠ b := by
    simp only [List.nodup_append, List.nodup_cons, List.mem_cons, not_or] at hnd
    exact ⟨hnd.2.1.1.1, hnd.2.1.1.2.1, hnd.2.1.2.1.1⟩
  have hanode : a ∈ 0 :: (A.free ++ [A.last]) := by rw [hlist]; simp
  have hbnode : b ∈ 0 :: (A.free ++ [A.last]) := by rw [hlist]; simp
  have ha := hr.lt_numblocks (Arena.mem_cuts_of_mem_ends hanode)
  have hb := hr.lt_numblocks (Arena.mem_cuts_of_mem_ends hbnode)
  have hc' := hr.lt_numblocks hcut
  have hn := hr.lt_mask hadj.right
  refine ⟨((h.set .freeNext a b).set .freePrev b a).set .next c n, ?_, ?_, ?_⟩
  · have hnext := hr.next_of_mem hadj hc
    have hmask : (n + 0x8000) &&& ummBlocknoMask = n := by
      rw [and_ummBlocknoMask]
      omega
    simp [ummDisconnectFromFreeList, pfree, nfree, nblock, read_of_lt, write_of_lt, ha, hb, hc',
      get_set, hca, hcb, hnext, hmask, hne.symm]
  · have ha16 := hr.mod_eq (Arena.mem_cuts_of_mem_ends hanode)
    have hb16 := hr.mod_eq (Arena.mem_cuts_of_mem_ends hbnode)
    refine ⟨hr.lt, ?_, ?_, ?_, ?_, ?_⟩
    · intro x y hxy
      have hmem : x ∈ (A.take c).free ↔ x ≠ c ∧ x ∈ A.free := A.nodup.mem_erase_iff
      by_cases hxc : x = c
      · subst hxc
        obtain rfl := hadj.right_unique hxy
        rw [get_set, if_pos ⟨rfl, rfl⟩, if_neg fun hx => (hmem.mp hx).1 rfl, hr.mod_eq hadj.right,
          Nat.add_zero]
      · have hfree : x ∈ (A.take c).free ↔ x ∈ A.free := hmem.trans (and_iff_right hxc)
        simp only [get_set, hxc, reduceCtorEq, false_and, and_false, if_false, hfree]
        exact hr.next x y hxy
    · intro x y hxy
      simp only [get_set, reduceCtorEq, false_and, if_false]
      exact hr.prev x y hxy
    · simp only [get_set, reduceCtorEq, false_and, if_false]
      rw [if_neg fun hx => hlast hx.2.symm]
      exact hr.last
    · show Links _ _ (0 :: (A.free.erase c ++ [A.last]))
      rw [hlist']
      refine Links.unlink hlinks hnd ?_ ?_ ?_ ?_
      · simp [get_set, hb16]
      · simp [get_set, ha16]
      · intro x hxa _
        simp [get_set, hxa]
      · intro x hxb _
        simp [get_set, hxb]
    · have hla : A.last ≠ a := by
        rintro hla
        rw [← hla, hr.lastFree] at hac
        exact hc0 hac.symm
      simp only [get_set, reduceCtorEq, false_and, if_false]
      rw [if_neg fun hx => hla hx.2]
      exact hr.lastFree
  · exact (sameAt_set_free hanode).trans
      ((sameAt_set_free hbnode).trans (sameAt_set_header hcut (Or.inl rfl)))

/-- `umm_make_new_block` splits a free block. -/
theorem split (hr : h.Represents A) (hadj : Adj A.cuts c n) (hc : c ∈ A.free) {k : Nat}
    (hk : c < c + k) (hkn : c + k < n) :
    ∃ h', h.ummMakeNewBlock c k ummFreelistMask = some h' ∧
      h'.Represents (A.split c n (c + k) hadj hk hkn) ∧ SameAt A.Holds h h' := by
  have hnum := hr.lt_numblocks hadj.right
  have hcnum := hr.lt_numblocks hadj.left
  have hmnum : c + k < uc.numblocks := hkn.trans hnum
  have hm15 : c + k < 0x8000 := hkn.trans (hr.lt_mask hadj.right)
  have hm16 : (c + k) % 65536 = c + k := Nat.mod_eq_of_lt (hm15.trans (by decide))
  have hm : c + k ∉ A.cuts := fun hm => (hadj.between _ hm).elim hk.not_ge hkn.not_ge
  have hmask : (n + 0x8000) &&& ummBlocknoMask = n := by
    have := hr.lt_mask hadj.right
    rw [and_ummBlocknoMask]
    omega
  have hnext := hr.next_of_mem hadj hc
  refine ⟨(((h.set .next (c + k) n).set .prev (c + k) c).set .prev n (c + k)).set .next c
    (c + k + 0x8000), ?_, ?_, ?_⟩
  · simp [ummMakeNewBlock, nblock, read_of_lt, write_of_lt, hcnum, hmnum, hnum, get_set, hnext,
      hmask, or_ummFreelistMask hm15, show k ≠ 0 by omega]
  · have hne : ∀ x ∈ A.cuts, x ≠ c + k := fun x hx e => hm (e ▸ hx)
    refine ⟨hr.lt, ?_, ?_, ?_, ?_, ?_⟩
    · intro x y hxy
      rcases (adj_insert hadj hk hkn).mp hxy with ⟨hxy, hxc⟩ | ⟨rfl, rfl⟩ | ⟨rfl, rfl⟩
      · simp only [get_set, hxc, hne x hxy.left, reduceCtorEq, false_and, and_false, if_false]
        exact hr.next x y hxy
      · rw [get_set, if_pos ⟨rfl, rfl⟩,
          if_pos (show x ∈ (A.split x n (x + k) hadj hk hkn).free from hc)]
        omega
      · have hfree : c + k ∉ A.free := fun h => hm (A.free_mem _ h).1
        simp only [get_set, hk.ne', reduceCtorEq, false_and, and_false, true_and, if_false, if_true,
          hr.mod_eq hadj.right]
        rw [if_neg (show c + k ∉ (A.split c y (c + k) hadj hk hkn).free from hfree), Nat.add_zero]
    · intro x y hxy
      rcases (adj_insert hadj hk hkn).mp hxy with ⟨hxy, hxc⟩ | ⟨rfl, rfl⟩ | ⟨rfl, rfl⟩
      · have hyn : y ≠ n := fun e => hxc (hadj.left_unique (e ▸ hxy))
        simp only [get_set, hyn, hne y hxy.right, reduceCtorEq, false_and, and_false, if_false]
        exact hr.prev x y hxy
      · simp only [get_set, hkn.ne, reduceCtorEq, false_and, and_false, true_and, if_false, if_true,
          hr.mod_eq hadj.left]
      · simp only [get_set, reduceCtorEq, false_and, true_and, if_false, if_true, hm16]
    · have hlast : A.last ≠ c := fun e => A.last_notMem (e ▸ hc)
      show UmmHeap.get _ .next A.last = 0
      simp only [get_set, hlast, hne _ A.last_mem, reduceCtorEq, false_and, and_false, if_false]
      exact hr.last
    · refine Links.congr hr.links ?_ ?_ <;> intro x _ <;>
        simp only [get_set, reduceCtorEq, false_and, if_false]
    · simp only [get_set, reduceCtorEq, false_and, if_false]
      exact hr.lastFree
  · have hinside : ∀ f v (h : UmmHeap uc), SameAt A.Holds h (h.set f (c + k) v) := by
      intro f v h
      refine sameAt_set fun j _ hj => Arena.not_holds_of_adj hadj (Or.inr hc) hk.le hkn ?_
      cases f <;> simp only [UmmField.offset] at hj <;> omega
    exact ((hinside .next n h).trans (hinside .prev c _)).trans
      ((sameAt_set_header hadj.right (Or.inr rfl)).trans (sameAt_set_header hadj.left (Or.inl rfl)))

/-- `umm_assimilate_up` does nothing to a block whose next one is not free. -/
theorem ummAssimilateUp_of_notMem (hr : h.Represents A) (hadj : Adj A.cuts c n) (hc : c ∉ A.free)
    (hn : n ∉ A.free) : h.ummAssimilateUp c = some h := by
  have hmask : h.get .next n &&& ummFreelistMask = 0 := by
    by_cases hlast : n = A.last
    · rw [hlast, hr.last, Nat.zero_and]
    · obtain ⟨m, hm⟩ := A.exists_right hadj.right hlast
      rw [hr.next_of_notMem hm hn]
      exact and_ummFreelistMask (hr.lt_mask hm.right)
  simp [ummAssimilateUp, nblock, read_of_lt (hr.lt_numblocks hadj.left),
    read_of_lt (hr.lt_numblocks hadj.right), hr.next_of_notMem hadj hc, hmask]

/-- `umm_assimilate_up` takes in a free block. -/
theorem absorb (hr : h.Represents A) (hadj : Adj A.cuts c n) (hc : c ∉ A.free) (hc0 : c ≠ 0)
    (hn : n ∈ A.free) :
    ∃ h', h.ummAssimilateUp c = some h' ∧ h'.Represents (A.absorb c n hadj hn hc0) ∧
      SameAt A.Holds h h' := by
  obtain ⟨m, hm⟩ := A.exists_right hadj.right (A.free_mem n hn).2.2
  obtain ⟨h₁, htake, hr₁, hsame⟩ := hr.take hn
  have hcnum := hr.lt_numblocks hadj.left
  have hnnum := hr.lt_numblocks hadj.right
  have hmnum := hr.lt_numblocks hm.right
  have hc₁ : c ∉ (A.take n).free := fun h => hc (List.mem_of_mem_erase h)
  have hn₁ : n ∉ (A.take n).free := fun h => (A.nodup.mem_erase_iff.mp h).1 rfl
  have hnext : h.get .next n &&& ummFreelistMask ≠ 0 := by
    rw [hr.next_of_mem hm hn]
    exact add_and_ummFreelistMask (hr.lt_mask hm.right)
  have hmask : m &&& ummBlocknoMask = m := by
    rw [and_ummBlocknoMask]
    exact Nat.mod_eq_of_lt (hr.lt_mask hm.right)
  refine ⟨(h₁.set .prev m c).set .next c m, ?_, ?_, ?_⟩
  · simp [ummAssimilateUp, nblock, read_of_lt, write_of_lt, hcnum, hnnum, hmnum, get_set,
      hr.next_of_notMem hadj hc, hnext, htake, hr₁.next_of_notMem hadj hc₁,
      hr₁.next_of_notMem hm hn₁, hmask]
  · refine ⟨hr.lt, ?_, ?_, ?_, ?_, ?_⟩
    · intro x y hxy
      rcases (adj_erase hadj hm).mp hxy with ⟨hxy, hxc, -⟩ | ⟨rfl, rfl⟩
      · simp only [get_set, hxc, reduceCtorEq, false_and, and_false, if_false]
        exact hr₁.next x y hxy
      · rw [get_set, if_pos ⟨rfl, rfl⟩, hr.mod_eq hm.right]
        exact (if_neg hc₁).symm ▸ rfl
    · intro x y hxy
      rcases (adj_erase hadj hm).mp hxy with ⟨hxy, -, hxn⟩ | ⟨rfl, rfl⟩
      · have hym : y ≠ m := fun e => hxn (hm.left_unique (e ▸ hxy))
        simp only [get_set, hym, reduceCtorEq, false_and, and_false, if_false]
        exact hr₁.prev x y hxy
      · simp only [get_set, reduceCtorEq, false_and, true_and, if_false, if_true, hr.mod_eq hadj.left]
    · have hlast : A.last ≠ c := by
        have h1 := hadj.lt
        have h2 := A.le_last n hadj.right
        omega
      show UmmHeap.get _ .next A.last = 0
      simp only [get_set, hlast, reduceCtorEq, false_and, and_false, if_false]
      exact hr₁.last
    · refine Links.congr hr₁.links ?_ ?_ <;> intro x _ <;>
        simp only [get_set, reduceCtorEq, false_and, if_false]
    · simp only [get_set, reduceCtorEq, false_and, if_false]
      exact hr₁.lastFree
  · exact hsame.trans ((sameAt_set_header hm.right (Or.inr rfl)).trans
      (sameAt_set_header hadj.left (Or.inl rfl)))

/-- The end of `umm_free` for a block whose neighbours are not free. -/
theorem push (hr : h.Represents A) (hl : Adj A.cuts p c) (hadj : Adj A.cuts c n) (hp : p ∉ A.free)
    (hc : c ∉ A.free) (hn : n ∉ A.free) :
    ∃ h', h.pushFree c = some h' ∧ h'.Represents (A.push p c n hl hadj hp hc hn) ∧
      SameAt (A.push p c n hl hadj hp hc hn).Holds h h' := by
  have hpc := hl.lt
  have hcn := hadj.lt
  have hnlast := A.le_last n hadj.right
  have hc0 : c ≠ 0 := by omega
  obtain ⟨b, ys, hlist⟩ : ∃ b ys, A.free ++ [A.last] = b :: ys := by
    cases hfree : A.free with
    | nil => exact ⟨A.last, [], rfl⟩
    | cons b fs => exact ⟨b, fs ++ [A.last], rfl⟩
  have hlinks := hr.links
  have hnd := A.nodup_ends
  rw [hlist] at hlinks hnd
  obtain ⟨⟨h0b, hb0⟩, -⟩ := List.isChain_cons_cons.mp hlinks
  have hbnode : b ∈ A.free ++ [A.last] := hlist ▸ List.mem_cons_self
  have hbcut : b ∈ A.cuts := Arena.mem_cuts_of_mem_ends (List.mem_cons_of_mem _ hbnode)
  have hbc : b ≠ c := by
    rintro rfl
    rcases List.mem_append.mp hbnode with hb | hb
    · exact hc hb
    · rw [List.mem_singleton] at hb
      omega
  have hb0' : b ≠ 0 := fun e => (List.nodup_cons.mp hnd).1 (e ▸ List.mem_cons_self)
  have hbnum := hr.lt_numblocks hbcut
  have hcnum := hr.lt_numblocks hadj.left
  have h0num := hr.lt_numblocks A.zero_mem
  have hn15 := hr.lt_mask hadj.right
  have hc16 := hr.mod_eq hadj.left
  refine ⟨((((h.set .freePrev b c).set .freeNext c b).set .freePrev c 0).set .freeNext 0 c).set .next
    c (n + 0x8000), ?_, ?_, ?_⟩
  · simp [pushFree, nfree, nblock, read_of_lt, write_of_lt, hbnum, hcnum, h0num, get_set, h0b,
      hr.next_of_notMem hadj hc, or_ummFreelistMask hn15]
  · refine ⟨hr.lt, ?_, ?_, ?_, ?_, ?_⟩
    · intro x y hxy
      have hmem : x ∈ (A.push p c n hl hadj hp hc hn).free ↔ x = c ∨ x ∈ A.free := List.mem_cons
      by_cases hxc : x = c
      · subst hxc
        obtain rfl := hadj.right_unique hxy
        rw [get_set, if_pos ⟨rfl, rfl⟩, if_pos (hmem.mpr (Or.inl rfl))]
        omega
      · have hfree : x ∈ (A.push p c n hl hadj hp hc hn).free ↔ x ∈ A.free :=
          hmem.trans (or_iff_right hxc)
        simp only [get_set, hxc, reduceCtorEq, false_and, and_false, if_false, hfree]
        exact hr.next x y hxy
    · intro x y hxy
      simp only [get_set, reduceCtorEq, false_and, if_false]
      exact hr.prev x y hxy
    · have hlast : A.last ≠ c := by omega
      show UmmHeap.get _ .next A.last = 0
      simp only [get_set, hlast, reduceCtorEq, false_and, and_false, if_false]
      exact hr.last
    · show Links _ _ (0 :: c :: (A.free ++ [A.last]))
      rw [hlist]
      show Links _ _ ([] ++ 0 :: c :: _)
      refine Links.link hlinks hnd ?_ ?_ ?_ ?_ ?_ ?_ ?_
      · rw [List.nil_append, ← hlist, List.mem_cons, List.mem_append, List.mem_singleton]
        rintro (rfl | hx | rfl)
        · exact hc0 rfl
        · exact hc hx
        · omega
      · simp [get_set, hc16]
      · simp [get_set]
      · simp [get_set, hc0, hr.mod_eq hbcut]
      · simp [get_set, hbc, hc16]
      · intro x hx0 hxc
        simp [get_set, hx0, hxc]
      · intro x hxb hxc
        simp [get_set, hxb, hxc]
    · have hlast : A.last ≠ c ∧ A.last ≠ 0 := by omega
      show UmmHeap.get _ .freeNext A.last = 0
      simp only [get_set, hlast.1, hlast.2, reduceCtorEq, false_and, and_false, if_false]
      exact hr.lastFree
  · have hnode : ∀ f v d (h : UmmHeap uc), d = c ∨ d ∈ 0 :: (A.free ++ [A.last]) →
        SameAt (A.push p c n hl hadj hp hc hn).Holds h (h.set f d v) := by
      intro f v d h hd
      refine sameAt_set_free ?_
      show d ∈ 0 :: c :: (A.free ++ [A.last])
      simp only [List.mem_cons] at hd ⊢
      tauto
    have hb : b ∈ 0 :: (A.free ++ [A.last]) := List.mem_cons_of_mem _ hbnode
    exact (hnode _ _ b h (Or.inr hb)).trans ((hnode _ _ c _ (Or.inl rfl)).trans
      ((hnode _ _ c _ (Or.inl rfl)).trans ((hnode _ _ 0 _ (Or.inr List.mem_cons_self)).trans
        (hnode _ _ c _ (Or.inl rfl)))))

/-- `umm_assimilate_down` joins a block to the free one before it. -/
theorem join (hr : h.Represents A) (hl : Adj A.cuts p c) (hadj : Adj A.cuts c n) (hp : p ∈ A.free)
    (hc : c ∉ A.free) (hn : n ∉ A.free) :
    ∃ h', h.ummAssimilateDown c ummFreelistMask = some h' ∧
      h'.Represents (A.join p c n hl hadj hp hc hn) ∧
      SameAt (A.join p c n hl hadj hp hc hn).Holds h h' := by
  have hpc := hl.lt
  have hcn := hadj.lt
  have hpnum := hr.lt_numblocks hl.left
  have hcnum := hr.lt_numblocks hadj.left
  have hnnum := hr.lt_numblocks hadj.right
  have hn15 := hr.lt_mask hadj.right
  refine ⟨(h.set .next p (n + 0x8000)).set .prev n p, ?_, ?_, ?_⟩
  · simp [ummAssimilateDown, nblock, pblock, read_of_lt, write_of_lt, hpnum, hcnum, hnnum, get_set,
      hr.prev p c hl, hr.next_of_notMem hadj hc, or_ummFreelistMask hn15, hpc.ne']
  · refine ⟨hr.lt, ?_, ?_, ?_, ?_, ?_⟩
    · intro x y hxy
      rcases (adj_erase hl hadj).mp hxy with ⟨hxy, hxp, -⟩ | ⟨rfl, rfl⟩
      · simp only [get_set, hxp, reduceCtorEq, false_and, and_false, if_false]
        exact hr.next x y hxy
      · have hx : x ∈ (A.join x c y hl hadj hp hc hn).free := hp
        simp only [get_set, reduceCtorEq, false_and, true_and, if_false, if_true, hx]
        omega
    · intro x y hxy
      rcases (adj_erase hl hadj).mp hxy with ⟨hxy, -, hxc⟩ | ⟨rfl, rfl⟩
      · have hyn : y ≠ n := fun e => hxc (hadj.left_unique (e ▸ hxy))
        simp only [get_set, hyn, reduceCtorEq, false_and, and_false, if_false]
        exact hr.prev x y hxy
      · simp only [get_set, true_and, if_true, hr.mod_eq hl.left]
    · have hlast : A.last ≠ p := fun e => A.last_notMem (e ▸ hp)
      show UmmHeap.get _ .next A.last = 0
      simp only [get_set, hlast, reduceCtorEq, false_and, and_false, if_false]
      exact hr.last
    · refine Links.congr hr.links ?_ ?_ <;> intro x _ <;>
        simp only [get_set, reduceCtorEq, false_and, if_false]
    · simp only [get_set, reduceCtorEq, false_and, if_false]
      exact hr.lastFree
  · have hp' : p ∈ (A.join p c n hl hadj hp hc hn).cuts :=
      Finset.mem_erase.mpr ⟨hpc.ne, hl.left⟩
    have hn' : n ∈ (A.join p c n hl hadj hp hc hn).cuts :=
      Finset.mem_erase.mpr ⟨hcn.ne', hadj.right⟩
    exact (sameAt_set_header hp' (Or.inl rfl)).trans (sameAt_set_header hn' (Or.inr rfl))

/-- The end of `umm_malloc` for a block that is new. -/
theorem grow (hr : h.Represents A) {k : Nat} (hk : 0 < k) (hroom : A.last + k < uc.numblocks) :
    ∃ h', h.extend A.last k = some h' ∧ h'.Represents (A.grow k hk) ∧ SameAt A.Holds h h' := by
  obtain ⟨xs, a, hlist⟩ := Links.exists_last 0 A.free
  have hlinks := hr.links
  have hnd := A.nodup_ends
  rw [hlist] at hlinks hnd
  obtain ⟨-, ⟨hal, hla⟩, -⟩ := Links.mid_iff.mp hlinks
  have hanode : a ∈ 0 :: (A.free ++ [A.last]) := by rw [hlist]; simp
  have hacut := Arena.mem_cuts_of_mem_ends hanode
  have hal' : a ≠ A.last := by
    simp only [List.nodup_append, List.nodup_cons, List.mem_singleton] at hnd
    exact hnd.2.1.1
  have hanum := hr.lt_numblocks hacut
  have hlnum := hr.lt_numblocks A.last_mem
  have hd16 : (A.last + k) % 65536 = A.last + k := by
    have := uc.numblocks_le
    unfold UmmConfig.numblocks at hroom
    omega
  have hd : ∀ x ∈ A.cuts, x ≠ A.last + k := fun x hx => by
    have := A.le_last x hx
    omega
  refine ⟨((⟨(h.set .freeNext a (A.last + k)).mem.copy (8 * (A.last + k)) (8 * A.last) 8⟩ :
    UmmHeap uc).set .next A.last (A.last + k)).set .prev (A.last + k) A.last, ?_, ?_, ?_⟩
  · simp [extend, copyBlock, pfree, read_of_lt, write_of_lt, hanum, hlnum, hroom, hla]
  · refine ⟨hroom, ?_, ?_, ?_, ?_, ?_⟩
    · intro x y hxy
      have hfree : ∀ z, z ∈ (A.grow k hk).free ↔ z ∈ A.free := fun _ => Iff.rfl
      rcases (adj_insert_last A.last_mem A.le_last (by omega)).mp hxy with hxy | ⟨rfl, rfl⟩
      · have hx : x ≠ A.last := fun e => by
          have h1 := hxy.lt
          have h2 := A.le_last y hxy.right
          omega
        simp only [get_set, get_copy, hx, hd x hxy.left, reduceCtorEq, false_and, and_false, if_false,
          hfree]
        exact hr.next x y hxy
      · simp only [get_set, get_copy, reduceCtorEq, false_and, true_and, if_false, if_true, hd16, hfree,
          A.last_notMem, Nat.add_zero]
    · intro x y hxy
      rcases (adj_insert_last A.last_mem A.le_last (by omega)).mp hxy with hxy | ⟨rfl, rfl⟩
      · simp only [get_set, get_copy, hd y hxy.right, reduceCtorEq, false_and, and_false, if_false]
        exact hr.prev x y hxy
      · simp only [get_set, true_and, if_true, hr.mod_eq A.last_mem]
    · show UmmHeap.get _ .next (A.last + k) = 0
      have hne : A.last + k ≠ A.last := by omega
      simp only [get_set, get_copy, hne, reduceCtorEq, false_and, and_false, if_false, if_true]
      exact hr.last
    · show Links _ _ (0 :: (A.free ++ [A.last + k]))
      rw [hlist]
      refine Links.replaceLast hlinks hnd ?_ ?_ ?_ ?_ ?_
      · intro hx
        have hx' : A.last + k ∈ 0 :: (A.free ++ [A.last]) := by
          rw [hlist]
          simp only [List.mem_append, List.mem_cons] at hx ⊢
          tauto
        exact hd _ (Arena.mem_cuts_of_mem_ends hx') rfl
      · simp [get_set, get_copy, hd a hacut, hd16]
      · simp [get_set, get_copy, hla]
      · intro x hxa _ hxd
        simp [get_set, get_copy, hxa, hxd]
      · intro x _ hxd
        simp [get_set, get_copy, hxd]
    · show UmmHeap.get _ .freeNext (A.last + k) = 0
      simp only [get_set, get_copy, hal'.symm, reduceCtorEq, false_and, and_false, if_false, if_true]
      exact hr.lastFree
  · have hbehind : ∀ f v (h : UmmHeap uc), SameAt A.Holds h (h.set f (A.last + k) v) := by
      intro f v h
      refine sameAt_set fun j _ hj => Arena.not_holds_of_last_le (by omega) ?_
      cases f <;> simp only [UmmField.offset] at hj <;> omega
    have hcopy : ∀ h : UmmHeap uc, SameAt A.Holds h
        ⟨h.mem.copy (8 * (A.last + k)) (8 * A.last) 8⟩ := by
      intro h x hx
      refine Bytes.copy_of_notMem ?_
      by_contra hin
      have hsplit : x = 8 * (x / 8) + x % 8 := (Nat.div_add_mod x 8).symm
      rw [hsplit] at hx
      exact Arena.not_holds_of_last_le (by omega) (Nat.mod_lt _ (by decide)) hx
    exact (sameAt_set_free hanode).trans ((hcopy _).trans
      ((sameAt_set_header A.last_mem (Or.inl rfl)).trans (hbehind _ _ _)))

end Represents

variable (uc) in
/-- `umm_malloc` sets up the lists of a heap that is all zeros. -/
theorem represents_start (hN : 1 < uc.numblocks) :
    ∃ h', (init uc).startList = some h' ∧ h'.Represents .start := by
  have hzero : ∀ f b, (init uc).get f b = 0 := fun _ _ => rfl
  refine ⟨((init uc).set .next 0 1).set .freeNext 0 1, ?_, hN, ?_, ?_, ?_, ?_, ?_⟩
  · simp [startList, write_of_lt, show 0 < uc.numblocks by omega]
  · intro b n hadj
    obtain ⟨rfl, rfl⟩ := Arena.adj_start hadj
    simp [get_set, Arena.start]
  · intro b n hadj
    obtain ⟨rfl, rfl⟩ := Arena.adj_start hadj
    simp [get_set, hzero]
  · simp [get_set, Arena.start, hzero]
  · refine Links.pair_iff.mpr ?_
    simp [get_set, hzero, Arena.start]
  · simp [get_set, hzero, Arena.start]

end UmmHeap

end Brtos
