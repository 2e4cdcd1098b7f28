import Brtos.Lib.Cuts
import Mathlib.Data.Finset.Max
import Mathlib.Data.List.Nodup
import Mathlib.Order.Interval.Finset.Nat

/-!
# Brtos.MemoryAllocation.Arena

What a heap of `umm_malloc.c` stands for: the **arena**, a line of block numbers cut into
consecutive blocks, with the list of those that are free.

Block 0 is the head of both lists, and what lies from `last` on has never been handed out. The
blocks between them are free or *granted*, and of two neighbours at most one is free. The
operations of this file are those the allocator is put together from: a free block is taken
whole (`take`) or split (`split`), the arena grows at its end (`grow`), a granted block takes
in its free neighbour (`absorb`), becomes free (`push`), or is joined to the free block before
it (`join`). For each of them there is what it does to the granted blocks.
-/

namespace Brtos

/-- The blocks of a heap. -/
structure Arena where
  cuts : Finset Nat
  last : Nat
  free : List Nat
  zero_mem : 0 ∈ cuts
  one_mem : 1 ∈ cuts
  last_mem : last ∈ cuts
  le_last : ∀ b ∈ cuts, b ≤ last
  nodup : free.Nodup
  free_mem : ∀ b ∈ free, b ∈ cuts ∧ b ≠ 0 ∧ b ≠ last
  coalesced : ∀ b n, Adj cuts b n → b ∈ free → n ∉ free

namespace Arena

variable (A : Arena) {b c m n p x y : Nat}

/-- `[b, n)` belongs to a caller. -/
structure Granted (b n : Nat) : Prop where
  adj : Adj A.cuts b n
  ne_zero : b ≠ 0
  notMem : b ∉ A.free

/-- Byte `x` of the heap belongs to a caller. -/
def Holds (x : Nat) : Prop := ∃ b n, A.Granted b n ∧ 8 * b + 4 ≤ x ∧ x < 8 * n

variable {A}

theorem one_le_last : 1 ≤ A.last := A.le_last 1 A.one_mem

theorem adj_zero : Adj A.cuts 0 1 := ⟨A.zero_mem, A.one_mem, Nat.one_pos, fun x _ => by omega⟩

theorem last_notMem : A.last ∉ A.free := fun h => (A.free_mem _ h).2.2 rfl

theorem zero_notMem : 0 ∉ A.free := fun h => (A.free_mem _ h).2.1 rfl

theorem lt_last_of_free (hb : b ∈ A.free) : b < A.last := by
  obtain ⟨hmem, -, hne⟩ := A.free_mem b hb
  exact lt_of_le_of_ne (A.le_last b hmem) hne

/-- Every block but the last has a next one. -/
theorem exists_right (hb : b ∈ A.cuts) (hne : b ≠ A.last) : ∃ n, Adj A.cuts b n :=
  exists_adj_right hb A.last_mem (lt_of_le_of_ne (A.le_last b hb) hne)

/-- Every block but the head has a previous one. -/
theorem exists_left (hb : b ∈ A.cuts) (hne : b ≠ 0) : ∃ p, Adj A.cuts p b :=
  exists_adj_left hb A.zero_mem (Nat.pos_of_ne_zero hne)

/-- The free list with the nodes at its ends has no node twice. -/
theorem nodup_ends : (0 :: (A.free ++ [A.last])).Nodup := by
  have h0 := A.one_le_last
  rw [List.nodup_cons, List.nodup_append]
  refine ⟨?_, A.nodup, List.nodup_singleton _, ?_⟩
  · rw [List.mem_append, List.mem_singleton]
    rintro (h | h)
    · exact A.zero_notMem h
    · omega
  · rintro x hx y hy rfl
    exact A.last_notMem (List.mem_singleton.mp hy ▸ hx)

theorem mem_cuts_of_mem_ends (hx : x ∈ 0 :: (A.free ++ [A.last])) : x ∈ A.cuts := by
  rw [List.mem_cons, List.mem_append, List.mem_singleton] at hx
  rcases hx with rfl | hx | rfl
  · exact A.zero_mem
  · exact (A.free_mem x hx).1
  · exact A.last_mem

/-- The number of blocks in block `b`. -/
def size (A : Arena) (b : Nat) : Nat := (A.cuts.filter (b < ·)).min.untopD b - b

theorem size_eq (h : Adj A.cuts b n) : A.size b = n - b := by
  have hmin : (A.cuts.filter (b < ·)).min = n := by
    refine le_antisymm (Finset.min_le (Finset.mem_filter.mpr ⟨h.right, h.lt⟩)) ?_
    refine Finset.le_min fun x hx => ?_
    obtain ⟨hxS, hbx⟩ := Finset.mem_filter.mp hx
    exact WithTop.coe_le_coe.mpr ((h.between x hxS).resolve_left hbx.not_ge)
  rw [size, hmin]
  rfl

/-- The list of the free blocks is shorter than the arena. -/
theorem length_free_lt : A.free.length < A.last := by
  have hsub : A.free.toFinset ⊆ (Finset.range A.last).erase 0 := by
    intro b hb
    rw [List.mem_toFinset] at hb
    exact Finset.mem_erase.mpr ⟨(A.free_mem b hb).2.1, Finset.mem_range.mpr (A.lt_last_of_free hb)⟩
  have hcard := Finset.card_le_card hsub
  have hone := A.one_le_last
  rw [List.toFinset_card_of_nodup A.nodup,
    Finset.card_erase_of_mem (Finset.mem_range.mpr (by omega)), Finset.card_range] at hcard
  omega

/-! ### Whose a byte is -/

/-- A granted byte lies in one block number of one granted block, behind its header. -/
theorem Holds.block {d k : Nat} (hk : k < 8) (h : A.Holds (8 * d + k)) :
    ∃ b n, A.Granted b n ∧ b ≤ d ∧ d < n ∧ (d = b → 4 ≤ k) := by
  obtain ⟨b, n, hg, hlo, hhi⟩ := h
  exact ⟨b, n, hg, by omega, by omega, by omega⟩

/-- No header is a caller's. -/
theorem not_holds_header {d k : Nat} (hd : d ∈ A.cuts) (hk : k < 4) : ¬ A.Holds (8 * d + k) := by
  intro h
  obtain ⟨b, n, hg, hbd, hdn, hk'⟩ := h.block (by omega)
  have heq : d = b := (hg.adj.between d hd).elim (fun hle => le_antisymm hle hbd) fun hle => by omega
  have := hk' heq
  omega

/-- Nothing of a block that is not granted is a caller's. -/
theorem not_holds_of_adj {d k : Nat} (h : Adj A.cuts b n) (hno : b = 0 ∨ b ∈ A.free) (hbd : b ≤ d)
    (hdn : d < n) (hk : k < 8) : ¬ A.Holds (8 * d + k) := by
  intro hx
  obtain ⟨b', n', hg, hbd', hdn', -⟩ := hx.block hk
  have hne : b ≠ b' := by
    rintro rfl
    exact hno.elim hg.ne_zero hg.notMem
  rcases h.disjoint hg.adj hne with hle | hle <;> omega

/-- Nothing behind the last cut is a caller's. -/
theorem not_holds_of_last_le {d k : Nat} (hd : A.last ≤ d) (hk : k < 8) : ¬ A.Holds (8 * d + k) := by
  intro hx
  obtain ⟨b, n, hg, -, hdn, -⟩ := hx.block hk
  have := A.le_last n hg.adj.right
  omega

/-- No node of the free list, nor of its ends, has anything of a caller's. -/
theorem not_holds_ends {d k : Nat} (hd : d ∈ 0 :: (A.free ++ [A.last])) (hk : k < 8) :
    ¬ A.Holds (8 * d + k) := by
  by_cases hlast : d = A.last
  · exact not_holds_of_last_le hlast.ge hk
  · obtain ⟨n, hn⟩ := exists_right (mem_cuts_of_mem_ends hd) hlast
    refine not_holds_of_adj hn ?_ le_rfl hn.lt hk
    rw [List.mem_cons, List.mem_append, List.mem_singleton] at hd
    exact hd.imp_right fun h => h.resolve_right hlast

/-! ### The operations -/

/-- A heap that nothing has been taken from yet. -/
def start : Arena where
  cuts := {0, 1}
  last := 1
  free := []
  zero_mem := by simp
  one_mem := by simp
  last_mem := by simp
  le_last := by
    intro b hb
    rw [Finset.mem_insert, Finset.mem_singleton] at hb
    omega
  nodup := List.nodup_nil
  free_mem := fun b hb => absurd hb (List.not_mem_nil)
  coalesced := fun b n _ hb => absurd hb (List.not_mem_nil)

theorem adj_start (h : Adj start.cuts b n) : b = 0 ∧ n = 1 := by
  have h1 := h.left
  have h2 := h.right
  have h3 := h.lt
  simp only [start, Finset.mem_insert, Finset.mem_singleton] at h1 h2
  omega

theorem not_granted_start : ¬ start.Granted x y := fun hg => hg.ne_zero (adj_start hg.adj).1

/-- A free block is no longer free. -/
def take (A : Arena) (c : Nat) : Arena where
  cuts := A.cuts
  last := A.last
  free := A.free.erase c
  zero_mem := A.zero_mem
  one_mem := A.one_mem
  last_mem := A.last_mem
  le_last := A.le_last
  nodup := A.nodup.erase c
  free_mem := fun b hb => A.free_mem b (List.mem_of_mem_erase hb)
  coalesced := fun b n h hb hn =>
    A.coalesced b n h (List.mem_of_mem_erase hb) (List.mem_of_mem_erase hn)

theorem granted_take (hc : Adj A.cuts c n) (hfree : c ∈ A.free) :
    (A.take c).Granted x y ↔ A.Granted x y ∨ (x = c ∧ y = n) := by
  have hmem : x ∈ (A.take c).free ↔ x ≠ c ∧ x ∈ A.free := A.nodup.mem_erase_iff
  constructor
  · rintro ⟨hadj, hne, hx⟩
    by_cases hxc : x = c
    · subst hxc
      exact Or.inr ⟨rfl, hc.right_unique hadj⟩
    · exact Or.inl ⟨hadj, hne, fun h => hx (hmem.mpr ⟨hxc, h⟩)⟩
  · rintro (hg | ⟨rfl, rfl⟩)
    · exact ⟨hg.adj, hg.ne_zero, fun h => hg.notMem (hmem.mp h).2⟩
    · exact ⟨hc, (A.free_mem x hfree).2.1, fun h => (hmem.mp h).1 rfl⟩

/-- The end of a block, from `m` on, is split off. -/
def split (A : Arena) (c n m : Nat) (h : Adj A.cuts c n) (hcm : c < m) (hmn : m < n) : Arena where
  cuts := insert m A.cuts
  last := A.last
  free := A.free
  zero_mem := Finset.mem_insert_of_mem A.zero_mem
  one_mem := Finset.mem_insert_of_mem A.one_mem
  last_mem := Finset.mem_insert_of_mem A.last_mem
  le_last := by
    intro b hb
    rcases Finset.mem_insert.mp hb with rfl | hb
    · exact hmn.le.trans (A.le_last n h.right)
    · exact A.le_last b hb
  nodup := A.nodup
  free_mem := fun b hb => ⟨Finset.mem_insert_of_mem (A.free_mem b hb).1, (A.free_mem b hb).2⟩
  coalesced := by
    intro b y hadj hb hy
    have hm : m ∉ A.free := fun hm =>
      (h.between m (A.free_mem m hm).1).elim hcm.not_ge hmn.not_ge
    rcases (adj_insert h hcm hmn).mp hadj with ⟨hadj, -⟩ | ⟨-, rfl⟩ | ⟨rfl, -⟩
    · exact A.coalesced b y hadj hb hy
    · exact hm hy
    · exact hm hb

theorem granted_split {h : Adj A.cuts c n} {hcm : c < m} {hmn : m < n} (hc : c ∈ A.free) :
    (A.split c n m h hcm hmn).Granted x y ↔ A.Granted x y ∨ (x = m ∧ y = n) := by
  constructor
  · rintro ⟨hadj, hne, hx⟩
    rcases (adj_insert h hcm hmn).mp hadj with ⟨hadj, -⟩ | ⟨rfl, -⟩ | ⟨rfl, rfl⟩
    · exact Or.inl ⟨hadj, hne, hx⟩
    · exact absurd hc hx
    · exact Or.inr ⟨rfl, rfl⟩
  · rintro (hg | ⟨rfl, rfl⟩)
    · refine ⟨(adj_insert h hcm hmn).mpr (Or.inl ⟨hg.adj, ?_⟩), hg.ne_zero, hg.notMem⟩
      rintro rfl
      exact hg.notMem hc
    · refine ⟨(adj_insert h hcm hmn).mpr (Or.inr (Or.inr ⟨rfl, rfl⟩)), by omega, fun hx => ?_⟩
      exact (h.between x (A.free_mem x hx).1).elim hcm.not_ge hmn.not_ge

/-- The arena is extended by a granted block of the size `k`. -/
def grow (A : Arena) (k : Nat) (hk : 0 < k) : Arena where
  cuts := insert (A.last + k) A.cuts
  last := A.last + k
  free := A.free
  zero_mem := Finset.mem_insert_of_mem A.zero_mem
  one_mem := Finset.mem_insert_of_mem A.one_mem
  last_mem := Finset.mem_insert_self _ _
  le_last := by
    intro b hb
    rcases Finset.mem_insert.mp hb with rfl | hb
    · exact le_rfl
    · exact (A.le_last b hb).trans (by omega)
  nodup := A.nodup
  free_mem := by
    intro b hb
    have hlt := A.lt_last_of_free hb
    exact ⟨Finset.mem_insert_of_mem (A.free_mem b hb).1, (A.free_mem b hb).2.1, by omega⟩
  coalesced := by
    intro b n hadj hb hn
    rcases (adj_insert_last A.last_mem A.le_last (by omega)).mp hadj with hadj | ⟨rfl, -⟩
    · exact A.coalesced b n hadj hb hn
    · exact A.last_notMem hb

theorem granted_grow {k : Nat} {hk : 0 < k} :
    (A.grow k hk).Granted x y ↔ A.Granted x y ∨ (x = A.last ∧ y = A.last + k) := by
  have hadj : Adj (A.grow k hk).cuts x y ↔ Adj A.cuts x y ∨ (x = A.last ∧ y = A.last + k) :=
    adj_insert_last A.last_mem A.le_last (by omega)
  constructor
  · rintro ⟨h, hne, hx⟩
    exact (hadj.mp h).imp_left fun h => ⟨h, hne, hx⟩
  · rintro (hg | ⟨rfl, rfl⟩)
    · exact ⟨hadj.mpr (Or.inl hg.adj), hg.ne_zero, hg.notMem⟩
    · have := A.one_le_last
      exact ⟨hadj.mpr (Or.inr ⟨rfl, rfl⟩), by omega, A.last_notMem⟩

/-- A granted block takes in the free block behind it. -/
def absorb (A : Arena) (c n : Nat) (h : Adj A.cuts c n) (hn : n ∈ A.free) (hc : c ≠ 0) : Arena where
  cuts := A.cuts.erase n
  last := A.last
  free := A.free.erase n
  zero_mem := Finset.mem_erase.mpr ⟨fun h0 => (A.free_mem n hn).2.1 h0.symm, A.zero_mem⟩
  one_mem := Finset.mem_erase.mpr ⟨by have := h.lt; omega, A.one_mem⟩
  last_mem := Finset.mem_erase.mpr ⟨fun hl => (A.free_mem n hn).2.2 hl.symm, A.last_mem⟩
  le_last := fun b hb => A.le_last b (Finset.mem_of_mem_erase hb)
  nodup := A.nodup.erase n
  free_mem := by
    intro b hb
    obtain ⟨hne, hb⟩ := A.nodup.mem_erase_iff.mp hb
    exact ⟨Finset.mem_erase.mpr ⟨hne, (A.free_mem b hb).1⟩, (A.free_mem b hb).2⟩
  coalesced := by
    intro b y hadj hb hy
    have hb' := List.mem_of_mem_erase hb
    obtain ⟨m, hm⟩ := A.exists_right h.right (A.free_mem n hn).2.2
    rcases (adj_erase h hm).mp hadj with ⟨hadj, -⟩ | ⟨rfl, -⟩
    · exact A.coalesced b y hadj hb' (List.mem_of_mem_erase hy)
    · exact A.coalesced b n h hb' hn

theorem granted_absorb {h : Adj A.cuts c n} {hn : n ∈ A.free} {hc0 : c ≠ 0} (hc : c ∉ A.free)
    (hm : Adj A.cuts n m) : (A.absorb c n h hn hc0).Granted x y ↔
      (A.Granted x y ∧ x ≠ c) ∨ (x = c ∧ y = m) := by
  have hmem : x ∈ (A.absorb c n h hn hc0).free ↔ x ≠ n ∧ x ∈ A.free := A.nodup.mem_erase_iff
  have hcn : c ≠ n := h.lt.ne
  constructor
  · rintro ⟨hadj, hne, hx⟩
    rcases (adj_erase h hm).mp hadj with ⟨hadj, hxc, hxn⟩ | ⟨rfl, rfl⟩
    · exact Or.inl ⟨⟨hadj, hne, fun h => hx (hmem.mpr ⟨hxn, h⟩)⟩, hxc⟩
    · exact Or.inr ⟨rfl, rfl⟩
  · rintro (⟨hg, hxc⟩ | ⟨rfl, rfl⟩)
    · refine ⟨(adj_erase h hm).mpr (Or.inl ⟨hg.adj, hxc, ?_⟩), hg.ne_zero,
        fun hx => hg.notMem (hmem.mp hx).2⟩
      rintro rfl
      exact hg.notMem hn
    · exact ⟨(adj_erase h hm).mpr (Or.inr ⟨rfl, rfl⟩), hc0, fun hx => hc (hmem.mp hx).2⟩

/-- A granted block between two that are not free becomes free. -/
def push (A : Arena) (p c n : Nat) (hl : Adj A.cuts p c) (hr : Adj A.cuts c n) (hp : p ∉ A.free)
    (hc : c ∉ A.free) (hn : n ∉ A.free) : Arena where
  cuts := A.cuts
  last := A.last
  free := c :: A.free
  zero_mem := A.zero_mem
  one_mem := A.one_mem
  last_mem := A.last_mem
  le_last := A.le_last
  nodup := List.nodup_cons.mpr ⟨hc, A.nodup⟩
  free_mem := by
    intro b hb
    rcases List.mem_cons.mp hb with rfl | hb
    · have h1 := hl.lt
      have h2 := hr.lt
      have h3 := A.le_last n hr.right
      exact ⟨hl.right, by omega, by omega⟩
    · exact A.free_mem b hb
  coalesced := by
    intro b y hadj hb hy
    rcases List.mem_cons.mp hb with rfl | hb'
    · obtain rfl := hr.right_unique hadj
      rcases List.mem_cons.mp hy with rfl | hy'
      · exact lt_irrefl _ hadj.lt
      · exact hn hy'
    · rcases List.mem_cons.mp hy with rfl | hy'
      · exact hp (hl.left_unique hadj ▸ hb')
      · exact A.coalesced b y hadj hb' hy'

theorem granted_push {hl : Adj A.cuts p c} {hr : Adj A.cuts c n} {hp : p ∉ A.free}
    {hc : c ∉ A.free} {hn : n ∉ A.free} :
    (A.push p c n hl hr hp hc hn).Granted x y ↔ A.Granted x y ∧ x ≠ c := by
  constructor
  · rintro ⟨hadj, hne, hx⟩
    exact ⟨⟨hadj, hne, fun h => hx (List.mem_cons_of_mem _ h)⟩, fun h => hx (h ▸ List.mem_cons_self)⟩
  · rintro ⟨hg, hxc⟩
    exact ⟨hg.adj, hg.ne_zero, fun h => (List.mem_cons.mp h).elim hxc hg.notMem⟩

/-- A granted block becomes part of the free block before it. -/
def join (A : Arena) (p c n : Nat) (hl : Adj A.cuts p c) (hr : Adj A.cuts c n) (hp : p ∈ A.free)
    (hc : c ∉ A.free) (hn : n ∉ A.free) : Arena where
  cuts := A.cuts.erase c
  last := A.last
  free := A.free
  zero_mem := Finset.mem_erase.mpr ⟨by have := hl.lt; omega, A.zero_mem⟩
  one_mem := by
    have h0 := (A.free_mem p hp).2.1
    have h1 := hl.lt
    exact Finset.mem_erase.mpr ⟨by omega, A.one_mem⟩
  last_mem := by
    have h1 := hr.lt
    have h2 := A.le_last n hr.right
    exact Finset.mem_erase.mpr ⟨by omega, A.last_mem⟩
  le_last := fun b hb => A.le_last b (Finset.mem_of_mem_erase hb)
  nodup := A.nodup
  free_mem := by
    intro b hb
    refine ⟨Finset.mem_erase.mpr ⟨?_, (A.free_mem b hb).1⟩, (A.free_mem b hb).2⟩
    rintro rfl
    exact hc hb
  coalesced := by
    intro b y hadj hb hy
    rcases (adj_erase hl hr).mp hadj with ⟨hadj, -⟩ | ⟨rfl, rfl⟩
    · exact A.coalesced b y hadj hb hy
    · exact hn hy

theorem granted_join {hl : Adj A.cuts p c} {hr : Adj A.cuts c n} {hp : p ∈ A.free}
    {hc : c ∉ A.free} {hn : n ∉ A.free} :
    (A.join p c n hl hr hp hc hn).Granted x y ↔ A.Granted x y ∧ x ≠ c := by
  constructor
  · rintro ⟨hadj, hne, hx⟩
    rcases (adj_erase hl hr).mp hadj with ⟨hadj, -, hxc⟩ | ⟨rfl, -⟩
    · exact ⟨⟨hadj, hne, hx⟩, hxc⟩
    · exact absurd hp hx
  · rintro ⟨hg, hxc⟩
    refine ⟨(adj_erase hl hr).mpr (Or.inl ⟨hg.adj, ?_, hxc⟩), hg.ne_zero, hg.notMem⟩
    rintro rfl
    exact hg.notMem hp

end Arena

end Brtos
