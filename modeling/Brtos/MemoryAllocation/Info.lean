import Brtos.MemoryAllocation.Store
import Mathlib.Algebra.BigOperators.Group.Finset.Piecewise

/-!
# Brtos.MemoryAllocation.Info

**The heap's accounts are right.** `umm_info` walks along the headers and counts; in every state
that calls can lead to it counts exactly the blocks that are held, and what it calls free is the
rest of the heap (`umm_info_accounts`). Of two neighbours at most one is free, so that there is
at most one free block more than there are held ones.

The walk is counted by `Arena.tally`, the accounts of the blocks before a given one; one round
of the loop takes the tally from one cut to the next (`Arena.tally_of_adj`).
-/

namespace Brtos

namespace Arena

variable {A : Arena} {b n : Nat}

/-- The blocks before block `b`, without the head. -/
def before (A : Arena) (b : Nat) : Finset Nat := (A.cuts.filter (· < b)).erase 0

theorem mem_before {x : Nat} : x ∈ A.before b ↔ x ≠ 0 ∧ x ∈ A.cuts ∧ x < b := by
  rw [before, Finset.mem_erase, Finset.mem_filter]

theorem before_one : A.before 1 = ∅ := by
  refine Finset.eq_empty_of_forall_notMem fun x hx => ?_
  obtain ⟨h0, -, h1⟩ := mem_before.mp hx
  omega

theorem before_of_adj (h : Adj A.cuts b n) (h0 : b ≠ 0) : A.before n = insert b (A.before b) := by
  rw [before, filter_lt_of_adj h, Finset.erase_insert_of_ne h0]
  rfl

theorem notMem_before : b ∉ A.before b := fun h => lt_irrefl b (mem_before.mp h).2.2

/-- The accounts of the blocks before block `b`. -/
def tally (A : Arena) (b : Nat) : UmmHeapInfo where
  totalEntries := (A.before b).card
  usedEntries := ((A.before b).filter (· ∉ A.free)).card
  freeEntries := ((A.before b).filter (· ∈ A.free)).card
  totalBlocks := ∑ x ∈ A.before b, A.size x
  usedBlocks := ∑ x ∈ A.before b with x ∉ A.free, A.size x
  freeBlocks := ∑ x ∈ A.before b with x ∈ A.free, A.size x

theorem tally_zero : A.tally 0 = .zero := by
  have hbefore : A.before 0 = ∅ :=
    Finset.eq_empty_of_forall_notMem fun x hx => Nat.not_lt_zero x (mem_before.mp hx).2.2
  simp only [tally, hbefore]
  rfl

theorem tally_one : A.tally 1 = .zero := by
  simp only [tally, before_one]
  rfl

theorem entries_eq (A : Arena) (b : Nat) :
    (A.tally b).usedEntries + (A.tally b).freeEntries = (A.tally b).totalEntries := by
  rw [add_comm]
  exact Finset.card_filter_add_card_filter_not _

theorem blocks_eq (A : Arena) (b : Nat) :
    (A.tally b).usedBlocks + (A.tally b).freeBlocks = (A.tally b).totalBlocks := by
  rw [add_comm]
  exact Finset.sum_filter_add_sum_filter_not _ _ _

/-- What a block adds. -/
theorem tally_of_adj (h : Adj A.cuts b n) (h0 : b ≠ 0) : A.tally n =
    { totalEntries := (A.tally b).totalEntries + 1
      usedEntries := (A.tally b).usedEntries + if b ∉ A.free then 1 else 0
      freeEntries := (A.tally b).freeEntries + if b ∈ A.free then 1 else 0
      totalBlocks := (A.tally b).totalBlocks + (n - b)
      usedBlocks := (A.tally b).usedBlocks + if b ∉ A.free then n - b else 0
      freeBlocks := (A.tally b).freeBlocks + if b ∈ A.free then n - b else 0 } := by
  have hnot := A.notMem_before (b := b)
  simp only [tally, before_of_adj h h0, Finset.card_filter, Finset.sum_filter, Finset.sum_insert hnot,
    Finset.card_insert_of_notMem hnot, size_eq h, add_comm]

/-- The blocks before a cut are all the numbers before it, but for the head. -/
theorem totalBlocks_eq (A : Arena) : ∀ z ∈ A.cuts, (A.tally z).totalBlocks = z - 1 := by
  refine cuts_induction A.zero_mem (fun z _ => Nat.zero_le z) ?_ fun b n h ih => ?_
  · rw [tally_zero]
    rfl
  · by_cases h0 : b = 0
    · subst h0
      obtain rfl := h.right_unique A.adj_zero
      rw [tally_one]
      rfl
    · have hlt := h.lt
      rw [tally_of_adj h h0]
      dsimp only
      omega

theorem totalEntries_le : (A.tally b).totalEntries ≤ b := by
  have hsub : A.before b ⊆ Finset.range b := fun x hx => Finset.mem_range.mpr (mem_before.mp hx).2.2
  have hcard := Finset.card_le_card hsub
  rwa [Finset.card_range] at hcard

/-- One round of the loop of `umm_info`. -/
theorem count_tally (h : Adj A.cuts b n) (h0 : b ≠ 0) (hn : n < 65536) :
    (A.tally b).count (b ∈ A.free) (n + 65536 - b) = A.tally n := by
  have hlt := h.lt
  have hentries := A.entries_eq b
  have hblocks := A.blocks_eq b
  have htotal := A.totalBlocks_eq b h.left
  have hle := A.totalEntries_le (b := b)
  rw [tally_of_adj h h0]
  by_cases hb : b ∈ A.free
  · simp only [UmmHeapInfo.count, hb, decide_true, if_true, not_true, if_false, UmmHeapInfo.mk.injEq]
    omega
  · simp only [UmmHeapInfo.count, hb, decide_false, if_false, not_false_eq_true, if_true,
      UmmHeapInfo.mk.injEq, Bool.false_eq_true]
    omega

/-- **Free neighbours are joined**, so there are few free blocks: before a block that is not
behind a free one no more than held ones, and before any block at most one more. -/
theorem freeEntries_le (A : Arena) : ∀ z ∈ A.cuts,
    (A.tally z).freeEntries ≤ (A.tally z).usedEntries + 1 ∧
      (z ≠ 0 → (∀ p, Adj A.cuts p z → p ∉ A.free) →
        (A.tally z).freeEntries ≤ (A.tally z).usedEntries) := by
  refine cuts_induction A.zero_mem (fun z _ => Nat.zero_le z) ?_ fun b n h ih => ?_
  · rw [tally_zero]
    exact ⟨Nat.zero_le _, fun h => absurd rfl h⟩
  · by_cases h0 : b = 0
    · subst h0
      obtain rfl := h.right_unique A.adj_zero
      rw [tally_one]
      exact ⟨Nat.zero_le _, fun _ _ => le_rfl⟩
    · rw [tally_of_adj h h0]
      by_cases hb : b ∈ A.free
      · have hle := ih.2 h0 fun p hp hfree => A.coalesced p b hp hfree hb
        simp only [hb, if_true, not_true, if_false]
        exact ⟨by omega, fun _ hno => absurd hb (hno b h)⟩
      · have hle := ih.1
        simp only [hb, if_false, not_false_eq_true, if_true]
        exact ⟨by omega, fun _ _ => by omega⟩

end Arena

namespace UmmHeap

variable {uc : UmmConfig} {h : UmmHeap uc} {A : Arena} {ptr : Option Nat}

/-- The accounts `umm_info` ends with. -/
def accounts (uc : UmmConfig) (A : Arena) : UmmHeapInfo :=
  { A.tally A.last with
    totalBlocks := (A.tally A.last).totalBlocks + (uc.numblocks - A.last)
    freeBlocks := (A.tally A.last).freeBlocks + (uc.numblocks - A.last) }

/-- **The walk.** From any block on, `umm_info` counts the blocks to the end of the arena. -/
theorem Represents.infoFrom (hr : h.Represents A) (hptr : ∀ p, ptr = some p → p % 8 = 4) :
    ∀ fuel b, b ∈ A.cuts → b ≠ 0 → A.last < b + fuel →
      h.infoFrom ptr fuel b (A.tally b) = some (accounts uc A, none) := by
  intro fuel
  have hN := uc.numblocks_le
  induction fuel with
  | zero =>
      intro b hb _ hfuel
      have := A.le_last b hb
      omega
  | succ fuel ih =>
      intro b hb h0 hfuel
      have hread : h.nblock b = some (h.get .next b) := read_of_lt (hr.lt_numblocks hb)
      by_cases hlast : b = A.last
      · subst hlast
        have hblocks := A.blocks_eq A.last
        have htotal := A.totalBlocks_eq A.last hb
        have hlt := hr.lt
        have hnum : uc.numblocks ≤ 0x8000 := uc.numblocks_le
        have hzero : h.get .next A.last &&& ummBlocknoMask = 0 := by
          rw [hr.last]
          rfl
        simp only [UmmHeap.infoFrom, hread, Option.bind_eq_bind, Option.bind_some, hzero, ne_eq,
          not_true, if_false, accounts, Option.some.injEq, Prod.mk.injEq, UmmHeapInfo.mk.injEq,
          true_and, and_true]
        omega
      · obtain ⟨n, hn⟩ := A.exists_right hb hlast
        have hnlt := hr.lt_mask hn.right
        have hlt := hn.lt
        have hne : n ≠ 0 := (Nat.zero_lt_of_lt hlt).ne'
        have hmod : h.get .next b &&& ummBlocknoMask = n := (and_ummBlocknoMask _).trans (hr.next_mod hn)
        have hmask : (h.get .next b &&& ummFreelistMask ≠ 0) ↔ b ∈ A.free := by
          by_cases hfree : b ∈ A.free
          · rw [hr.next_of_mem hn hfree]
            exact iff_of_true (add_and_ummFreelistMask hnlt) hfree
          · rw [hr.next_of_notMem hn hfree]
            exact iff_of_false (not_not.mpr (and_ummFreelistMask hnlt)) hfree
        -- no block is what `ptr` points at
        have hother : ¬ ((h.get .next b &&& ummFreelistMask ≠ 0) ∧ ptr = some (8 * b)) := by
          rintro ⟨-, hp⟩
          have := hptr _ hp
          omega
        have hcount := Arena.count_tally hn h0 (hnlt.trans (by decide))
        simp only [UmmHeap.infoFrom, hread, Option.bind_eq_bind, Option.bind_some, hmod, hne, ne_eq,
          not_false_eq_true, if_true, if_neg hother]
        rw [show (decide _) = (decide (b ∈ A.free)) from decide_eq_decide.mpr hmask, hcount]
        exact ih n hn.right hne (by omega)

theorem Represents.ummInfo (hr : h.Represents A) (hptr : ∀ p, ptr = some p → p % 8 = 4) :
    h.ummInfo ptr = some (accounts uc A, none) := by
  have hread : h.nblock 0 = some (h.get .next 0) := read_of_lt (hr.lt_numblocks A.zero_mem)
  have hone : h.get .next 0 &&& ummBlocknoMask = 1 :=
    (and_ummBlocknoMask _).trans (hr.next_mod Arena.adj_zero)
  have hwalk := hr.infoFrom hptr uc.numblocks 1 A.one_mem Nat.one_ne_zero (by have := hr.lt; omega)
  simp only [UmmHeap.ummInfo, hread, Option.bind_eq_bind, Option.bind_some, hone]
  rw [← Arena.tally_one (A := A)]
  exact hwalk

/-- Before the first request there is nothing to walk along. -/
theorem init_ummInfo : (init uc).ummInfo ptr =
    some ({ UmmHeapInfo.zero with totalBlocks := uc.numblocks, freeBlocks := uc.numblocks }, none) := by
  have hN : 0 < uc.numblocks := uc.numblocks_pos
  have hM : uc.numblocks ≤ 0x8000 := uc.numblocks_le
  have hget : (init uc).get .next 0 = 0 := by
    simp [get, init, Bytes.load16]
  have hread : (init uc).nblock 0 = some 0 := (read_of_lt hN).trans (congrArg some hget)
  have hmod : uc.numblocks % 65536 = uc.numblocks := Nat.mod_eq_of_lt (by omega)
  obtain ⟨fuel, hfuel⟩ := Nat.exists_eq_succ_of_ne_zero hN.ne'
  rw [UmmHeap.ummInfo, hread, hfuel]
  simpa [UmmHeap.infoFrom, hread, UmmHeapInfo.zero, hmod] using hfuel

end UmmHeap

/-- What the accounts say when `held` is what the callers hold, and `blocks` are all there are. -/
structure UmmHeapInfo.Accounts (i : UmmHeapInfo) (held : List Grant) (blocks : Nat) : Prop where
  usedEntries : i.usedEntries = held.length
  usedBlocks : i.usedBlocks = (held.map fun g => ummBlocks g.size).sum
  totalEntries : i.totalEntries = i.usedEntries + i.freeEntries
  totalBlocks : i.totalBlocks = i.usedBlocks + i.freeBlocks
  blocks : i.totalBlocks = blocks
  freeEntries : i.freeEntries ≤ i.usedEntries + 1

namespace UmmSystem

variable {uc : UmmConfig} {s : UmmSystem uc} {n : Nat} {tr : List (MemCall × MemRet)} {A : Arena}
  {held : List Grant}

/-- The held blocks are those `umm_info` calls used. -/
theorem Holding.used_eq (hh : Holding A held) :
    (A.before A.last).filter (· ∉ A.free) = (held.map fun g => g.ptr / 8).toFinset := by
  ext b
  rw [Finset.mem_filter, Arena.mem_before, List.mem_toFinset, List.mem_map]
  constructor
  · rintro ⟨⟨h0, hb, hlt⟩, hfree⟩
    obtain ⟨n, hn⟩ := A.exists_right hb hlt.ne
    obtain ⟨g, hg, hptr⟩ := hh.held b n ⟨hn, h0, hfree⟩
    exact ⟨g, hg, by rw [hptr, UmmHeap.data_div]⟩
  · rintro ⟨g, hg, rfl⟩
    obtain ⟨-, -, b, hptr, hgr⟩ := hh.granted g hg
    rw [hptr, UmmHeap.data_div]
    exact ⟨⟨hgr.ne_zero, hgr.adj.left, hgr.adj.lt.trans_le (A.le_last _ hgr.adj.right)⟩, hgr.notMem⟩

theorem Holding.nodup_div (hh : Holding A held) : (held.map fun g => g.ptr / 8).Nodup := by
  refine List.Nodup.map_on (fun g hg k hk hgk => ?_) (hh.nodup.of_map _)
  obtain ⟨-, -, b, hb, -⟩ := hh.granted g hg
  obtain ⟨-, -, c, hc, -⟩ := hh.granted k hk
  rw [hb, hc, UmmHeap.data_div, UmmHeap.data_div] at hgk
  exact List.inj_on_of_nodup_map hh.nodup hg hk (by rw [hb, hc, hgk])

theorem Holding.accounts {h : UmmHeap uc} (hr : h.Represents A) (hh : Holding A held) :
    (UmmHeap.accounts uc A).Accounts held (uc.numblocks - 1) := by
  have hentries := A.entries_eq A.last
  have hblocks := A.blocks_eq A.last
  have htotal := A.totalBlocks_eq A.last A.last_mem
  have hfree := (A.freeEntries_le A.last A.last_mem).1
  have hlt := hr.lt
  have hone := A.one_le_last
  have hlength : (A.tally A.last).usedEntries = held.length := by
    rw [Arena.tally]
    dsimp only
    rw [hh.used_eq, List.toFinset_card_of_nodup hh.nodup_div, List.length_map]
  have hsum : (A.tally A.last).usedBlocks = (held.map fun g => ummBlocks g.size).sum := by
    rw [Arena.tally]
    dsimp only
    rw [hh.used_eq, List.sum_toFinset _ hh.nodup_div, List.map_map]
    refine congrArg List.sum (List.map_congr_left fun g hg => ?_)
    obtain ⟨-, -, b, hptr, hgr⟩ := hh.granted g hg
    rw [Function.comp_apply, hptr, UmmHeap.data_div, Arena.size_eq hgr.adj]
    omega
  refine ⟨hlength, hsum, hentries.symm, ?_, ?_, hfree⟩
  · simp only [UmmHeap.accounts]
    omega
  · simp only [UmmHeap.accounts]
    omega

/-- What is counted in a state with the invariant. -/
theorem Inv.info (hi : Inv s n) :
    ∃ i : UmmHeapInfo,
      (∀ ptr, (∀ p, ptr = some p → p % 8 = 4) → s.heap.ummInfo ptr = some (i, none)) ∧
      i.Accounts s.held (uc.numblocks - if n = 0 then 0 else 1) ∧
      s.heap.osGetUsedHeapSize = some ((s.held.map fun g => ummBlocks g.size).sum * 8) ∧
      s.heap.osGetFreeHeapSize = some (i.freeBlocks * 8) := by
  obtain ⟨i, hinfo, hacc⟩ : ∃ i : UmmHeapInfo,
      (∀ ptr, (∀ p, ptr = some p → p % 8 = 4) → s.heap.ummInfo ptr = some (i, none)) ∧
      i.Accounts s.held (uc.numblocks - if n = 0 then 0 else 1) := by
    rcases hi with ⟨rfl, rfl⟩ | ⟨A, hrep, hh, rfl⟩
    · refine ⟨_, fun ptr _ => UmmHeap.init_ummInfo, ?_⟩
      constructor <;> simp [UmmHeapInfo.zero, init]
    · have hlast : A.last ≠ 0 := by
        have := A.one_le_last
        omega
      refine ⟨_, fun ptr hptr => hrep.ummInfo hptr, ?_⟩
      rw [if_neg hlast]
      exact Holding.accounts hrep hh
  have hnull := hinfo none (by simp)
  refine ⟨i, hinfo, hacc, ?_, ?_⟩
  · simp [UmmHeap.osGetUsedHeapSize, hnull, hacc.usedBlocks]
  · simp [UmmHeap.osGetFreeHeapSize, hnull]

/-- **The accounts.** In every state `umm_info` returns, for no pointer a caller can have been
given does it recognise a free block, and what it counts is right; so is what
`OSGetUsedHeapSize` and `OSGetFreeHeapSize` make of it. -/
theorem umm_info_accounts (hr : Run step Obeys (init uc) tr s) :
    ∃ i : UmmHeapInfo,
      (∀ ptr, (∀ p, ptr = some p → p % 8 = 4) → s.heap.ummInfo ptr = some (i, none)) ∧
      i.Accounts s.held (uc.numblocks - if highWater tr = 0 then 0 else 1) ∧
      s.heap.osGetUsedHeapSize = some ((s.held.map fun g => ummBlocks g.size).sum * 8) ∧
      s.heap.osGetFreeHeapSize = some (i.freeBlocks * 8) := by
  obtain ⟨hi, -⟩ := run_inv hr
  exact hi.info

set_option maxRecDepth 20000 in
theorem umm_info_accounts_script :
    let s := Run.after step (init .example) storeScript
    ∃ i : UmmHeapInfo, s.heap.ummInfo none = some (i, none) ∧ i.usedBlocks = 4 ∧ i.usedEntries = 3 := by
  intro s
  have hrun : Run step Obeys (init .example) (Run.traceOf step (init .example) storeScript) s :=
    Run.of_admits (by decide +kernel)
  obtain ⟨i, hinfo, hacc, -⟩ := umm_info_accounts hrun
  exact ⟨i, hinfo none (by simp), hacc.usedBlocks.trans (by decide +kernel),
    hacc.usedEntries.trans (by decide +kernel)⟩

end UmmSystem

end Brtos
