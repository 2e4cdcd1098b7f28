import Brtos.MemoryAllocation.System

/-!
# Brtos.MemoryAllocation.Store

**`umm_malloc.c` is an allocator.** Whatever its callers ask for, give back and store, in any
order, as long as they use only what they hold: no call leaves `umm_heap` or fails to return,
blocks that are held at the same time do not overlap, and a block keeps the bytes its holder
puts there (`umm_refines_store`, `umm_read_back`). A request is turned away exactly when there
is no gap of its size between the blocks that are held and no room behind them
(`umm_refuses_iff`): free neighbours are always joined, so that nothing is lost to the order in
which blocks are given back.
-/

namespace Brtos

/-- `ConfigExample/BRTOSConfig.h`. -/
def UmmConfig.example : UmmConfig where
  heapSize := 20 * 1024
  numblocks_pos := by decide
  numblocks_le := by decide
  fit := .first
  sizeTBits := 32
  endian := .little

namespace UmmSystem

variable {uc : UmmConfig} {s t u : UmmSystem uc} {n : Nat} {tr tr' : List (MemCall × MemRet)}

theorem highWater_snoc (tr : List (MemCall × MemRet)) (c : MemCall) (r : MemRet) :
    highWater (tr ++ [(c, r)]) = top (highWater tr) c r := by
  rw [highWater, List.foldl_append]
  rfl

/-- What a step leaves, from the state it is taken in. -/
theorem Inv.step_inv (hi : Inv s n) {c : MemCall} {r : MemRet} (ho : Obeys s c)
    (hs : s.step c = some (t, r)) :
    ∃ hi' : Inv t (top n c r), (view s hi).Allows (UmmGrant uc) c r (view t hi') := by
  obtain ⟨t', r', hs', hview⟩ := hi.step ho
  obtain ⟨rfl, rfl⟩ : t = t' ∧ r = r' := by
    rw [hs] at hs'
    cases hs'
    exact ⟨rfl, rfl⟩
  exact hview

/-- **Every run.** -/
theorem run_inv (hr : Run step Obeys (init uc) tr s) :
    ∃ hi : Inv s (highWater tr), Follows step (fun _ => ByteStore.Allows (UmmGrant uc)) (init uc)
      .empty tr s (view s hi) := by
  induction hr with
  | nil => exact ⟨Or.inl ⟨rfl, rfl⟩, .nil⟩
  | snoc _ ho hs ih =>
      obtain ⟨hi, hf⟩ := ih
      obtain ⟨hi', ha⟩ := hi.step_inv ho hs
      rw [highWater_snoc]
      exact ⟨hi', hf.snoc hs ha⟩

/-- Three blocks, of which the middle one is given back and used again. -/
def storeScript : List MemCall :=
  [.malloc 10, .calloc 3 4, .malloc 4, .store 44 7, .free (some 28), .malloc 1, .free none]

/-- The holder of byte `a` keeps it, and nobody stores there. -/
def Spares (a : Nat) (s : UmmSystem uc) (c : MemCall) : Prop :=
  Obeys s c ∧ ¬ c.StoresAt a ∧ ∀ g ∈ s.held, g.Owns a → c ≠ .free (some g.ptr)

instance (a : Nat) (s : UmmSystem uc) (c : MemCall) : Decidable (Spares a s c) :=
  inferInstanceAs (Decidable (_ ∧ _))

/-- A block is held until it is given back. -/
theorem mem_held {held : List Grant} {g : Grant} (hg : g ∈ held) (c : MemCall) (r : MemRet)
    (hc : c ≠ .free (some g.ptr)) : g ∈ c.held held r := by
  unfold MemCall.held
  split
  · exact List.mem_cons_of_mem _ hg
  · exact List.mem_cons_of_mem _ hg
  · refine List.mem_filter.mpr ⟨hg, ?_⟩
    simp only [ne_eq, decide_eq_true_eq]
    rintro rfl
    exact hc rfl
  · exact hg

/-- **A byte is read back.** What a holder stores at `a` is there until somebody stores at `a`
again or the block is given back, whatever else is asked for, stored or given back meanwhile. -/
theorem umm_read_back {a : Nat} {v : UInt8} {r : MemRet} (hr : Run step Obeys (init uc) tr s)
    (ho : Obeys s (.store a v)) (hs : s.step (.store a v) = some (t, r))
    (hr' : Run step (Spares a) t tr' u) : u.step (.load a) = some (u, .byte v) := by
  obtain ⟨hi, -⟩ := run_inv hr
  obtain ⟨hi', ha⟩ := hi.step_inv ho hs
  obtain ⟨g, hg, hga⟩ := ho
  have ht : (∃ g ∈ t.held, g.Owns a) ∧ t.heap.mem a = v := by
    have hgt : g ∈ t.held := by
      have := mem_held hg (.store a v) r nofun
      rw [show t.held = MemCall.held s.held (.store a v) r from ha.held]
      exact this
    refine ⟨⟨g, hgt, hga⟩, ?_⟩
    have := ha.stored a v rfl a ⟨g, hgt, hga⟩
    rwa [if_pos rfl] at this
  have hu : (∃ n, Inv u n) ∧ (∃ g ∈ u.held, g.Owns a) ∧ u.heap.mem a = v := by
    refine hr'.invariant (P := fun u => (∃ n, Inv u n) ∧ (∃ g ∈ u.held, g.Owns a) ∧ u.heap.mem a = v)
      ⟨⟨_, hi'⟩, ht⟩ ?_
    rintro u c w q ⟨⟨n, hi⟩, ⟨g, hg, hga⟩, hv⟩ ⟨ho, hstore, hfree⟩ hs
    obtain ⟨hi', ha⟩ := hi.step_inv ho hs
    have hgw : g ∈ w.held := by
      have := mem_held hg c q (hfree g hg hga)
      rw [show w.held = MemCall.held u.held c q from ha.held]
      exact this
    refine ⟨⟨_, hi'⟩, ⟨g, hgw, hga⟩, ?_⟩
    rw [← hv]
    exact ha.bytes_eq ⟨g, hg, hga⟩ ⟨g, hgw, hga⟩ fun v hc => hstore (hc ▸ rfl)
  obtain ⟨⟨n, hi⟩, hown, rfl⟩ := hu
  obtain ⟨g, hg, hga⟩ := hown
  exact if_pos (hga.2.trans_le (hi.le_numblocks hg))

set_option maxRecDepth 20000 in
theorem umm_read_back_script :
    let s := Run.after step (init .example) (storeScript.take 3)
    let t := Run.after step s [.store 15 9]
    let u := Run.after step t (storeScript.drop 3)
    u.step (.load 15) = some (u, .byte 9) := by
  intro s t u
  have hrun : Run step Obeys (init .example) (Run.traceOf step (init .example) (storeScript.take 3)) s :=
    Run.of_admits (by decide +kernel)
  have hown : Obeys s (.store 15 9) := by decide +kernel
  have hspares : Run step (Spares 15) t (Run.traceOf step t (storeScript.drop 3)) u :=
    Run.of_admits (by decide +kernel)
  exact umm_read_back hrun hown rfl hspares

/-! ### Requests that are turned away -/

/-- Block number `j` is part of a held block. -/
def Covers (g : Grant) (j : Nat) : Prop := g.ptr / 8 ≤ j ∧ j < g.ptr / 8 + ummBlocks g.size

/-- Below `n` there are `k` consecutive block numbers that nobody holds. -/
def Gap (held : List Grant) (n k : Nat) : Prop :=
  ∃ b, 1 ≤ b ∧ b + k ≤ n ∧ ∀ j, b ≤ j → j < b + k → ∀ g ∈ held, ¬ Covers g j

/-- **Nothing is lost to fragmentation within a gap**: it is one free block. -/
theorem Holding.gap_iff {A : Arena} {held : List Grant} (hh : Holding A held) {k : Nat} (hk : 0 < k) :
    Gap held A.last k ↔ ∃ d ∈ A.free, k ≤ A.size d := by
  have hcov : ∀ b n, A.Granted b n → ∃ g ∈ held, ∀ j, Covers g j ↔ b ≤ j ∧ j < n := by
    intro b n hgr
    obtain ⟨g, hg, hptr⟩ := hh.held b n hgr
    obtain ⟨-, -, c, hptr', hgr'⟩ := hh.granted g hg
    obtain rfl : b = c := by
      rw [hptr, UmmHeap.data, UmmHeap.data] at hptr'
      omega
    obtain rfl := hgr.adj.right_unique hgr'.adj
    refine ⟨g, hg, fun j => ?_⟩
    rw [Covers, hptr, UmmHeap.data_div]
  constructor
  · rintro ⟨b, hb, hbk, hfree⟩
    -- the block that `b` lies in
    obtain ⟨c, n, hadj, hcb, hbn⟩ := exists_block A.zero_mem A.last_mem (Nat.zero_le b) (by omega)
    have hc : c ∈ A.free := by
      by_contra hc
      obtain ⟨g, hg, hj⟩ := hcov c n ⟨hadj, by rintro rfl; have := hadj.right_unique A.adj_zero; omega, hc⟩
      exact hfree b le_rfl (by omega) g hg ((hj b).mpr ⟨hcb, hbn⟩)
    refine ⟨c, hc, ?_⟩
    rw [Arena.size_eq hadj]
    by_contra hlt
    -- the next block begins inside the gap, and is not free
    have hnlast : n ≠ A.last := by omega
    obtain ⟨m, hm⟩ := A.exists_right hadj.right hnlast
    obtain ⟨g, hg, hj⟩ := hcov n m ⟨hm, by omega, A.coalesced c n hadj hc⟩
    exact hfree n hbn.le (by omega) g hg ((hj n).mpr ⟨le_rfl, hm.lt⟩)
  · rintro ⟨d, hd, hk'⟩
    obtain ⟨hcut, hd0, hlast⟩ := A.free_mem d hd
    obtain ⟨n, hadj⟩ := A.exists_right hcut hlast
    have hn := A.le_last n hadj.right
    have hlt := hadj.lt
    rw [Arena.size_eq hadj] at hk'
    refine ⟨d, by omega, by omega, fun j hdj hjk g hg hc => ?_⟩
    obtain ⟨-, -, b, hptr, hgr⟩ := hh.granted g hg
    rw [Covers, hptr, UmmHeap.data_div] at hc
    have hne : d ≠ b := by
      rintro rfl
      exact hgr.notMem hd
    rcases hadj.disjoint hgr.adj hne with hle | hle <;> omega

/-- **Refusal.** A request for memory is turned away, and then changes nothing, exactly when
there is no gap of its size below the first block never handed out, and the heap ends too soon
behind it. -/
theorem umm_refuses_iff (hr : Run step Obeys (init uc) tr s) {size : Nat} (h0 : size ≠ 0)
    (hmost : size ≤ ummMost) :
    s.step (.malloc size) = some (s, .pointer none) ↔
      ¬ Gap s.held (highWater tr) (ummBlocks size) ∧
        uc.numblocks ≤ highWater tr + ummBlocks size + 1 := by
  obtain ⟨hi, -⟩ := run_inv hr
  generalize highWater tr = n at hi ⊢
  have hk := (ummBlocks_spec hmost).1
  have hnone : s.heap.ummMalloc size = some (none, s.heap) ↔
      s.step (.malloc size) = some (s, .pointer none) := by
    rw [UmmSystem.step, Option.map_eq_some_iff]
    constructor
    · intro h
      exact ⟨_, h, rfl⟩
    · rintro ⟨⟨p, h⟩, hm, heq⟩
      cases p with
      | none =>
          obtain ⟨heap, held⟩ := s
          simp only [Prod.mk.injEq, UmmSystem.mk.injEq] at heq
          rw [hm, heq.1.1]
      | some p => simp at heq
  rw [← hnone]
  rcases hi with ⟨rfl, rfl⟩ | ⟨A, hrep, hh, rfl⟩
  · have hgap : ¬ Gap (init uc).held 0 (ummBlocks size) := by
      rintro ⟨b, hb, hbk, -⟩
      omega
    rw [and_iff_right hgap, Nat.zero_add]
    rcases UmmHeap.init_ummMalloc uc h0 hk with ⟨h', B, hm, hr', hs⟩ | ⟨hm, hroom⟩
    · have hlast : B.last = max 1 (1 + ummBlocks size) := hs.last_eq
      have hlt := hr'.lt
      constructor
      · intro h
        simp [init, hm] at h
      · intro h
        omega
    · exact iff_of_true hm hroom
  · rw [hh.gap_iff hk]
    rcases hrep.ummMalloc h0 hk with ⟨h', B, c, hm, -, -, -, hroom⟩ | ⟨hm, hcrowd, hroom⟩
    · constructor
      · intro h
        simp [hm] at h
      · rintro ⟨hno, hend⟩
        have hcrowd : A.Crowded (ummBlocks size) := fun d hd =>
          Nat.not_le.mp fun hle => hno ⟨d, hd, hle⟩
        have := hroom hcrowd
        omega
    · refine iff_of_true hm ⟨?_, hroom⟩
      rintro ⟨d, hd, hle⟩
      exact absurd (hcrowd d hd) (Nat.not_lt.mpr hle)

/-- A request that is turned away changes nothing. -/
theorem Inv.refused (hi : Inv s n) {size : Nat} (hmost : size ≤ ummMost)
    (h : (s.heap.ummMalloc size).map Prod.fst = some none) :
    s.step (.malloc size) = some (s, .pointer none) := by
  rcases hi.ummMalloc hmost with hm | ⟨h', A, B, c, hm, -⟩
  · rw [UmmSystem.step, hm]
    rfl
  · simp [hm] at h

/-- The heap is used up but for the seven blocks that a request for 50 bytes takes. -/
def fullScript : List MemCall := [.malloc 20000, .malloc 400, .malloc 8]

set_option maxRecDepth 20000 in
theorem umm_refuses_iff_script :
    let s := Run.after step (init .example) fullScript
    ¬ Gap s.held (highWater (Run.traceOf step (init .example) fullScript)) 7 := by
  intro s
  have hrun : Run step Obeys (init .example) (Run.traceOf step (init .example) fullScript) s :=
    Run.of_admits (by decide +kernel)
  obtain ⟨hi, -⟩ := run_inv hrun
  have hnone : s.step (.malloc 50) = some (s, .pointer none) := hi.refused (by decide) (by decide +kernel)
  exact ((umm_refuses_iff hrun (by decide) (by decide)).mp hnone).1

end UmmSystem

end Brtos
