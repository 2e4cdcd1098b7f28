import Brtos.MemoryAllocation.Heap

/-!
# Brtos.MemoryAllocation.Alloc

`umm_malloc` and `umm_free` on a heap that represents an arena.

A release takes one granted block away and leaves the others and their bytes
(`Represents.ummFree`). A request is served from a free block that the search chooses
(`Arena.Chosen`), or from the end of the heap if no free block is large enough, and turned away,
with the heap as it was, if the end is too close (`Represents.ummMalloc`).
-/

namespace Brtos

/-- The free block that serves a request for `k` blocks. -/
structure Arena.Chosen (A : Arena) (fit : UmmFit) (k c : Nat) : Prop where
  mem : c ∈ A.free
  le : k ≤ A.size c
  first : fit = .first → ∃ before after, A.free = before ++ c :: after ∧ ∀ d ∈ before, A.size d < k
  best : fit = .best → ∀ d ∈ A.free, k ≤ A.size d → A.size c ≤ A.size d

/-- No free block is large enough. -/
def Arena.Crowded (A : Arena) (k : Nat) : Prop := ∀ d ∈ A.free, A.size d < k

/-- `B` is `A` with `k` blocks handed out, from `c` on: the end of the chosen free block, or a
new one. -/
structure Arena.Serves (A : Arena) (fit : UmmFit) (k c : Nat) (B : Arena) : Prop where
  granted : ∀ x y, B.Granted x y ↔ A.Granted x y ∨ (x = c ∧ y = c + k)
  place : (∃ f, A.Chosen fit k f ∧ c + k = f + A.size f ∧ B.last = A.last) ∨
    (A.Crowded k ∧ c = A.last ∧ B.last = A.last + k)

/-- What is handed out has not been granted before. -/
theorem Arena.Serves.not_granted {A B : Arena} {fit : UmmFit} {k c y : Nat} (h : A.Serves fit k c B) :
    ¬ A.Granted c y := by
  intro hg
  rcases h.place with ⟨f, hch, hend, -⟩ | ⟨-, rfl, -⟩
  · obtain ⟨hcut, -, hlast⟩ := A.free_mem f hch.mem
    obtain ⟨n, hadj⟩ := A.exists_right hcut hlast
    have hle := hch.le
    have hlt := hadj.lt
    have hlt' := hg.adj.lt
    rw [Arena.size_eq hadj] at hend hle
    rcases hadj.between c hg.adj.left with hcf | hnc
    · obtain rfl : c = f := by omega
      exact hg.notMem hch.mem
    · have hyk : y = c + k := (((h.granted c (c + k)).mpr (Or.inr ⟨rfl, rfl⟩)).adj.right_unique
        ((h.granted c y).mpr (Or.inl hg)).adj)
      omega
  · exact absurd (A.le_last y hg.adj.right) (Nat.not_le.mpr hg.adj.lt)

theorem Arena.Serves.last_eq {A B : Arena} {fit : UmmFit} {k c : Nat} (h : A.Serves fit k c B) :
    B.last = max A.last (c + k) := by
  rcases h.place with ⟨f, hch, hend, hlast⟩ | ⟨-, rfl, hlast⟩
  · obtain ⟨hcut, -, hne⟩ := A.free_mem f hch.mem
    obtain ⟨n, hadj⟩ := A.exists_right hcut hne
    have hlt := hadj.lt
    have hle := A.le_last n hadj.right
    rw [Arena.size_eq hadj] at hend
    omega
  · omega

theorem Arena.Holds.mono {A B : Arena} {x : Nat} (hx : B.Holds x)
    (hAB : ∀ b n, B.Granted b n → A.Granted b n) : A.Holds x := by
  obtain ⟨b, n, hg, hlo, hhi⟩ := hx
  exact ⟨b, n, hAB b n hg, hlo, hhi⟩

namespace UmmHeap

variable {uc : UmmConfig} {h : UmmHeap uc}

namespace Represents

variable {A : Arena} {b c n : Nat}

/-! ### Release -/

/-- `umm_free` of a block whose next one is not free. -/
theorem finishFree (hr : h.Represents A) (hg : A.Granted c n) (hn : n ∉ A.free) :
    ∃ h' B, (do
        if (← h.nblock (← h.pblock c)) &&& ummFreelistMask ≠ 0 then h.ummAssimilateDown c ummFreelistMask
        else h.pushFree c) = some h' ∧
      h'.Represents B ∧ B.last = A.last ∧ (∀ x y, B.Granted x y ↔ A.Granted x y ∧ x ≠ c) ∧
      SameAt B.Holds h h' := by
  obtain ⟨p, hl⟩ := A.exists_left hg.adj.left hg.ne_zero
  have hpblock : h.pblock c = some p := by
    rw [pblock, read_of_lt (hr.lt_numblocks hg.adj.left), hr.prev p c hl]
  have hnblock : h.nblock p = some (h.get .next p) := read_of_lt (hr.lt_numblocks hl.left)
  by_cases hp : p ∈ A.free
  · obtain ⟨h', hjoin, hr', hsame⟩ := hr.join hl hg.adj hp hg.notMem hn
    have hmask : h.get .next p &&& ummFreelistMask ≠ 0 := by
      rw [hr.next_of_mem hl hp]
      exact add_and_ummFreelistMask (hr.lt_mask hl.right)
    refine ⟨h', _, ?_, hr', rfl, fun x y => Arena.granted_join, hsame⟩
    simp [hpblock, hnblock, hmask, hjoin]
  · obtain ⟨h', hpush, hr', hsame⟩ := hr.push hl hg.adj hp hg.notMem hn
    have hmask : h.get .next p &&& ummFreelistMask = 0 := by
      rw [hr.next_of_notMem hl hp]
      exact and_ummFreelistMask (hr.lt_mask hl.right)
    refine ⟨h', _, ?_, hr', rfl, fun x y => Arena.granted_push, hsame⟩
    simp [hpblock, hnblock, hmask, hpush]

/-- **Release.** Of the granted blocks one is gone, and the bytes of the others are as they
were. -/
theorem ummFree (hr : h.Represents A) (hg : A.Granted c n) :
    ∃ h' B, h.ummFree (some (data c)) = some h' ∧ h'.Represents B ∧ B.last = A.last ∧
      (∀ x y, B.Granted x y ↔ A.Granted x y ∧ x ≠ c) ∧ SameAt B.Holds h h' := by
  have hblock : data c / 8 % 65536 = c := by
    rw [data_div]
    exact hr.mod_eq hg.adj.left
  by_cases hn : n ∈ A.free
  · obtain ⟨h₁, hup, hr₁, hsame₁⟩ := hr.absorb hg.adj hg.notMem hg.ne_zero hn
    obtain ⟨m, hm⟩ := A.exists_right hg.adj.right (A.free_mem n hn).2.2
    have hgranted := fun x y => @Arena.granted_absorb A c m n x y hg.adj hn hg.ne_zero hg.notMem hm
    have hm' : m ∉ (A.absorb c n hg.adj hn hg.ne_zero).free := fun h =>
      A.coalesced n m hm hn (List.mem_of_mem_erase h)
    obtain ⟨h', B, hdown, hr', hlast, hB, hsame⟩ :=
      hr₁.finishFree ((hgranted c m).mpr (Or.inr ⟨rfl, rfl⟩)) hm'
    have hB' : ∀ x y, B.Granted x y ↔ A.Granted x y ∧ x ≠ c := by
      intro x y
      rw [hB, hgranted]
      tauto
    refine ⟨h', B, ?_, hr', hlast, hB', ?_⟩
    · simp only [UmmHeap.ummFree, hblock, hup, Option.bind_eq_bind, Option.bind_some]
      exact hdown
    · intro x hx
      rw [hsame x hx]
      exact hsame₁ x (hx.mono fun b n hb => ((hB' b n).mp hb).1)
  · obtain ⟨h', B, hdown, hr', hlast, hB, hsame⟩ := hr.finishFree hg hn
    refine ⟨h', B, ?_, hr', hlast, hB, hsame⟩
    simp only [UmmHeap.ummFree, hblock, hr.ummAssimilateUp_of_notMem hg.adj hg.notMem hn,
      Option.bind_eq_bind, Option.bind_some]
    exact hdown

/-! ### The search -/

/-- The size the search computes. -/
theorem blockSize_eq (hr : h.Represents A) (hc : c ∈ A.free) : h.blockSize c = some (A.size c) := by
  obtain ⟨hcut, -, hlast⟩ := A.free_mem c hc
  obtain ⟨n, hadj⟩ := A.exists_right hcut hlast
  have hlt := hadj.lt
  have hn := hr.lt_mask hadj.right
  have hmod : (n + 65536 - c) % 65536 = n - c := by omega
  simp [blockSize, nblock, read_of_lt (hr.lt_numblocks hcut), and_ummBlocknoMask, hr.next_mod hadj,
    hmod, Arena.size_eq hadj]

/-- The next node behind one of the free list. -/
theorem nfree_eq (hr : h.Represents A) {xs ys : List Nat} (hl : 0 :: (A.free ++ [A.last]) =
    xs ++ c :: n :: ys) : h.nfree c = some n := by
  have hlinks := hr.links
  rw [hl] at hlinks
  have hmem : c ∈ A.cuts := Arena.mem_cuts_of_mem_ends (by rw [hl]; simp)
  rw [nfree, read_of_lt (hr.lt_numblocks hmem), (Links.mid_iff.mp hlinks).2.1.1]

theorem nfree_last (hr : h.Represents A) : h.nfree A.last = some 0 := by
  rw [nfree, read_of_lt (hr.lt_numblocks A.last_mem), hr.lastFree]

/-- What is behind a node of the free list is a node again, or the last block. -/
theorem nfree_suffix (hr : h.Represents A) {xs ys : List Nat} (hl : A.free = xs ++ c :: ys) :
    ∃ d, h.nfree c = some d ∧ d ≠ 0 ∧ (ys ++ [A.last]).head? = some d := by
  have h1 := A.one_le_last
  have hlist : ∀ d zs, ys ++ [A.last] = d :: zs → 0 :: (A.free ++ [A.last]) = (0 :: xs) ++ c :: d :: zs := by
    intro d zs hd
    rw [hl, ← hd]
    simp
  cases ys with
  | nil => exact ⟨A.last, hr.nfree_eq (hlist _ [] rfl), by omega, rfl⟩
  | cons d ys =>
      have hd : d ∈ A.free := by
        rw [hl]
        simp
      exact ⟨d, hr.nfree_eq (hlist d (ys ++ [A.last]) rfl), (A.free_mem d hd).2.1, rfl⟩

/-- First fit stops at the first block that is large enough. -/
theorem scan_first (hr : h.Represents A) (hfit : uc.fit = .first) {k : Nat} (ys : List Nat) :
    ∀ (xs : List Nat) (x : Scan) (fuel : Nat), A.free = xs ++ ys →
      (ys ++ [A.last]).head? = some x.cf → ys.length < fuel →
      ∃ x', h.scan k fuel x = some x' ∧ x'.bestSize = x.bestSize ∧
        ((x'.cf = A.last ∧ ∀ d ∈ ys, A.size d < k) ∨
          ∃ before after, ys = before ++ x'.cf :: after ∧ x'.blockSize = A.size x'.cf ∧
            k ≤ A.size x'.cf ∧ ∀ d ∈ before, A.size d < k) := by
  induction ys with
  | nil =>
      intro xs x fuel hl hcf hfuel
      obtain ⟨fuel, rfl⟩ : ∃ m, fuel = m + 1 := ⟨fuel - 1, by omega⟩
      have hlast : A.last = x.cf := Option.some.inj hcf
      refine ⟨x, ?_, rfl, Or.inl ⟨hlast.symm, fun d hd => absurd hd List.not_mem_nil⟩⟩
      simp [scan, ← hlast, hr.nfree_last]
  | cons c ys ih =>
      intro xs x fuel hl hcf hfuel
      obtain ⟨fuel, rfl⟩ : ∃ m, fuel = m + 1 := ⟨fuel - 1, by omega⟩
      obtain rfl : c = x.cf := Option.some.inj hcf
      obtain ⟨d, hd, hd0, hhead⟩ := hr.nfree_suffix hl
      have hsize := hr.blockSize_eq (c := x.cf) (by rw [hl]; simp)
      by_cases hk : k ≤ A.size x.cf
      · refine ⟨{ x with blockSize := A.size x.cf }, ?_, rfl, Or.inr ⟨[], ys, rfl, rfl, hk, ?_⟩⟩
        · simp [scan, hd, hd0, hsize, hfit, hk]
        · exact fun d hd => absurd hd List.not_mem_nil
      · obtain ⟨x', hx', hbest, hend⟩ := ih (xs ++ [x.cf]) ⟨d, A.size x.cf, x.bestBlock, x.bestSize⟩
          fuel (by rw [hl]; simp) hhead (by simpa using hfuel)
        refine ⟨x', ?_, hbest, hend.imp (And.imp_right fun hall e he => ?_) ?_⟩
        · simp [scan, hd, hd0, hsize, hfit, hk, hx']
        · rcases List.mem_cons.mp he with rfl | he
          · exact Nat.not_le.mp hk
          · exact hall e he
        · rintro ⟨before, after, hys, hbs, hle, hall⟩
          refine ⟨x.cf :: before, after, by rw [hys]; rfl, hbs, hle, fun e he => ?_⟩
          rcases List.mem_cons.mp he with rfl | he
          · exact Nat.not_le.mp hk
          · exact hall e he

/-- Best fit goes through the list and keeps the smallest block that is large enough. -/
theorem scan_best (hr : h.Represents A) (hfit : uc.fit = .best) {k : Nat} (ys : List Nat) :
    ∀ (xs : List Nat) (x : Scan) (fuel : Nat), A.free = xs ++ ys →
      (ys ++ [A.last]).head? = some x.cf → ys.length < fuel →
      ∃ x', h.scan k fuel x = some x' ∧ x'.cf = A.last ∧
        ((x'.bestSize = x.bestSize ∧ x'.bestBlock = x.bestBlock ∧
            ∀ d ∈ ys, k ≤ A.size d → x.bestSize ≤ A.size d) ∨
          (x'.bestBlock ∈ ys ∧ x'.bestSize = A.size x'.bestBlock ∧ k ≤ x'.bestSize ∧
            x'.bestSize < x.bestSize ∧ ∀ d ∈ ys, k ≤ A.size d → x'.bestSize ≤ A.size d)) := by
  induction ys with
  | nil =>
      intro xs x fuel hl hcf hfuel
      obtain ⟨fuel, rfl⟩ : ∃ m, fuel = m + 1 := ⟨fuel - 1, by omega⟩
      have hlast : A.last = x.cf := Option.some.inj hcf
      refine ⟨x, ?_, hlast.symm, Or.inl ⟨rfl, rfl, fun d hd => absurd hd List.not_mem_nil⟩⟩
      simp [scan, ← hlast, hr.nfree_last]
  | cons c ys ih =>
      intro xs x fuel hl hcf hfuel
      obtain ⟨fuel, rfl⟩ : ∃ m, fuel = m + 1 := ⟨fuel - 1, by omega⟩
      obtain rfl : c = x.cf := Option.some.inj hcf
      obtain ⟨d, hd, hd0, hhead⟩ := hr.nfree_suffix hl
      have hsize := hr.blockSize_eq (c := x.cf) (by rw [hl]; simp)
      have hl' : A.free = (xs ++ [x.cf]) ++ ys := by rw [hl]; simp
      have hfuel' : ys.length < fuel := by simpa using hfuel
      by_cases hk : k ≤ A.size x.cf ∧ A.size x.cf < x.bestSize
      · obtain ⟨x', hx', hlast, hend⟩ := ih _ ⟨d, A.size x.cf, x.cf, A.size x.cf⟩ fuel hl' hhead hfuel'
        refine ⟨x', ?_, hlast, Or.inr ?_⟩
        · simp [scan, hd, hd0, hsize, hfit, hk, hx']
        · rcases hend with ⟨hbs, hbb, hall⟩ | ⟨hmem, hbs, hle, hlt, hall⟩
          · refine ⟨hbb ▸ List.mem_cons_self, by rw [hbs, hbb], hbs ▸ hk.1, hbs ▸ hk.2, fun e he hke => ?_⟩
            rcases List.mem_cons.mp he with rfl | he
            · exact hbs.le
            · exact hbs.le.trans (hall e he hke)
          · refine ⟨List.mem_cons_of_mem _ hmem, hbs, hle, hlt.trans hk.2, fun e he hke => ?_⟩
            rcases List.mem_cons.mp he with rfl | he
            · exact hlt.le
            · exact hall e he hke
      · obtain ⟨x', hx', hlast, hend⟩ := ih _ ⟨d, A.size x.cf, x.bestBlock, x.bestSize⟩ fuel hl' hhead
          hfuel'
        have hhere : k ≤ A.size x.cf → x.bestSize ≤ A.size x.cf := fun hke =>
          Nat.not_lt.mp fun hlt => hk ⟨hke, hlt⟩
        refine ⟨x', ?_, hlast, hend.imp ?_ ?_⟩
        · simp [scan, hd, hd0, hsize, hfit, hk, hx']
        · rintro ⟨hbs, hbb, hall⟩
          refine ⟨hbs, hbb, fun e he hke => ?_⟩
          rcases List.mem_cons.mp he with rfl | he
          · exact hhere hke
          · exact hall e he hke
        · rintro ⟨hmem, hbs, hle, hlt, hall⟩
          refine ⟨List.mem_cons_of_mem _ hmem, hbs, hle, hlt, fun e he hke => ?_⟩
          rcases List.mem_cons.mp he with rfl | he
          · exact hlt.le.trans (hhere hke)
          · exact hall e he hke

/-- The search finds the block that serves the request, or the end of the heap. -/
theorem search (hr : h.Represents A) (k : Nat) :
    ∃ cf bs, h.search k = some (cf, bs) ∧
      ((A.Chosen uc.fit k cf ∧ bs = A.size cf) ∨ (cf = A.last ∧ A.Crowded k)) := by
  have hlen : A.free.length < uc.numblocks := by
    have h1 := A.length_free_lt
    have h2 := hr.lt
    omega
  obtain ⟨d, ys, hlist⟩ : ∃ d ys, A.free ++ [A.last] = d :: ys := by
    cases A.free with
    | nil => exact ⟨A.last, [], rfl⟩
    | cons b fs => exact ⟨b, fs ++ [A.last], rfl⟩
  have hnfree : h.nfree 0 = some d := by
    have hends : 0 :: (A.free ++ [A.last]) = [] ++ 0 :: d :: ys := by
      rw [hlist]
      rfl
    exact hr.nfree_eq hends
  have hhead : (A.free ++ [A.last]).head? = some d := by rw [hlist]; rfl
  cases hfit : uc.fit with
  | first =>
      obtain ⟨x, hx, hbest, hend⟩ := hr.scan_first hfit (k := k) A.free [] ⟨d, 0, d, 0x7FFF⟩ _ rfl
        hhead hlen
      refine ⟨x.cf, x.blockSize, ?_, ?_⟩
      · simp [UmmHeap.search, hnfree, hx, hbest]
      · rcases hend with ⟨hlast, hall⟩ | ⟨before, after, hl, hbs, hle, hall⟩
        · exact Or.inr ⟨hlast, hall⟩
        · refine Or.inl ⟨⟨by rw [hl]; simp, hle, fun _ => ⟨before, after, hl, hall⟩, nofun⟩, hbs⟩
  | best =>
      obtain ⟨x, hx, hlast, hend⟩ := hr.scan_best hfit (k := k) A.free [] ⟨d, 0, d, 0x7FFF⟩ _ rfl
        hhead hlen
      rcases hend with ⟨hbs, -, hall⟩ | ⟨hmem, hbs, hle, hlt, hall⟩
      · refine ⟨x.cf, x.blockSize, ?_, Or.inr ⟨hlast, fun d hd => ?_⟩⟩
        · simp [UmmHeap.search, hnfree, hx, hbs]
        · -- no block of the heap has the size the search starts from
          obtain ⟨n, hadj⟩ := A.exists_right (A.free_mem d hd).1 (A.free_mem d hd).2.2
          have h1 := hr.lt_mask hadj.right
          have h2 := (A.free_mem d hd).2.1
          by_contra hk
          have h3 : 0x7FFF ≤ A.size d := hall d hd (Nat.not_lt.mp hk)
          rw [Arena.size_eq hadj] at h3
          omega
      · refine ⟨x.bestBlock, x.bestSize, ?_, Or.inl ⟨⟨hmem, hbs ▸ hle, nofun, fun _ d hd hk => ?_⟩, hbs⟩⟩
        · have hne : x.bestSize ≠ 0x7FFF := Nat.ne_of_lt hlt
          simp [UmmHeap.search, hnfree, hx, hne]
        · rw [← hbs]
          exact hall d hd hk

/-! ### Requests -/

/-- **Request.** Either `k` blocks are handed out, and the callers' bytes are as they were, or
no block is large enough and the end of the heap is too close, and nothing has changed. -/
theorem ummMalloc (hr : h.Represents A) {size : Nat} (h0 : size ≠ 0) (hk : 0 < ummBlocks size) :
    (∃ h' B c, h.ummMalloc size = some (some (data c), h') ∧ h'.Represents B ∧
      A.Serves uc.fit (ummBlocks size) c B ∧ SameAt A.Holds h h' ∧
      (A.Crowded (ummBlocks size) → A.last + ummBlocks size + 1 < uc.numblocks)) ∨
    (h.ummMalloc size = some (none, h) ∧ A.Crowded (ummBlocks size) ∧
      uc.numblocks ≤ A.last + ummBlocks size + 1) := by
  generalize hkdef : ummBlocks size = k at hk ⊢
  obtain ⟨cf, bs, hsearch, ⟨hch, rfl⟩ | ⟨rfl, hcrowd⟩⟩ := hr.search k
  · obtain ⟨hcut, -, hlast⟩ := A.free_mem cf hch.mem
    obtain ⟨n, hadj⟩ := A.exists_right hcut hlast
    have hlt := hadj.lt
    have hle := hch.le
    have hsize := Arena.size_eq hadj
    have hn15 := hr.lt_mask hadj.right
    have hroom : A.Crowded k → A.last + k + 1 < uc.numblocks := fun hcrowd =>
      absurd (hcrowd cf hch.mem) (Nat.not_lt.mpr hle)
    have hnblock : h.nblock cf = some (n + 0x8000) := by
      rw [nblock, read_of_lt (hr.lt_numblocks hcut), hr.next_of_mem hadj hch.mem]
    have hmask : (n + 0x8000) &&& ummBlocknoMask ≠ 0 := by
      rw [and_ummBlocknoMask]
      omega
    by_cases heq : A.size cf = k
    · obtain ⟨h', htake, hr', hsame⟩ := hr.take hch.mem
      refine Or.inl ⟨h', _, cf, ?_, hr', ⟨fun x y => ?_, Or.inl ⟨cf, hch, by rw [heq], rfl⟩⟩, hsame,
        hroom⟩
      · simp [UmmHeap.ummMalloc, h0, hkdef, hsearch, hnblock, hmask, heq, htake]
      · rw [Arena.granted_take hadj hch.mem, show n = cf + k by omega]
    · obtain ⟨h', hnew, hr', hsame⟩ := hr.split hadj hch.mem (show cf < cf + (A.size cf - k) by omega)
        (by omega)
      have hrest : (A.size cf + 65536 - k) % 65536 = A.size cf - k := by omega
      have hblock : (cf + (A.size cf + 65536 - k)) % 65536 = cf + (A.size cf - k) := by omega
      refine Or.inl ⟨h', _, cf + (A.size cf - k), ?_, hr',
        ⟨fun x y => ?_, Or.inl ⟨cf, hch, by omega, rfl⟩⟩, hsame, hroom⟩
      · simp [UmmHeap.ummMalloc, h0, hkdef, hsearch, hnblock, hmask, heq, hrest, hblock, hnew]
      · rw [Arena.granted_split hch.mem, show n = cf + (A.size cf - k) + k by omega]
  · have hnblock : h.nblock A.last = some 0 := by
      rw [nblock, read_of_lt (hr.lt_numblocks A.last_mem), hr.last]
    have hlast : A.last ≠ 0 := by
      have := A.one_le_last
      omega
    by_cases hroom : uc.numblocks ≤ A.last + k + 1
    · refine Or.inr ⟨?_, hcrowd, hroom⟩
      simp [UmmHeap.ummMalloc, h0, hkdef, hsearch, hnblock, hroom]
    · obtain ⟨h', hext, hr', hsame⟩ := hr.grow hk (by omega)
      refine Or.inl ⟨h', _, A.last, ?_, hr', ⟨fun x y => Arena.granted_grow,
        Or.inr ⟨hcrowd, rfl, rfl⟩⟩, hsame, fun _ => Nat.not_le.mp hroom⟩
      simp [UmmHeap.ummMalloc, h0, hkdef, hsearch, hnblock, hroom, hlast, hext]

end Represents

variable (uc) in
/-- The first request. -/
theorem init_ummMalloc {size : Nat} (h0 : size ≠ 0) (hk : 0 < ummBlocks size) :
    (∃ h' B, (init uc).ummMalloc size = some (some (data 1), h') ∧ h'.Represents B ∧
      Arena.start.Serves uc.fit (ummBlocks size) 1 B) ∨
    ((init uc).ummMalloc size = some (none, init uc) ∧ uc.numblocks ≤ ummBlocks size + 1) := by
  generalize hkdef : ummBlocks size = k at hk ⊢
  have hpos : 0 < uc.numblocks := uc.numblocks_pos
  have hzero : ∀ f, (init uc).read f 0 = some 0 := fun f => read_of_lt hpos
  have hsearch : (init uc).search k = some (0, 0) := by
    obtain ⟨m, hm⟩ : ∃ m, uc.numblocks = m + 1 := ⟨uc.numblocks - 1, by omega⟩
    simp [search, nfree, hzero, hm, scan]
  by_cases hroom : uc.numblocks ≤ k + 1
  · refine Or.inr ⟨?_, hroom⟩
    simp [ummMalloc, h0, hkdef, hsearch, nblock, hzero, hroom]
  · obtain ⟨h₁, hstart, hr⟩ := represents_start uc (by omega)
    obtain ⟨h', hext, hr', -⟩ := hr.grow hk (show 1 + k < uc.numblocks by omega)
    refine Or.inl ⟨h', _, ?_, hr', ⟨fun x y => Arena.granted_grow, Or.inr ⟨?_, rfl, rfl⟩⟩⟩
    · have hext' : h₁.extend 1 k = some h' := hext
      simp [ummMalloc, h0, hkdef, hsearch, nblock, hzero, hroom, hstart, hext']
    · exact fun d hd => absurd hd List.not_mem_nil

end UmmHeap

end Brtos
