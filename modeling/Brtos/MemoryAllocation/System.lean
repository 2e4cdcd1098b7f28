import Brtos.Lib.ByteStore
import Brtos.Lib.Simulation
import Brtos.MemoryAllocation.Alloc

/-!
# Brtos.MemoryAllocation.System

The heap together with its callers: any sequence of `umm_malloc`, `umm_calloc` and `umm_free`,
with anything stored in between in the blocks that are held. The calls run with interrupts
disabled, so one call is one step; a step that touches memory outside `umm_heap`, or does not
end, does not exist.

`UmmSystem.Inv` is what holds in every state: the heap is as it was at the start, or represents
an arena whose granted blocks are the ones the callers hold, each of the size that was asked
for.
-/

namespace Brtos

/-- The heap and what the callers hold. -/
structure UmmSystem (uc : UmmConfig) where
  heap : UmmHeap uc
  held : List Grant

/-- The most bytes whose blocks an `unsigned short` counts. -/
def ummMost : Nat := 524276

theorem ummBlocks_spec {size : Nat} (h : size ≤ ummMost) :
    0 < ummBlocks size ∧ size + 4 ≤ 8 * ummBlocks size := by
  unfold ummMost at h
  unfold ummBlocks
  split <;> omega

namespace UmmSystem

variable {uc : UmmConfig}

/-- Nothing has been asked for. -/
def init (uc : UmmConfig) : UmmSystem uc := ⟨.init uc, []⟩

/-- One call, or one access to the memory. -/
def step (s : UmmSystem uc) (c : MemCall) : Option (UmmSystem uc × MemRet) :=
  match c with
  | .malloc size => (s.heap.ummMalloc size).map fun (p, h) => (⟨h, c.held s.held (.pointer p)⟩, .pointer p)
  | .calloc num itemSize =>
    (s.heap.ummCalloc num itemSize).map fun (p, h) => (⟨h, c.held s.held (.pointer p)⟩, .pointer p)
  | .free ptr => (s.heap.ummFree ptr).map fun h => (⟨h, c.held s.held .done⟩, .done)
  | .store a v =>
    if a < 8 * uc.numblocks then some (⟨⟨Function.update s.heap.mem a v⟩, s.held⟩, .done) else none
  | .load a => if a < 8 * uc.numblocks then some (s, .byte (s.heap.mem a)) else none

/-- The number of the first block that has never been handed out, 0 at the start. -/
def top (n : Nat) (c : MemCall) (r : MemRet) : Nat :=
  match c, r with
  | .malloc size, .pointer (some p) => max n (p / 8 + ummBlocks size)
  | .calloc num itemSize, .pointer (some p) => max n (p / 8 + ummBlocks (num * itemSize))
  | _, _ => n

/-- It only rises, to the end of the block behind all others. -/
def highWater (tr : List (MemCall × MemRet)) : Nat := tr.foldl (fun n x => top n x.1 x.2) 0

/-- The callers keep to the rules, and a product they pass to `umm_calloc` is a `size_t`. -/
def Obeys (s : UmmSystem uc) (c : MemCall) : Prop :=
  c.Obeys (min ummMost (2 ^ uc.sizeTBits - 1)) s.held

instance (s : UmmSystem uc) (c : MemCall) : Decidable (Obeys s c) :=
  inferInstanceAs (Decidable (c.Obeys _ _))

end UmmSystem

namespace UmmHeap

variable {uc : UmmConfig} {h h' : UmmHeap uc} {A : Arena}

/-- What the callers store is no part of what the heap represents. -/
theorem Represents.congr (hr : h.Represents A) (hsame : ∀ x, ¬ A.Holds x → h'.mem x = h.mem x) :
    h'.Represents A := by
  have hheader : ∀ f b, b ∈ A.cuts → (f = .next ∨ f = .prev) → h'.get f b = h.get f b := by
    intro f b hb hf
    have hoff : f.offset + 1 < 4 := by
      rcases hf with rfl | rfl <;> decide
    exact Bytes.load16_congr (hsame _ (Arena.not_holds_header hb (by omega)))
      (hsame _ (Arena.not_holds_header (k := f.offset + 1) hb hoff))
  have hfree : ∀ f b, b ∈ 0 :: (A.free ++ [A.last]) → h'.get f b = h.get f b := by
    intro f b hb
    have hoff : f.offset + 1 < 8 := by
      cases f <;> decide
    exact Bytes.load16_congr (hsame _ (Arena.not_holds_ends hb (by omega)))
      (hsame _ (Arena.not_holds_ends (k := f.offset + 1) hb hoff))
  refine ⟨hr.lt, ?_, ?_, ?_, ?_, ?_⟩
  · intro b n hadj
    rw [hheader _ b hadj.left (Or.inl rfl), hr.next b n hadj]
  · intro b n hadj
    rw [hheader _ n hadj.right (Or.inr rfl), hr.prev b n hadj]
  · rw [hheader _ _ A.last_mem (Or.inl rfl), hr.last]
  · exact Links.congr hr.links (fun x hx => hfree _ x (List.dropLast_subset _ hx))
      (fun x hx => hfree _ x (List.mem_of_mem_tail hx))
  · rw [hfree _ _ (by simp), hr.lastFree]

end UmmHeap

namespace UmmSystem

variable {uc : UmmConfig} {s t : UmmSystem uc} {n : Nat}

/-- The granted blocks are the ones the callers hold, each with as many blocks as were asked for. -/
structure Holding (A : Arena) (held : List Grant) : Prop where
  nodup : (held.map Grant.ptr).Nodup
  granted : ∀ g ∈ held, g.size ≠ 0 ∧ g.size ≤ ummMost ∧
    ∃ b, g.ptr = UmmHeap.data b ∧ A.Granted b (b + ummBlocks g.size)
  held : ∀ b n, A.Granted b n → ∃ g ∈ held, g.ptr = UmmHeap.data b

/-- What holds in every state; `n` is the first block that has never been handed out. -/
def Inv (s : UmmSystem uc) (n : Nat) : Prop :=
  (s = init uc ∧ n = 0) ∨ ∃ A, s.heap.Represents A ∧ Holding A s.held ∧ A.last = n

namespace Holding

variable {A B : Arena} {held : List Grant} {g k : Grant}

/-- A held byte is a granted byte. -/
theorem holds (hh : Holding A held) (hg : g ∈ held) {x : Nat} (hx : g.Owns x) : A.Holds x := by
  obtain ⟨-, hmost, b, hptr, hgr⟩ := hh.granted g hg
  have hfit := (ummBlocks_spec hmost).2
  have hlo := hx.1
  have hhi := hx.2
  rw [hptr, UmmHeap.data] at hlo hhi
  exact ⟨b, _, hgr, hlo, by omega⟩

/-- Two blocks that are held do not overlap. -/
theorem apart (hh : Holding A held) (hg : g ∈ held) (hk : k ∈ held) (hne : g ≠ k) : g.Apart k := by
  obtain ⟨-, hgmost, b, hgptr, hgr⟩ := hh.granted g hg
  obtain ⟨-, hkmost, c, hkptr, hkr⟩ := hh.granted k hk
  have hgfit := (ummBlocks_spec hgmost).2
  have hkfit := (ummBlocks_spec hkmost).2
  have hbc : b ≠ c := by
    rintro rfl
    exact hne (List.inj_on_of_nodup_map hh.nodup hg hk (hgptr.trans hkptr.symm))
  rw [Grant.Apart, hgptr, hkptr, UmmHeap.data, UmmHeap.data]
  rcases hgr.adj.disjoint hkr.adj hbc with hle | hle <;> omega

/-- A held block ends inside `umm_heap`. -/
theorem le_numblocks {h : UmmHeap uc} (hr : h.Represents A) (hh : Holding A held) (hg : g ∈ held) :
    g.ptr + g.size ≤ 8 * uc.numblocks := by
  obtain ⟨-, hmost, b, hptr, hgr⟩ := hh.granted g hg
  have hfit := (ummBlocks_spec hmost).2
  have hend := hr.lt_numblocks hgr.adj.right
  rw [hptr, UmmHeap.data]
  omega

/-- A request that is served. -/
theorem request (hh : Holding A held) {fit : UmmFit} {size c : Nat} (h0 : size ≠ 0)
    (hmost : size ≤ ummMost) (hs : A.Serves fit (ummBlocks size) c B) :
    Holding B (⟨UmmHeap.data c, size⟩ :: held) := by
  have hnew : ∀ g ∈ held, g.ptr ≠ UmmHeap.data c := by
    rintro g hg hptr
    obtain ⟨-, -, b, hb, hgr⟩ := hh.granted g hg
    obtain rfl : b = c := by
      rw [hptr, UmmHeap.data, UmmHeap.data] at hb
      omega
    exact hs.not_granted hgr
  refine ⟨List.nodup_cons.mpr ⟨?_, hh.nodup⟩, ?_, ?_⟩
  · rintro hmem
    obtain ⟨g, hg, hptr⟩ := List.mem_map.mp hmem
    exact hnew g hg hptr
  · intro g hg
    rcases List.mem_cons.mp hg with rfl | hg
    · exact ⟨h0, hmost, c, rfl, (hs.granted _ _).mpr (Or.inr ⟨rfl, rfl⟩)⟩
    · obtain ⟨hg0, hgmost, b, hptr, hgr⟩ := hh.granted g hg
      exact ⟨hg0, hgmost, b, hptr, (hs.granted _ _).mpr (Or.inl hgr)⟩
  · intro b n hgr
    rcases (hs.granted b n).mp hgr with hgr | ⟨rfl, -⟩
    · obtain ⟨g, hg, hptr⟩ := hh.held b n hgr
      exact ⟨g, List.mem_cons_of_mem _ hg, hptr⟩
    · exact ⟨_, List.mem_cons_self, rfl⟩

/-- A block that is given back. -/
theorem release (hh : Holding A held) {c : Nat}
    (hB : ∀ x y, B.Granted x y ↔ A.Granted x y ∧ x ≠ c) :
    Holding B (held.filter fun g => g.ptr ≠ UmmHeap.data c) := by
  have hdata : ∀ b, UmmHeap.data b = UmmHeap.data c ↔ b = c := by
    intro b
    unfold UmmHeap.data
    omega
  refine ⟨hh.nodup.sublist (List.filter_sublist.map _), ?_, ?_⟩
  · intro g hg
    obtain ⟨hg, hne⟩ := List.mem_filter.mp hg
    obtain ⟨hg0, hmost, b, hptr, hgr⟩ := hh.granted g hg
    refine ⟨hg0, hmost, b, hptr, (hB _ _).mpr ⟨hgr, ?_⟩⟩
    rintro rfl
    simp [hptr] at hne
  · intro b n hgr
    obtain ⟨hgr, hbc⟩ := (hB b n).mp hgr
    obtain ⟨g, hg, hptr⟩ := hh.held b n hgr
    refine ⟨g, List.mem_filter.mpr ⟨hg, ?_⟩, hptr⟩
    rw [decide_eq_true_eq, hptr, ne_eq, hdata]
    exact hbc

theorem nil_start : Holding .start [] :=
  ⟨List.nodup_nil, fun _ hg => absurd hg List.not_mem_nil, fun _ _ hg => absurd hg Arena.not_granted_start⟩

end Holding

/-- What `umm_malloc` does in every state. -/
theorem Inv.ummMalloc (hi : Inv s n) {size : Nat} (hmost : size ≤ ummMost) :
    s.heap.ummMalloc size = some (none, s.heap) ∨
    ∃ h' A B c, s.heap.ummMalloc size = some (some (UmmHeap.data c), h') ∧ h'.Represents B ∧
      size ≠ 0 ∧ Holding A s.held ∧ A.Serves uc.fit (ummBlocks size) c B ∧
      B.last = max n (c + ummBlocks size) ∧ UmmHeap.SameAt A.Holds s.heap h' := by
  by_cases h0 : size = 0
  · exact Or.inl (by simp [UmmHeap.ummMalloc, h0])
  · have hk := (ummBlocks_spec hmost).1
    rcases hi with ⟨rfl, rfl⟩ | ⟨A, hr, hh, rfl⟩
    · rcases UmmHeap.init_ummMalloc uc h0 hk with ⟨h', B, hm, hr', hs⟩ | ⟨hm, -⟩
      · refine Or.inr ⟨h', .start, B, 1, hm, hr', h0, Holding.nil_start, hs, ?_, ?_⟩
        · have hlast : B.last = max 1 (1 + ummBlocks size) := hs.last_eq
          omega
        · rintro x ⟨b, n, hg, -⟩
          exact absurd hg Arena.not_granted_start
      · exact Or.inl hm
    · rcases hr.ummMalloc h0 hk with ⟨h', B, c, hm, hr', hs, hsame, -⟩ | ⟨hm, -⟩
      · exact Or.inr ⟨h', A, B, c, hm, hr', h0, hh, hs, hs.last_eq, hsame⟩
      · exact Or.inl hm

/-- What `umm_calloc` does in every state: the same, and the bytes are zeros. -/
theorem Inv.ummCalloc (hi : Inv s n) {num itemSize : Nat}
    (hmost : num * itemSize ≤ min ummMost (2 ^ uc.sizeTBits - 1)) :
    s.heap.ummCalloc num itemSize = some (none, s.heap) ∨
    ∃ h' A B c, s.heap.ummCalloc num itemSize = some (some (UmmHeap.data c), h') ∧ h'.Represents B ∧
      num * itemSize ≠ 0 ∧ Holding A s.held ∧ A.Serves uc.fit (ummBlocks (num * itemSize)) c B ∧
      B.last = max n (c + ummBlocks (num * itemSize)) ∧ UmmHeap.SameAt A.Holds s.heap h' ∧
      ∀ x, UmmHeap.data c ≤ x → x < UmmHeap.data c + num * itemSize → h'.mem x = 0 := by
  have hmost' : num * itemSize ≤ ummMost := hmost.trans (min_le_left _ _)
  have hsize : itemSize * num % 2 ^ uc.sizeTBits = num * itemSize := by
    rw [Nat.mul_comm]
    have hpos := Nat.two_pow_pos uc.sizeTBits
    have hlt := hmost.trans (min_le_right _ _)
    exact Nat.mod_eq_of_lt (by omega)
  rcases hi.ummMalloc hmost' with hm | ⟨h₁, A, B, c, hm, hr, h0, hh, hs, hlast, hsame⟩
  · exact Or.inl (by simp [UmmHeap.ummCalloc, hsize, hm])
  · have hfit := (ummBlocks_spec hmost').2
    have hgr : B.Granted c (c + ummBlocks (num * itemSize)) :=
      (hs.granted _ _).mpr (Or.inr ⟨rfl, rfl⟩)
    have hholds : ∀ x, UmmHeap.data c ≤ x → x < UmmHeap.data c + num * itemSize → B.Holds x := by
      intro x hlo hhi
      rw [UmmHeap.data] at hlo hhi
      exact ⟨c, _, hgr, hlo, by omega⟩
    have hend : UmmHeap.data c + num * itemSize ≤ 8 * uc.numblocks := by
      have hlt := hr.lt_numblocks hgr.adj.right
      rw [UmmHeap.data]
      omega
    have hout : ∀ x, ¬ (UmmHeap.data c ≤ x ∧ x < UmmHeap.data c + num * itemSize) →
        h₁.mem.fill (UmmHeap.data c) (num * itemSize) 0 x = h₁.mem x := fun x hx =>
      Bytes.fill_of_notMem (by omega)
    refine Or.inr ⟨⟨h₁.mem.fill (UmmHeap.data c) (num * itemSize) 0⟩, A, B, c, ?_, ?_, h0, hh, hs, hlast, ?_,
      ?_⟩
    · simp [UmmHeap.ummCalloc, hsize, hm, hend]
    · exact hr.congr fun x hx => hout x fun hin => hx (hholds x hin.1 hin.2)
    · -- the zeros are in the new block
      intro x hx
      refine (hout x fun hin => ?_).trans (hsame x hx)
      obtain ⟨b, n, hg, hlo, hhi⟩ := hx
      have hlo' := hin.1
      have hhi' := hin.2
      rw [UmmHeap.data] at hlo' hhi'
      have hbc : b ≠ c := by
        rintro rfl
        exact hs.not_granted hg
      have hg' := (hs.granted b n).mpr (Or.inl hg)
      rcases hg'.adj.disjoint hgr.adj hbc with hle | hle <;> omega
    · exact fun x hlo hhi => Bytes.fill_of_mem hlo hhi

/-! ### The callers' view -/

/-- The blocks `umm_heap` has. -/
def UmmGrant (uc : UmmConfig) (g : Grant) : Prop :=
  0 < g.size ∧ g.ptr % 8 = 4 ∧ g.ptr + g.size ≤ 8 * uc.numblocks

theorem Inv.apart (hi : Inv s n) : s.held.Pairwise Grant.Apart := by
  rcases hi with ⟨rfl, -⟩ | ⟨A, -, hh, -⟩
  · exact .nil
  · have hnd : s.held.Nodup := hh.nodup.of_map _
    exact hnd.imp_of_mem fun hg hk hne => hh.apart hg hk hne

/-- What is held lies in `umm_heap`. -/
theorem Inv.le_numblocks (hi : Inv s n) {g : Grant} (hg : g ∈ s.held) :
    g.ptr + g.size ≤ 8 * uc.numblocks := by
  rcases hi with ⟨rfl, -⟩ | ⟨A, hr, hh, -⟩
  · exact absurd hg List.not_mem_nil
  · exact Holding.le_numblocks hr hh hg

/-- The store the callers see. -/
def view (s : UmmSystem uc) (hi : Inv s n) : ByteStore := ⟨s.held, s.heap.mem, hi.apart⟩

/-- A served request, in the callers' view. -/
theorem served {A B : Arena} {h' : UmmHeap uc} {size c : Nat} {call : MemCall} (hi : Inv s n)
    (hr : h'.Represents B) (h0 : size ≠ 0) (hmost : size ≤ ummMost) (hh : Holding A s.held)
    (hs : A.Serves uc.fit (ummBlocks size) c B) (hlast : B.last = max n (c + ummBlocks size))
    (hsame : UmmHeap.SameAt A.Holds s.heap h')
    (htop : top n call (.pointer (some (UmmHeap.data c))) = max n (c + ummBlocks size))
    (hheld : call.held s.held (.pointer (some (UmmHeap.data c))) = ⟨UmmHeap.data c, size⟩ :: s.held)
    (hstore : ∀ a v, call ≠ .store a v) (hload : ∀ a, call ≠ .load a)
    (hzero : ∀ num itemSize, call = .calloc num itemSize → num * itemSize = size ∧
      ∀ x, UmmHeap.data c ≤ x → x < UmmHeap.data c + size → h'.mem x = 0) :
    ∃ hi' : Inv (⟨h', call.held s.held (.pointer (some (UmmHeap.data c)))⟩ : UmmSystem uc)
        (top n call (.pointer (some (UmmHeap.data c)))),
      (view s hi).Allows (UmmGrant uc) call (.pointer (some (UmmHeap.data c))) (view _ hi') := by
  have hh' : Holding B (call.held s.held (.pointer (some (UmmHeap.data c)))) := by
    rw [hheld]
    exact hh.request h0 hmost hs
  refine ⟨Or.inr ⟨B, hr, hh', hlast.trans htop.symm⟩, rfl, ?_, ?_, ?_, ?_, ?_⟩
  · intro g hg
    have hend := Holding.le_numblocks hr hh' hg
    have hg' : g ∈ call.held s.held (.pointer (some (UmmHeap.data c))) := hg
    rw [hheld] at hg'
    rcases List.mem_cons.mp hg' with rfl | hg'
    · refine Or.inr ⟨Nat.pos_of_ne_zero h0, ?_, hend⟩
      show (8 * c + 4) % 8 = 4
      omega
    · exact Or.inl hg'
  · rintro - x ⟨g, hg, hx⟩ -
    exact hsame x (hh.holds hg hx)
  · rintro num itemSize p hcall hp x hlo hhi
    obtain ⟨hsize, hbytes⟩ := hzero num itemSize hcall
    obtain rfl : UmmHeap.data c = p := Option.some.inj (MemRet.pointer.inj hp)
    exact hbytes x hlo (hsize ▸ hhi)
  · exact fun a v hcall => absurd hcall (hstore a v)
  · exact fun a hcall => absurd hcall (hload a)

/-- A call that leaves everything as it was. -/
theorem unchanged (hi : Inv s n) {call : MemCall} {r : MemRet}
    (hheld : call.held s.held r = s.held) (htop : top n call r = n)
    (hstore : ∀ a v, call ≠ .store a v) (hptr : ∀ p, r ≠ .pointer (some p))
    (hload : ∀ a, call = .load a → r = .byte (s.heap.mem a)) :
    ∃ hi' : Inv (⟨s.heap, call.held s.held r⟩ : UmmSystem uc) (top n call r),
      (view s hi).Allows (UmmGrant uc) call r (view _ hi') := by
  have hi' : Inv (⟨s.heap, call.held s.held r⟩ : UmmSystem uc) (top n call r) := by
    rw [hheld, htop]
    exact hi
  refine ⟨hi', rfl, fun g hg => Or.inl ?_, fun _ _ _ _ => rfl, ?_, ?_, hload⟩
  · have hg' : g ∈ call.held s.held r := hg
    rw [hheld] at hg'
    exact hg'
  · exact fun _ _ p _ hp => absurd hp (hptr p)
  · exact fun a v hcall => absurd hcall (hstore a v)

/-- **One step.** A call that obeys the rules is possible in every state, and what it returns
and leaves is what the callers' view allows. -/
theorem Inv.step (hi : Inv s n) {c : MemCall} (ho : Obeys s c) :
    ∃ t r, s.step c = some (t, r) ∧
      ∃ hi' : Inv t (top n c r), (view s hi).Allows (UmmGrant uc) c r (view t hi') := by
  cases c with
  | malloc size =>
      have hmost : size ≤ ummMost := le_trans (b := _) ho (min_le_left _ _)
      rcases hi.ummMalloc hmost with hm | ⟨h', A, B, c, hm, hr, h0, hh, hs, hlast, hsame⟩
      · refine ⟨_, _, by rw [UmmSystem.step, hm]; rfl, ?_⟩
        exact unchanged hi rfl rfl nofun nofun nofun
      · refine ⟨_, _, by rw [UmmSystem.step, hm]; rfl, ?_⟩
        exact served hi hr h0 hmost hh hs hlast hsame (by rw [top, UmmHeap.data_div]) rfl nofun nofun
          nofun
  | calloc num itemSize =>
      rcases hi.ummCalloc ho with hm | ⟨h', A, B, c, hm, hr, h0, hh, hs, hlast, hsame, hzero⟩
      · refine ⟨_, _, by rw [UmmSystem.step, hm]; rfl, ?_⟩
        exact unchanged hi rfl rfl nofun nofun nofun
      · refine ⟨_, _, by rw [UmmSystem.step, hm]; rfl, ?_⟩
        refine served hi hr h0 (le_trans (b := _) ho (min_le_left _ _)) hh hs hlast hsame
          (by rw [top, UmmHeap.data_div]) rfl nofun nofun ?_
        rintro num' itemSize' hcall
        cases hcall
        exact ⟨rfl, hzero⟩
  | free ptr =>
      cases ptr with
      | none => exact ⟨_, _, rfl, unchanged hi rfl rfl nofun nofun nofun⟩
      | some p =>
          obtain ⟨g, hg, hgp⟩ := ho
          rcases hi with ⟨rfl, -⟩ | ⟨A, hr, hh, hlast⟩
          · exact absurd hg List.not_mem_nil
          · obtain ⟨-, -, b, hptr, hgr⟩ := hh.granted g hg
            obtain ⟨h', B, hfree, hr', hlast', hB, hsame⟩ := hr.ummFree hgr
            obtain rfl : p = UmmHeap.data b := hgp.symm.trans hptr
            have hh' := hh.release hB
            refine ⟨_, _, by rw [UmmSystem.step, hfree]; rfl, Or.inr ⟨B, hr', hh', hlast'.trans hlast⟩,
              rfl, ?_, ?_, nofun, nofun, nofun⟩
            · exact fun k hk => Or.inl (List.mem_of_mem_filter hk)
            · rintro - x - ⟨k, hk, hx⟩
              exact hsame x (hh'.holds hk hx)
  | store a v =>
      obtain ⟨g, hg, ha⟩ := ho
      rcases hi with ⟨rfl, -⟩ | ⟨A, hr, hh, hlast⟩
      · exact absurd hg List.not_mem_nil
      · have hlt : a < 8 * uc.numblocks := ha.2.trans_le (Holding.le_numblocks hr hh hg)
        have hother : ∀ x, x ≠ a → Function.update s.heap.mem a v x = s.heap.mem x :=
          fun x hx => Function.update_of_ne hx _ _
        refine ⟨_, _, if_pos hlt, Or.inr ⟨A, hr.congr fun x hx => hother x ?_, hh, hlast⟩, rfl,
          fun k hk => Or.inl hk, fun hno => absurd rfl (hno a v), nofun, ?_, nofun⟩
        · rintro rfl
          exact hx (hh.holds hg ha)
        · rintro b w hcall x -
          cases hcall
          exact Function.update_apply _ _ _ x
  | load a =>
      obtain ⟨g, hg, ha⟩ := ho
      have hlt : a < 8 * uc.numblocks := ha.2.trans_le (hi.le_numblocks hg)
      have hloaded : ∀ b, MemCall.load a = .load b →
          MemRet.byte (s.heap.mem a) = .byte (s.heap.mem b) := by
        rintro b hcall
        cases hcall
        rfl
      exact ⟨_, _, if_pos hlt,
        @unchanged uc s n hi (.load a) (.byte (s.heap.mem a)) rfl rfl nofun nofun hloaded⟩

end UmmSystem

end Brtos
