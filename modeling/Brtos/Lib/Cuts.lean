import Mathlib.Data.Finset.Max
import Mathlib.Tactic.Common

/-!
# Brtos.Lib.Cuts

**A line cut into consecutive blocks.** The cuts are a finite set of points of a linear order.
`Adj S b n` says that `n` is the cut behind `b`, so that `[b, n)` is a block. One more cut
splits the block it falls into (`adj_insert`) or adds one at the end (`adj_insert_last`), and
one cut less joins its two blocks (`adj_erase`); all other blocks stay as they are. Two blocks
do not overlap (`Adj.disjoint`), and a walk from block to block comes past every cut
(`cuts_induction`).
-/

variable {ι : Type*} [LinearOrder ι]

/-- `n` is the cut that follows `b`. -/
structure Adj (S : Finset ι) (b n : ι) : Prop where
  left : b ∈ S
  right : n ∈ S
  lt : b < n
  between : ∀ x ∈ S, x ≤ b ∨ n ≤ x

variable {S : Finset ι} {b c m n p x y : ι}

namespace Adj

theorem right_unique (h : Adj S b n) (h' : Adj S b y) : y = n :=
  le_antisymm ((h'.between n h.right).resolve_left h.lt.not_ge)
    ((h.between y h'.right).resolve_left h'.lt.not_ge)

theorem left_unique (h : Adj S b n) (h' : Adj S x n) : x = b :=
  le_antisymm ((h.between x h'.left).resolve_right h'.lt.not_ge)
    ((h'.between b h.left).resolve_right h.lt.not_ge)

/-- Two blocks are the same or do not overlap. -/
theorem disjoint (h : Adj S b n) (h' : Adj S x y) (hne : b ≠ x) : n ≤ x ∨ y ≤ b := by
  rcases h.between x h'.left with hxb | hnx
  · rcases h'.between b h.left with hbx | hyb
    · exact absurd (le_antisymm hbx hxb) hne
    · exact Or.inr hyb
  · exact Or.inl hnx

end Adj

/-- Behind a cut that is not the last one there is a next one. -/
theorem exists_adj_right (hb : b ∈ S) (hm : m ∈ S) (hlt : b < m) : ∃ n, Adj S b n := by
  have hne : (S.filter (b < ·)).Nonempty := ⟨m, Finset.mem_filter.mpr ⟨hm, hlt⟩⟩
  have hmin := Finset.mem_filter.mp (Finset.min'_mem _ hne)
  refine ⟨(S.filter (b < ·)).min' hne, hb, hmin.1, hmin.2, fun x hx => ?_⟩
  rcases le_or_gt x b with hxb | hbx
  · exact Or.inl hxb
  · exact Or.inr (Finset.min'_le _ x (Finset.mem_filter.mpr ⟨hx, hbx⟩))

/-- Before a cut that is not the first one there is one. -/
theorem exists_adj_left (hn : n ∈ S) (hm : m ∈ S) (hlt : m < n) : ∃ b, Adj S b n := by
  have hne : (S.filter (· < n)).Nonempty := ⟨m, Finset.mem_filter.mpr ⟨hm, hlt⟩⟩
  have hmax := Finset.mem_filter.mp (Finset.max'_mem _ hne)
  refine ⟨(S.filter (· < n)).max' hne, hmax.1, hn, hmax.2, fun x hx => ?_⟩
  rcases lt_or_ge x n with hxn | hnx
  · exact Or.inl (Finset.le_max' _ x (Finset.mem_filter.mpr ⟨hx, hxn⟩))
  · exact Or.inr hnx

/-- Between two cuts each point is in a block. -/
theorem exists_block (hm : m ∈ S) (hn : n ∈ S) (hmx : m ≤ x) (hxn : x < n) :
    ∃ b y, Adj S b y ∧ b ≤ x ∧ x < y := by
  have hne : (S.filter (· ≤ x)).Nonempty := ⟨m, Finset.mem_filter.mpr ⟨hm, hmx⟩⟩
  obtain ⟨hbS, hbx⟩ := Finset.mem_filter.mp (Finset.max'_mem _ hne)
  obtain ⟨y, hy⟩ := exists_adj_right hbS hn (hbx.trans_lt hxn)
  refine ⟨_, y, hy, hbx, ?_⟩
  by_contra hyx
  have hmem : y ∈ S.filter (· ≤ x) := Finset.mem_filter.mpr ⟨hy.right, not_lt.mp hyx⟩
  exact hy.lt.not_ge (Finset.le_max' _ y hmem)

/-- A cut inside a block splits it. -/
theorem adj_insert (h : Adj S b n) (hbc : b < c) (hcn : c < n) :
    Adj (insert c S) x y ↔ (Adj S x y ∧ x ≠ b) ∨ (x = b ∧ y = c) ∨ (x = c ∧ y = n) := by
  have hcS : c ∉ S := fun hc => by
    rcases h.between c hc with hle | hle
    · exact hbc.not_ge hle
    · exact hcn.not_ge hle
  constructor
  · rintro ⟨hx, hy, hlt, hbet⟩
    rw [Finset.mem_insert] at hx hy
    rcases hx with rfl | hx
    · refine Or.inr (Or.inr ⟨rfl, ?_⟩)
      have hyS : y ∈ S := hy.resolve_left (ne_of_gt hlt)
      have hny : n ≤ y := (h.between y hyS).resolve_left fun hyb => (hbc.trans hlt).not_ge hyb
      exact le_antisymm ((hbet n (Finset.mem_insert_of_mem h.right)).resolve_left hcn.not_ge) hny
    · rcases hy with rfl | hy
      · refine Or.inr (Or.inl ⟨?_, rfl⟩)
        have hxb : x ≤ b := (h.between x hx).resolve_right fun hnx => (hlt.trans hcn).not_ge hnx
        exact le_antisymm hxb
          ((hbet b (Finset.mem_insert_of_mem h.left)).resolve_right hbc.not_ge)
      · refine Or.inl ⟨⟨hx, hy, hlt, fun z hz => hbet z (Finset.mem_insert_of_mem hz)⟩, ?_⟩
        rintro rfl
        have hny : n ≤ y := (h.between y hy).resolve_left hlt.not_ge
        rcases hbet c (Finset.mem_insert_self c S) with hle | hle
        · exact hbc.not_ge hle
        · exact (hcn.trans_le hny).not_ge hle
  · rintro (⟨hxy, hne⟩ | ⟨rfl, rfl⟩ | ⟨rfl, rfl⟩)
    · refine ⟨Finset.mem_insert_of_mem hxy.left, Finset.mem_insert_of_mem hxy.right, hxy.lt,
        fun z hz => ?_⟩
      rcases Finset.mem_insert.mp hz with rfl | hz
      · rcases hxy.disjoint h hne with hyb | hnx
        · exact Or.inr (hyb.trans hbc.le)
        · exact Or.inl (hcn.le.trans hnx)
      · exact hxy.between z hz
    · refine ⟨Finset.mem_insert_of_mem h.left, Finset.mem_insert_self _ _, hbc, fun z hz => ?_⟩
      rcases Finset.mem_insert.mp hz with rfl | hz
      · exact Or.inr le_rfl
      · exact (h.between z hz).imp_right hcn.le.trans
    · refine ⟨Finset.mem_insert_self _ _, Finset.mem_insert_of_mem h.right, hcn, fun z hz => ?_⟩
      rcases Finset.mem_insert.mp hz with rfl | hz
      · exact Or.inl le_rfl
      · exact (h.between z hz).imp_left (·.trans hbc.le)

/-- A cut behind the last one adds a block. -/
theorem adj_insert_last (hm : m ∈ S) (hle : ∀ z ∈ S, z ≤ m) (hc : m < c) :
    Adj (insert c S) x y ↔ Adj S x y ∨ (x = m ∧ y = c) := by
  constructor
  · rintro ⟨hx, hy, hlt, hbet⟩
    rw [Finset.mem_insert] at hx hy
    have hxS : x ∈ S := by
      refine hx.resolve_left ?_
      rintro rfl
      rcases hy with rfl | hy
      · exact lt_irrefl _ hlt
      · exact (hlt.trans_le (hle y hy)).not_gt hc
    rcases hy with rfl | hy
    · refine Or.inr ⟨le_antisymm (hle x hxS) ?_, rfl⟩
      exact (hbet m (Finset.mem_insert_of_mem hm)).resolve_right hc.not_ge
    · exact Or.inl ⟨hxS, hy, hlt, fun z hz => hbet z (Finset.mem_insert_of_mem hz)⟩
  · rintro (hxy | ⟨rfl, rfl⟩)
    · refine ⟨Finset.mem_insert_of_mem hxy.left, Finset.mem_insert_of_mem hxy.right, hxy.lt,
        fun z hz => ?_⟩
      rcases Finset.mem_insert.mp hz with rfl | hz
      · exact Or.inr ((hle y hxy.right).trans hc.le)
      · exact hxy.between z hz
    · refine ⟨Finset.mem_insert_of_mem hm, Finset.mem_insert_self _ _, hc, fun z hz => ?_⟩
      rcases Finset.mem_insert.mp hz with rfl | hz
      · exact Or.inr le_rfl
      · exact Or.inl (hle z hz)

/-- Without the cut between them two blocks are one. -/
theorem adj_erase (hl : Adj S p c) (hr : Adj S c n) :
    Adj (S.erase c) x y ↔ (Adj S x y ∧ x ≠ p ∧ x ≠ c) ∨ (x = p ∧ y = n) := by
  have hpc : p ≠ c := hl.lt.ne
  have hnc : n ≠ c := hr.lt.ne'
  constructor
  · rintro ⟨hx, hy, hlt, hbet⟩
    obtain ⟨hxc, hxS⟩ := Finset.mem_erase.mp hx
    obtain ⟨hyc, hyS⟩ := Finset.mem_erase.mp hy
    by_cases hxp : x = p
    · subst hxp
      refine Or.inr ⟨rfl, ?_⟩
      have hcy : c ≤ y := (hl.between y hyS).resolve_left hlt.not_ge
      have hny : n ≤ y := (hr.between y hyS).resolve_left fun h => hyc (le_antisymm h hcy)
      exact le_antisymm ((hbet n (Finset.mem_erase.mpr ⟨hnc, hr.right⟩)).resolve_left
        (hl.lt.trans hr.lt).not_ge) hny
    · refine Or.inl ⟨⟨hxS, hyS, hlt, fun z hz => ?_⟩, hxp, hxc⟩
      by_cases hzc : z = c
      · subst hzc
        -- the cut before it is no inner point of the block
        rcases hbet p (Finset.mem_erase.mpr ⟨hpc, hl.left⟩) with hpx | hyp
        · have hcx : z ≤ x := (hl.between x hxS).resolve_left fun h => hxp (le_antisymm h hpx)
          exact Or.inl hcx
        · exact Or.inr (hyp.trans hl.lt.le)
      · exact hbet z (Finset.mem_erase.mpr ⟨hzc, hz⟩)
  · rintro (⟨hxy, hxp, hxc⟩ | ⟨rfl, rfl⟩)
    · refine ⟨Finset.mem_erase.mpr ⟨hxc, hxy.left⟩, Finset.mem_erase.mpr ⟨?_, hxy.right⟩, hxy.lt,
        fun z hz => hxy.between z (Finset.mem_of_mem_erase hz)⟩
      rintro rfl
      exact hxp (hl.left_unique hxy)
    · refine ⟨Finset.mem_erase.mpr ⟨hpc, hl.left⟩, Finset.mem_erase.mpr ⟨hnc, hr.right⟩,
        hl.lt.trans hr.lt, fun z hz => ?_⟩
      obtain ⟨hzc, hz⟩ := Finset.mem_erase.mp hz
      rcases hl.between z hz with hzp | hcz
      · exact Or.inl hzp
      · exact Or.inr ((hr.between z hz).resolve_left fun h => hzc (le_antisymm h hcz))

/-- The cuts before the end of a block are those before it and its own. -/
theorem filter_lt_of_adj (h : Adj S b n) : S.filter (· < n) = insert b (S.filter (· < b)) := by
  ext x
  rw [Finset.mem_insert, Finset.mem_filter, Finset.mem_filter]
  constructor
  · rintro ⟨hx, hxn⟩
    rcases h.between x hx with hxb | hnx
    · exact hxb.eq_or_lt.imp_right fun hlt => ⟨hx, hlt⟩
    · exact absurd hxn hnx.not_gt
  · rintro (rfl | ⟨hx, hxb⟩)
    · exact ⟨h.left, h.lt⟩
    · exact ⟨hx, hxb.trans h.lt⟩

/-- **Walking along the cuts.** What holds at the first cut and is carried over every block
holds at each cut. -/
theorem cuts_induction {P : ι → Prop} (hm : m ∈ S) (hle : ∀ z ∈ S, m ≤ z) (h0 : P m)
    (hstep : ∀ b n, Adj S b n → P b → P n) : ∀ z ∈ S, P z := by
  have hcount : ∀ k, ∀ z ∈ S, (S.filter (· < z)).card = k → P z := by
    intro k
    induction k using Nat.strong_induction_on with
    | _ k ih =>
        intro z hz hk
        rcases (hle z hz).eq_or_lt with rfl | hlt
        · exact h0
        · obtain ⟨b, hb⟩ := exists_adj_left hz hm hlt
          have hsub : S.filter (· < b) ⊂ S.filter (· < z) := by
            refine Finset.ssubset_iff_subset_ne.mpr ⟨?_, fun he => ?_⟩
            · intro x hx
              obtain ⟨hxS, hxb⟩ := Finset.mem_filter.mp hx
              exact Finset.mem_filter.mpr ⟨hxS, hxb.trans hb.lt⟩
            · have hbz : b ∈ S.filter (· < z) := Finset.mem_filter.mpr ⟨hb.left, hb.lt⟩
              rw [← he] at hbz
              exact lt_irrefl b (Finset.mem_filter.mp hbz).2
          exact hstep b z hb (ih _ (hk ▸ Finset.card_lt_card hsub) b hb.left rfl)
  exact fun z hz => hcount _ z hz rfl
