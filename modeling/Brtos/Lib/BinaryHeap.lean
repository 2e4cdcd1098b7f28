import Mathlib.Logic.Equiv.Basic
import Mathlib.Order.Lattice
import Mathlib.Tactic.Common

/-!
# Brtos.Lib.BinaryHeap

**Binary heaps in arrays that start at 1.** The parent of position `i` is `i / 2`, its
sons are `2 * i` and `2 * i + 1`; `Heap n` says that no entry among the first `n` comes
before its parent.

`siftUp` and `siftDown` move one entry that is out of order to its place. Each has the
lemma that says when it ends in a heap (`siftUp_heap`, `siftDown_heap`) and the lemma
that says it only rearranges the first `n` entries (`siftUp_rearranges`,
`siftDown_rearranges`). An entry smaller than all others is taken to the root
(`siftUp_root`), which is how an inner entry is deleted.
-/

namespace BinaryHeap

variable {α K : Type} [LinearOrder K] {key : α → K} {a b c : Nat → α} {i j k n fuel : Nat}

/-- Exchange two entries. -/
def swapAt (a : Nat → α) (i j : Nat) : Nat → α :=
  Function.update (Function.update a i (a j)) j (a i)

theorem swapAt_eq (a : Nat → α) (i j : Nat) : swapAt a i j = a ∘ Equiv.swap i j := by
  funext k
  simp only [swapAt, Function.comp_apply, Function.update_apply, Equiv.swap_apply_def]
  by_cases hi : k = i
  · subst hi
    by_cases hj : k = j
    · subst hj
      simp
    · simp [hj]
  · by_cases hj : k = j
    · subst hj
      simp [hi]
    · simp [hi, hj]

theorem swapAt_left (a : Nat → α) (i j : Nat) : swapAt a i j i = a j := by
  simp [swapAt_eq]

theorem swapAt_right (a : Nat → α) (i j : Nat) : swapAt a i j j = a i := by
  simp [swapAt_eq]

theorem swapAt_of_ne (hi : k ≠ i) (hj : k ≠ j) : swapAt a i j k = a k := by
  simp [swapAt_eq, Equiv.swap_apply_of_ne_of_ne hi hj]

/-! ### Rearrangements -/

/-- `b` is `a` with its first `n` entries in another order. -/
def Rearranges (n : Nat) (a b : Nat → α) : Prop :=
  ∃ σ : Equiv.Perm Nat, (∀ j, ¬ (1 ≤ j ∧ j ≤ n) → σ j = j) ∧ b = a ∘ σ

theorem Rearranges.refl (n : Nat) (a : Nat → α) : Rearranges n a a :=
  ⟨Equiv.refl Nat, fun _ _ => rfl, rfl⟩

theorem Rearranges.trans (h : Rearranges n a b) (h' : Rearranges n b c) : Rearranges n a c := by
  obtain ⟨σ, hσ, rfl⟩ := h
  obtain ⟨τ, hτ, rfl⟩ := h'
  refine ⟨τ.trans σ, fun j hj => ?_, rfl⟩
  rw [Equiv.trans_apply, hτ j hj, hσ j hj]

theorem rearranges_swapAt (hi : 1 ≤ i ∧ i ≤ n) (hj : 1 ≤ j ∧ j ≤ n) :
    Rearranges n a (swapAt a i j) := by
  refine ⟨Equiv.swap i j, fun k hk => ?_, swapAt_eq a i j⟩
  refine Equiv.swap_apply_of_ne_of_ne ?_ ?_
  · rintro rfl
    exact hk hi
  · rintro rfl
    exact hk hj

theorem Rearranges.outside (h : Rearranges n a b) (hj : ¬ (1 ≤ j ∧ j ≤ n)) : b j = a j := by
  obtain ⟨σ, hσ, rfl⟩ := h
  rw [Function.comp_apply, hσ j hj]

/-- Every entry of `b` is one of `a`, and comes from its own place there. -/
theorem Rearranges.source (h : Rearranges n a b) :
    ∃ f : Nat → Nat, Function.Injective f ∧
      ∀ j, 1 ≤ j → j ≤ n → 1 ≤ f j ∧ f j ≤ n ∧ b j = a (f j) := by
  obtain ⟨σ, hσ, rfl⟩ := h
  refine ⟨σ, σ.injective, fun j hj hn => ?_⟩
  have hin : 1 ≤ σ j ∧ σ j ≤ n := by
    by_contra hout
    have := σ.injective (hσ (σ j) hout)
    rw [this] at hout
    exact hout ⟨hj, hn⟩
  exact ⟨hin.1, hin.2, rfl⟩

theorem Rearranges.symm (h : Rearranges n a b) : Rearranges n b a := by
  obtain ⟨σ, hσ, rfl⟩ := h
  refine ⟨σ.symm, fun j hj => ?_, ?_⟩
  · rw [Equiv.symm_apply_eq, hσ j hj]
  · funext j
    simp

/-! ### Heaps -/

/-- No entry among the first `n` comes before its parent. -/
def Heap (key : α → K) (n : Nat) (a : Nat → α) : Prop :=
  ∀ i, 2 ≤ i → i ≤ n → key (a (i / 2)) ≤ key (a i)

/-- The root of a heap is minimal. -/
theorem Heap.root_le (h : Heap key n a) : ∀ i, 1 ≤ i → i ≤ n → key (a 1) ≤ key (a i) := by
  intro i
  induction i using Nat.strongRecOn with
  | ind i ih =>
      intro hi hn
      rcases Nat.lt_or_ge i 2 with hlt | hge
      · obtain rfl : i = 1 := by omega
        exact le_rfl
      · exact (ih (i / 2) (by omega) (by omega) (by omega)).trans (h i hge hn)

/-- The order of a heap, except that the entry at `k` may come before its ancestors. -/
structure UpHeap (key : α → K) (n : Nat) (a : Nat → α) (k : Nat) : Prop where
  except : ∀ i, 2 ≤ i → i ≤ n → i ≠ k → key (a (i / 2)) ≤ key (a i)
  grand : 2 ≤ k → ∀ i, 2 ≤ i → i ≤ n → i / 2 = k → key (a (k / 2)) ≤ key (a i)

/-- The order of a heap, except that the entry at `k` may come after its descendants. -/
structure DownHeap (key : α → K) (n : Nat) (a : Nat → α) (k : Nat) : Prop where
  except : ∀ i, 2 ≤ i → i ≤ n → i / 2 ≠ k → key (a (i / 2)) ≤ key (a i)
  grand : 2 ≤ k → ∀ i, 2 ≤ i → i ≤ n → i / 2 = k → key (a (k / 2)) ≤ key (a i)

/-- Exchange the entry at `k` with its parent while it comes before it. -/
def siftUp (key : α → K) : Nat → (Nat → α) → Nat → (Nat → α)
  | 0, a, _ => a
  | fuel + 1, a, k =>
    if 1 < k ∧ key (a k) < key (a (k / 2)) then siftUp key fuel (swapAt a (k / 2) k) (k / 2) else a

/-- One step up. -/
theorem UpHeap.swap (h : UpHeap key n a k) (hk : 2 ≤ k) (hn : k ≤ n)
    (hlt : key (a k) < key (a (k / 2))) : UpHeap key n (swapAt a (k / 2) k) (k / 2) := by
  have hpk : k / 2 ≠ k := by omega
  constructor
  · intro i hi hin hik
    by_cases h1 : i = k
    · -- the former parent is now below
      rw [h1, swapAt_left, swapAt_right]
      exact hlt.le
    · rw [swapAt_of_ne hik h1]
      by_cases h2 : i / 2 = k
      · rw [h2, swapAt_right]
        exact h.grand hk i hi hin h2
      · by_cases h3 : i / 2 = k / 2
        · rw [h3, swapAt_left]
          have := h.except i hi hin h1
          rw [h3] at this
          exact hlt.le.trans this
        · rw [swapAt_of_ne h3 h2]
          exact h.except i hi hin h1
  · intro hk2 i hi hin hik
    have hpar := h.except (k / 2) hk2 (by omega) hpk
    rw [swapAt_of_ne (show k / 2 / 2 ≠ k / 2 by omega) (show k / 2 / 2 ≠ k by omega)]
    by_cases h1 : i = k
    · rw [h1, swapAt_right]
      exact hpar
    · rw [swapAt_of_ne (show i ≠ k / 2 by omega) h1]
      have := h.except i hi hin h1
      rw [hik] at this
      exact hpar.trans this

/-- **Sifting up restores the heap.** -/
theorem siftUp_heap : ∀ {fuel k : Nat} {a : Nat → α}, UpHeap key n a k → k ≤ n → k ≤ fuel →
    Heap key n (siftUp key fuel a k)
  | 0, k, a, h, _, hf => fun i hi hin => h.except i hi hin (by omega)
  | fuel + 1, k, a, h, hn, hf => by
      unfold siftUp
      split
      · rename_i hc
        exact siftUp_heap (h.swap hc.1 hn hc.2) (by omega) (by omega)
      · rename_i hc
        intro i hi hin
        by_cases hik : i = k
        · subst hik
          by_contra hlt
          exact hc ⟨hi, lt_of_not_ge hlt⟩
        · exact h.except i hi hin hik

theorem siftUp_rearranges : ∀ {fuel k : Nat} {a : Nat → α}, 1 ≤ k → k ≤ n →
    Rearranges n a (siftUp key fuel a k)
  | 0, k, a, _, _ => .refl n a
  | fuel + 1, k, a, h1, hn => by
      unfold siftUp
      split
      · exact (rearranges_swapAt (by omega) (by omega)).trans
          (siftUp_rearranges (by omega) (by omega))
      · exact .refl n a

/-- Sifting up from `k` takes at most `k` steps. -/
theorem siftUp_succ : ∀ {fuel k : Nat} {a : Nat → α}, k ≤ fuel →
    siftUp key (fuel + 1) a k = siftUp key fuel a k
  | 0, k, a, hf => if_neg fun h => by omega
  | fuel + 1, k, a, hf => by
      rw [siftUp]
      conv_rhs => rw [siftUp]
      split
      · exact siftUp_succ (by omega)
      · rfl

theorem siftUp_of_le (hk : k ≤ fuel) : siftUp key fuel a k = siftUp key k a k := by
  induction hk with
  | refl => rfl
  | step hk ih => rw [siftUp_succ hk, ih]

/-- The root stays where nothing that moves up comes before it. -/
theorem siftUp_root_eq : ∀ {fuel k : Nat} {a : Nat → α}, 1 < k → ¬ key (a k) < key (a 1) →
    siftUp key fuel a k 1 = a 1
  | 0, _, _, _, _ => rfl
  | fuel + 1, k, a, hk, hle => by
      unfold siftUp
      by_cases hup : 1 < k ∧ key (a k) < key (a (k / 2))
      · have hparent : k / 2 ≠ 1 := by
          intro h1
          rw [h1] at hup
          exact hle hup.2
        rw [if_pos hup, siftUp_root_eq (by omega), swapAt_of_ne (by omega) (by omega)]
        rw [swapAt_left, swapAt_of_ne (by omega) (by omega)]
        exact hle
      · rw [if_neg hup]

/-- An entry that comes before all others ends at the root. -/
theorem siftUp_root : ∀ {fuel k : Nat} {a : Nat → α}, 1 ≤ k → k ≤ n → k ≤ fuel →
    (∀ j, 1 ≤ j → j ≤ n → j ≠ k → key (a k) < key (a j)) → siftUp key fuel a k 1 = a k
  | 0, k, a, h1, _, hf, _ => by omega
  | fuel + 1, k, a, h1, hn, hf, hmin => by
      unfold siftUp
      by_cases hk : 1 < k
      · rw [if_pos ⟨hk, hmin (k / 2) (by omega) (by omega) (by omega)⟩,
          siftUp_root (by omega) (by omega) (by omega), swapAt_left]
        intro j hj hjn hne
        rw [swapAt_left]
        by_cases hjk : j = k
        · rw [hjk, swapAt_right]
          exact hmin (k / 2) (by omega) (by omega) (by omega)
        · rw [swapAt_of_ne hne hjk]
          exact hmin j hj hjn hjk
      · obtain rfl : k = 1 := by omega
        rw [if_neg (by omega)]

/-- The son of `i` that comes first. -/
def smallerSon (key : α → K) (a : Nat → α) (i n : Nat) : Nat :=
  if 2 * i + 1 ≤ n ∧ key (a (2 * i + 1)) < key (a (2 * i)) then 2 * i + 1 else 2 * i

/-- Exchange the entry at `k` with its smaller son while that comes before it. -/
def siftDown (key : α → K) : Nat → (Nat → α) → Nat → Nat → (Nat → α)
  | 0, a, _, _ => a
  | fuel + 1, a, k, n =>
    let son := smallerSon key a k n
    if son ≤ n ∧ key (a son) < key (a k) then siftDown key fuel (swapAt a son k) son n else a

theorem smallerSon_cases (key : α → K) (a : Nat → α) (i n : Nat) :
    smallerSon key a i n = 2 * i ∨ smallerSon key a i n = 2 * i + 1 := by
  unfold smallerSon
  split <;> simp

/-- The smaller son comes before every son. -/
theorem smallerSon_le (hin : i ≤ n) (hik : i / 2 = k) (hi : 2 ≤ i) :
    key (a (smallerSon key a k n)) ≤ key (a i) := by
  unfold smallerSon
  have hcase : i = 2 * k ∨ i = 2 * k + 1 := by omega
  split
  · rename_i hc
    rcases hcase with rfl | rfl
    · exact hc.2.le
    · exact le_rfl
  · rename_i hc
    rcases hcase with rfl | rfl
    · exact le_rfl
    · by_contra hlt
      exact hc ⟨hin, lt_of_not_ge hlt⟩

/-- One step down. -/
theorem DownHeap.swap (h : DownHeap key n a k) (hk : 1 ≤ k) (hson : smallerSon key a k n ≤ n)
    (hlt : key (a (smallerSon key a k n)) < key (a k)) :
    DownHeap key n (swapAt a (smallerSon key a k n) k) (smallerSon key a k n) := by
  have hcase := smallerSon_cases key a k n
  have hle : ∀ i, 2 ≤ i → i ≤ n → i / 2 = k → key (a (smallerSon key a k n)) ≤ key (a i) :=
    fun i hi hin hik => smallerSon_le hin hik hi
  generalize smallerSon key a k n = son at *
  constructor
  · intro i hi hin hik
    by_cases h1 : i / 2 = k
    · rw [h1, swapAt_right]
      by_cases h2 : i = son
      · rw [h2, swapAt_left]
        exact hlt.le
      · rw [swapAt_of_ne h2 (by omega)]
        exact hle i hi hin h1
    · rw [swapAt_of_ne hik h1]
      by_cases h2 : i = k
      · rw [h2, swapAt_right]
        exact h.grand (by omega) son (by omega) hson (by omega)
      · rw [swapAt_of_ne (by omega) h2]
        exact h.except i hi hin h1
  · intro hs i hi hin hik
    have hpar : son / 2 = k := by omega
    rw [hpar, swapAt_right, swapAt_of_ne (by omega) (by omega), ← hik]
    exact h.except i hi hin (by omega)

/-- **Sifting down restores the heap.** -/
theorem siftDown_heap : ∀ {fuel k : Nat} {a : Nat → α}, DownHeap key n a k → 1 ≤ k → n < k + fuel →
    Heap key n (siftDown key fuel a k n)
  | 0, k, a, h, hk, hf => fun i hi hin => h.except i hi hin (by omega)
  | fuel + 1, k, a, h, hk, hf => by
      unfold siftDown
      have hcase := smallerSon_cases key a k n
      dsimp only
      split
      · rename_i hc
        exact siftDown_heap (h.swap hk hc.1 hc.2) (by omega) (by omega)
      · rename_i hc
        intro i hi hin
        by_cases hik : i / 2 = k
        · rw [hik]
          by_contra hlt
          have hle : key (a (smallerSon key a k n)) ≤ key (a i) := smallerSon_le hin hik hi
          refine hc ⟨?_, hle.trans_lt (lt_of_not_ge hlt)⟩
          unfold smallerSon
          split <;> omega
        · exact h.except i hi hin hik

/-- Sifting down from `k` takes fewer than `n` steps. -/
theorem siftDown_succ : ∀ {fuel k : Nat} {a : Nat → α}, 1 ≤ k → n < k + fuel →
    siftDown key (fuel + 1) a k n = siftDown key fuel a k n
  | 0, k, a, hk, hf => by
      have hcase := smallerSon_cases key a k n
      exact if_neg fun h => by omega
  | fuel + 1, k, a, hk, hf => by
      have hcase := smallerSon_cases key a k n
      rw [siftDown]
      conv_rhs => rw [siftDown]
      split
      · exact siftDown_succ (by omega) (by omega)
      · rfl

theorem siftDown_of_le (hk : 1 ≤ k) (hf : n ≤ fuel) :
    siftDown key fuel a k n = siftDown key n a k n := by
  induction hf with
  | refl => rfl
  | step hf ih =>
      have hlt := Nat.lt_succ_of_le hf
      rw [siftDown_succ hk (by omega), ih]

theorem siftDown_rearranges : ∀ {fuel k : Nat} {a : Nat → α}, 1 ≤ k → k ≤ n →
    Rearranges n a (siftDown key fuel a k n)
  | 0, k, a, _, _ => .refl n a
  | fuel + 1, k, a, hk, hn => by
      unfold siftDown
      have hcase := smallerSon_cases key a k n
      dsimp only
      split
      · rename_i hc
        exact (rearranges_swapAt (by omega) (by omega)).trans
          (siftDown_rearranges (by omega) hc.1)
      · exact .refl n a

end BinaryHeap
