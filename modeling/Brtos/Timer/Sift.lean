import Brtos.Timer.Model
import Mathlib.Data.Nat.Basic

/-!
# Brtos.Timer.Sift

**`Subir` and `Descer`** on any array of timers whose entries `1 .. n` are not `NULL`. There
they are the sifts of `Brtos.Lib.BinaryHeap`, so they end, rearrange those entries only, and
restore the order of a heap that is broken above the last entry or below the first.

The macros `PAI`, `LEFT` and `RIGHT` reduce an index to `uint8_t`. The functions are written
over that reduction: `castUInt8` reduces, and with `castChecked` a sift has no meaning as soon as
an index would wrap. For up to 127 entries both give the same (`sifts_restore_heap`); from entry
128 on the sons' indices do wrap.
-/

namespace Brtos

open BinaryHeap

variable {tc : TimerConfig} {cast : Nat → Option Nat} {size n : Nat} {mem : Nat → Timer}
  {timers : Nat → Option Nat}

/-! ### The functions -/

/-- `(uint8_t)`. -/
def castUInt8 (x : Nat) : Option Nat := some (x % 256)

/-- `(uint8_t)`, where nothing is lost. -/
def castChecked (x : Nat) : Option Nat := if x < 256 then some x else none

/-- `timers[i]`, in an array of `size` entries. -/
def entryOf (size : Nat) (timers : Nat → Option Nat) (i : Nat) : Option (Option Nat) :=
  if i < size then some (timers i) else none

/-- `timers[i]->timeout`. -/
def timeoutOf (size : Nat) (mem : Nat → Timer) (timers : Nat → Option Nat) (i : Nat) : Option Nat :=
  (entryOf size timers i).bind fun p => p.map fun p => (mem p).timeout

/-- `timers[a] != NULL && timers[b] != NULL && timers[a]->timeout < timers[b]->timeout`. -/
def comesBefore (size : Nat) (mem : Nat → Timer) (timers : Nat → Option Nat) (a b : Nat) :
    Option Bool :=
  (entryOf size timers a).bind fun
    | none => some false
    | some x => (entryOf size timers b).map fun
      | none => false
      | some y => decide ((mem x).timeout < (mem y).timeout)

/-- `Subir`. -/
def subirBy (cast : Nat → Option Nat) (size : Nat) (mem : Nat → Timer) :
    Nat → (Nat → Option Nat) → Nat → Option (Nat → Option Nat)
  | 0, _, _ => none
  | fuel + 1, timers, i =>
    if 1 < i then
      (cast (i / 2)).bind fun pai =>
        (timeoutOf size mem timers pai).bind fun above =>
          (timeoutOf size mem timers i).bind fun here =>
            if above > here then subirBy cast size mem fuel (swapAt timers pai i) pai
            else some timers
    else some timers

/-- `Descer`. Every pass computes both sons. -/
def descerBy (cast : Nat → Option Nat) (size : Nat) (mem : Nat → Timer) :
    Nat → (Nat → Option Nat) → Nat → Nat → Option (Nat → Option Nat)
  | 0, _, _, _ => none
  | fuel + 1, timers, i, n =>
    (cast (2 * i + 1)).bind fun right =>
      (cast (2 * i)).bind fun left =>
        (if right ≤ n then comesBefore size mem timers right left else some false).bind
          fun takeRight =>
            let son := if takeRight then right else left
            (if son ≤ n then comesBefore size mem timers son i else some false).bind fun down =>
              if down then descerBy cast size mem fuel (swapAt timers son i) son n
              else some timers

/-- The functions of the service. -/
theorem subir_eq_subirBy : ∀ {fuel i : Nat} {timers : Nat → Option Nat}, i < 256 →
    subir tc mem fuel timers i = subirBy castUInt8 tc.brtosMaxTimer mem fuel timers i
  | 0, _, _, _ => rfl
  | fuel + 1, i, timers, hi => by
      have hpai : castUInt8 (i / 2) = some (i / 2) := by
        rw [castUInt8, Nat.mod_eq_of_lt (by omega)]
      unfold subir subirBy
      rw [hpai, Option.bind_some]
      refine if_congr Iff.rfl ?_ rfl
      refine congrArg _ (funext fun above => congrArg _ (funext fun here => ?_))
      exact if_congr Iff.rfl (subir_eq_subirBy (by omega)) rfl

theorem descer_eq_descerBy : ∀ {fuel i : Nat} {timers : Nat → Option Nat},
    descer tc mem fuel timers i n = descerBy castUInt8 tc.brtosMaxTimer mem fuel timers i n
  | 0, _, _ => rfl
  | fuel + 1, i, timers => by
      unfold descer descerBy
      simp only [castUInt8, Option.bind_some]
      refine congrArg _ (funext fun takeRight => congrArg _ (funext fun down => ?_))
      exact if_congr Iff.rfl descer_eq_descerBy rfl

/-! ### Entries that are not `NULL` -/

/-- The order of the heap: `NULL` never occurs where it is used. -/
def timerKey (mem : Nat → Timer) (o : Option Nat) : Nat := (o.map fun p => (mem p).timeout).getD 0

@[simp] theorem timerKey_some (mem : Nat → Timer) (p : Nat) :
    timerKey mem (some p) = (mem p).timeout := rfl

/-- The entries `1 .. n` are timers. -/
def Occupied (n : Nat) (timers : Nat → Option Nat) : Prop :=
  ∀ i, 1 ≤ i → i ≤ n → ∃ p, timers i = some p

theorem Occupied.rearrange {timers' : Nat → Option Nat} (hf : Occupied n timers)
    (hr : Rearranges n timers timers') : Occupied n timers' := by
  obtain ⟨f, -, hfrom⟩ := hr.source
  intro i h1 hi
  obtain ⟨h1', hi', heq⟩ := hfrom i h1 hi
  rw [heq]
  exact hf _ h1' hi'

theorem Occupied.timeoutOf (hf : Occupied n timers) (hsize : n < size) (mem : Nat → Timer) {i : Nat}
    (h1 : 1 ≤ i) (hi : i ≤ n) :
    Brtos.timeoutOf size mem timers i = some (timerKey mem (timers i)) := by
  obtain ⟨p, hp⟩ := hf i h1 hi
  rw [Brtos.timeoutOf, entryOf, if_pos (by omega), hp]
  rfl

theorem Occupied.comesBefore (hf : Occupied n timers) (hsize : n < size) (mem : Nat → Timer)
    {a b : Nat} (ha : 1 ≤ a ∧ a ≤ n) (hb : 1 ≤ b ∧ b ≤ n) :
    Brtos.comesBefore size mem timers a b =
      some (decide (timerKey mem (timers a) < timerKey mem (timers b))) := by
  obtain ⟨p, hp⟩ := hf a ha.1 ha.2
  obtain ⟨q, hq⟩ := hf b hb.1 hb.2
  simp [Brtos.comesBefore, entryOf, show a < size by omega, show b < size by omega, hp, hq]

/-- `cast` keeps what fits a `uint8_t`. -/
def Exact (cast : Nat → Option Nat) : Prop := ∀ x < 256, cast x = some x

theorem exact_castUInt8 : Exact castUInt8 := fun x hx => by rw [castUInt8, Nat.mod_eq_of_lt hx]

theorem exact_castChecked : Exact castChecked := fun _ hx => if_pos hx

/-- Among entries that are not `NULL`, `Subir` is `siftUp`. -/
theorem subirBy_eq (hc : Exact cast) (h127 : n ≤ 127) (hsize : n < size) :
    ∀ {fuel i : Nat} {timers : Nat → Option Nat}, Occupied n timers → i ≤ n → i < fuel →
      subirBy cast size mem fuel timers i = some (siftUp (timerKey mem) fuel timers i)
  | 0, i, timers, _, _, hf => by omega
  | fuel + 1, i, timers, hfilled, hi, hf => by
      unfold subirBy siftUp
      by_cases h1 : 1 < i
      · rw [if_pos h1, hc _ (by omega), Option.bind_some,
          hfilled.timeoutOf hsize mem (by omega) (by omega), Option.bind_some,
          hfilled.timeoutOf hsize mem (by omega) hi, Option.bind_some]
        by_cases hlt : timerKey mem (timers i) < timerKey mem (timers (i / 2))
        · rw [if_pos hlt, if_pos ⟨h1, hlt⟩]
          have hswap := rearranges_swapAt (a := timers) (i := i / 2) (j := i) (n := n)
            (by omega) (by omega)
          exact subirBy_eq hc h127 hsize (hfilled.rearrange hswap) (by omega) (by omega)
        · rw [if_neg hlt, if_neg fun h => hlt h.2]
      · rw [if_neg h1, if_neg fun h => h1 h.1]

/-- Among entries that are not `NULL`, `Descer` is `siftDown`. -/
theorem descerBy_eq (hc : Exact cast) (h127 : n ≤ 127) (hsize : n < size) :
    ∀ {fuel i : Nat} {timers : Nat → Option Nat}, Occupied n timers → 1 ≤ i → i ≤ max n 1 →
      n < i + fuel → 0 < fuel →
      descerBy cast size mem fuel timers i n = some (siftDown (timerKey mem) fuel timers i n)
  | 0, i, timers, _, _, _, _, hf => by omega
  | fuel + 1, i, timers, hfilled, h1, hi, hf, _ => by
      have hson : (if 2 * i + 1 ≤ n then comesBefore size mem timers (2 * i + 1) (2 * i)
          else some false) = some (decide (2 * i + 1 ≤ n ∧
            timerKey mem (timers (2 * i + 1)) < timerKey mem (timers (2 * i)))) := by
        split
        · rw [hfilled.comesBefore hsize mem (by omega) (by omega)]
          simp [*]
        · simp [*]
      unfold descerBy siftDown
      rw [hc _ (by omega), Option.bind_some, hc _ (by omega), Option.bind_some, hson,
        Option.bind_some]
      simp only [decide_eq_true_eq]
      have hdef : (if 2 * i + 1 ≤ n ∧ timerKey mem (timers (2 * i + 1)) <
          timerKey mem (timers (2 * i)) then 2 * i + 1 else 2 * i) =
          smallerSon (timerKey mem) timers i n := rfl
      rw [hdef]
      have hcase := smallerSon_cases (timerKey mem) timers i n
      generalize smallerSon (timerKey mem) timers i n = son at hcase ⊢
      by_cases hle : son ≤ n
      · rw [if_pos hle, hfilled.comesBefore hsize mem (by omega) (by omega)]
        simp only [Option.bind_some, decide_eq_true_eq, hle, true_and]
        split
        · have hswap := rearranges_swapAt (a := timers) (i := son) (j := i) (n := n)
            (by omega) (by omega)
          exact descerBy_eq hc h127 hsize (hfilled.rearrange hswap) (by omega) (by omega) (by omega)
            (by omega)
        · rfl
      · simp [hle]

/-! ### The heap -/

/-- **Sifting** an array of timers of which entries `1 .. n` are not `NULL`. If the order of a
heap holds except between entry `n` and its ancestors, `Subir` from `n` restores it; if it holds
except between entry 1 and its descendants, `Descer` from 1 does. Both end, rearrange the
entries `1 .. n`, read no other entry and dereference no `NULL`, and no index wraps. -/
theorem sifts_restore_heap (h127 : n ≤ 127) (hsize : n < size) (hfilled : Occupied n timers) :
    ((∀ i, 2 ≤ i → i < n → timerKey mem (timers (i / 2)) ≤ timerKey mem (timers i)) →
      ∃ timers', Heap (timerKey mem) n timers' ∧ Rearranges n timers timers' ∧
        ∀ fuel, n < fuel → subirBy castUInt8 size mem fuel timers n = some timers' ∧
          subirBy castChecked size mem fuel timers n = some timers') ∧
    ((∀ i, 2 ≤ i → i ≤ n → i / 2 ≠ 1 →
        timerKey mem (timers (i / 2)) ≤ timerKey mem (timers i)) →
      ∃ timers', Heap (timerKey mem) n timers' ∧ Rearranges n timers timers' ∧
        ∀ fuel, n < fuel → descerBy castUInt8 size mem fuel timers 1 n = some timers' ∧
          descerBy castChecked size mem fuel timers 1 n = some timers') := by
  constructor
  · intro horder
    have hup : UpHeap (timerKey mem) n timers n :=
      ⟨fun i hi hin hne => horder i hi (by omega), fun _ i _ hin hparent => by omega⟩
    refine ⟨siftUp (timerKey mem) n timers n, siftUp_heap hup le_rfl le_rfl, ?_, ?_⟩
    · rcases Nat.eq_zero_or_pos n with rfl | hpos
      · exact .refl _ _
      · exact siftUp_rearranges hpos le_rfl
    · intro fuel hfuel
      rw [subirBy_eq exact_castUInt8 h127 hsize hfilled le_rfl hfuel,
        subirBy_eq exact_castChecked h127 hsize hfilled le_rfl hfuel, siftUp_of_le hfuel.le]
      exact ⟨rfl, rfl⟩
  · intro horder
    have hdown : DownHeap (timerKey mem) n timers 1 := ⟨horder, fun h => absurd h (by omega)⟩
    refine ⟨siftDown (timerKey mem) n timers 1 n, ?_, ?_, ?_⟩
    · exact siftDown_heap hdown le_rfl (by omega)
    · rcases Nat.eq_zero_or_pos n with rfl | hpos
      · exact .refl _ _
      · exact siftDown_rearranges le_rfl hpos
    · intro fuel hfuel
      rw [descerBy_eq exact_castUInt8 h127 hsize hfilled le_rfl (by omega) (by omega) (by omega),
        descerBy_eq exact_castChecked h127 hsize hfilled le_rfl (by omega) (by omega) (by omega),
        siftDown_of_le le_rfl hfuel.le]
      exact ⟨rfl, rfl⟩

/-- Three timers, of which the one at entry 1 or at entry 3 is out of order. -/
def threeTimers : Nat → Option Nat
  | 1 => some 0
  | 2 => some 1
  | 3 => some 2
  | _ => none

theorem sifts_restore_heap_three :
    let down : Nat → Timer := fun p => ⟨none, 9 - p, .running⟩
    let up : Nat → Timer := fun p => ⟨none, if p = 2 then 1 else 5, .running⟩
    (∃ timers', Heap (timerKey up) 3 timers' ∧
        subirBy castChecked 8 up 4 threeTimers 3 = some timers') ∧
      ∃ timers', Heap (timerKey down) 3 timers' ∧
        descerBy castChecked 8 down 4 threeTimers 1 3 = some timers' := by
  intro down up
  have hfilled : Occupied 3 threeTimers := by
    intro i h1 h3
    obtain rfl | rfl | rfl : i = 1 ∨ i = 2 ∨ i = 3 := by omega
    all_goals exact ⟨_, rfl⟩
  have hup : ∀ i, 2 ≤ i → i < 3 →
      timerKey up (threeTimers (i / 2)) ≤ timerKey up (threeTimers i) := by
    intro i h2 h3
    obtain rfl : i = 2 := by omega
    decide
  obtain ⟨a, ha, -, hsub⟩ := (@sifts_restore_heap 8 3 up threeTimers (by decide) (by decide)
    hfilled).1 hup
  obtain ⟨b, hb, -, hdes⟩ := (@sifts_restore_heap 8 3 down threeTimers (by decide) (by decide)
    hfilled).2 fun i h2 h3 hne => absurd (by omega) hne
  exact ⟨⟨a, ha, (hsub 4 (by decide)).2⟩, b, hb, (hdes 4 (by decide)).2⟩

end Brtos
