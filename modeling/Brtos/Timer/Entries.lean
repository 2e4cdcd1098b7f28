import Brtos.Timer.Sift

/-!
# Brtos.Timer.Entries

**What the operations do to the entries of a timer list**, whatever their order and with
repetitions: only that no entry in use is `NULL` (`Filled`) is needed for the operations
to have a meaning.

There the sifts are those of `Brtos.Lib.BinaryHeap`. Each operation's effect on the
timers in the list is one lemma (`Filled.insert`, `Filled.removeRoot`, `Filled.reorder`),
and when it leaves a heap is said beside it. Every state that is reached at all has such
lists (`PackedLists.run`).
-/

namespace Brtos

open BinaryHeap

variable {tc : TimerConfig} {mem : Nat → Timer} {l : TimerList} {timers : Nat → Option Nat}
  {s t : TimerService tc} {x p n : Nat}

namespace TimerList

/-- The timer is in the list. -/
def Has (l : TimerList) (x : Nat) : Prop :=
  ∃ i < l.count + 1, 1 ≤ i ∧ l.timers i = some x

instance (l : TimerList) (x : Nat) : Decidable (l.Has x) :=
  inferInstanceAs (Decidable (∃ i < l.count + 1, _))

/-- The timer is in the list at another place than the root. -/
def Rest (l : TimerList) (x : Nat) : Prop :=
  ∃ i < l.count + 1, 2 ≤ i ∧ l.timers i = some x

instance (l : TimerList) (x : Nat) : Decidable (l.Rest x) :=
  inferInstanceAs (Decidable (∃ i < l.count + 1, _))

/-- The timer is in the list at a place that an insertion does not overwrite. -/
def Kept (tc : TimerConfig) (l : TimerList) (x : Nat) : Prop :=
  ∃ i < (if l.count < tc.brtosMaxTimer - 1 then l.count + 1 else l.count),
    1 ≤ i ∧ l.timers i = some x

instance (l : TimerList) (x : Nat) : Decidable (l.Kept tc x) :=
  inferInstanceAs (Decidable (∃ i < (if l.count < tc.brtosMaxTimer - 1 then l.count + 1
    else l.count), 1 ≤ i ∧ l.timers i = some x))

theorem Has.intro {i : Nat} (h1 : 1 ≤ i) (hi : i ≤ l.count) (hx : l.timers i = some x) :
    l.Has x :=
  ⟨i, Nat.lt_succ_of_le hi, h1, hx⟩

theorem Has.elim (h : l.Has x) : ∃ i, 1 ≤ i ∧ i ≤ l.count ∧ l.timers i = some x := by
  obtain ⟨i, hi, h1, hx⟩ := h
  exact ⟨i, h1, Nat.le_of_lt_succ hi, hx⟩

theorem Rest.intro {i : Nat} (h2 : 2 ≤ i) (hi : i ≤ l.count) (hx : l.timers i = some x) :
    l.Rest x :=
  ⟨i, Nat.lt_succ_of_le hi, h2, hx⟩

theorem Rest.elim (h : l.Rest x) : ∃ i, 2 ≤ i ∧ i ≤ l.count ∧ l.timers i = some x := by
  obtain ⟨i, hi, h2, hx⟩ := h
  exact ⟨i, h2, Nat.le_of_lt_succ hi, hx⟩

theorem has_iff_rest (h1 : 1 ≤ l.count) : l.Has x ↔ l.timers 1 = some x ∨ l.Rest x := by
  constructor
  · intro hx
    obtain ⟨i, hi, hn, hx⟩ := hx.elim
    by_cases heq : i = 1
    · exact Or.inl (heq ▸ hx)
    · exact Or.inr (.intro (by omega) hn hx)
  · rintro (hx | hx)
    · exact .intro le_rfl h1 hx
    · obtain ⟨i, hi, hn, hx⟩ := hx.elim
      exact .intro (by omega) hn hx

end TimerList

/-- The entries in use are the first ones of the array, and none of them is `NULL`. -/
structure Filled (tc : TimerConfig) (l : TimerList) : Prop where
  count_lt : l.count < tc.brtosMaxTimer
  filled : ∀ i, 1 ≤ i → i ≤ l.count → ∃ p, l.timers i = some p
  above : ∀ i, l.count < i → l.timers i = none

/-- Below the root the order is that of the heap. -/
def OrderedBelow (mem : Nat → Timer) (l : TimerList) : Prop :=
  ∀ i, 2 ≤ i → i ≤ l.count → i / 2 ≠ 1 →
    timerKey mem (l.timers (i / 2)) ≤ timerKey mem (l.timers i)

/-! ### The sifts -/

theorem slot_of_lt {i : Nat} (h : i < tc.brtosMaxTimer) : slot tc timers i = some (timers i) :=
  if_pos h

theorem subir_eq (hn : n < tc.brtosMaxTimer) {fuel i : Nat} {timers : Nat → Option Nat}
    (hfilled : Occupied n timers) (hi : i ≤ n) (hf : i < fuel) :
    subir tc mem fuel timers i = some (siftUp (timerKey mem) fuel timers i) := by
  have h128 := tc.le_128
  rw [subir_eq_subirBy (by omega)]
  exact subirBy_eq exact_castUInt8 (by omega) hn hfilled hi hf

theorem descer_eq (hn : n < tc.brtosMaxTimer) {fuel i : Nat} {timers : Nat → Option Nat}
    (hfilled : Occupied n timers) (h1 : 1 ≤ i) (hi : i ≤ max n 1) (hf : n < i + fuel)
    (hpos : 0 < fuel) :
    descer tc mem fuel timers i n = some (siftDown (timerKey mem) fuel timers i n) := by
  have h128 := tc.le_128
  rw [descer_eq_descerBy]
  exact descerBy_eq exact_castUInt8 (by omega) hn hfilled h1 hi hf hpos

/-! ### The operations -/

/-- Another order of the entries: the timers stay. -/
theorem Filled.rearrange (hf : Filled tc l) (hr : Rearranges l.count l.timers timers) :
    Filled tc { l with timers := timers } ∧
      ∀ x, { l with timers := timers }.Has x ↔ l.Has x := by
  obtain ⟨f, -, hfrom⟩ := hr.source
  obtain ⟨g, -, hto⟩ := hr.symm.source
  refine ⟨⟨hf.count_lt, Occupied.rearrange hf.filled hr, ?_⟩, fun x => ⟨?_, ?_⟩⟩
  · intro i hi
    have hout : timers i = l.timers i := hr.outside fun h => absurd h.2 (Nat.not_le_of_lt hi)
    exact hout.trans (hf.above i hi)
  · intro hx
    obtain ⟨i, h1, hi, hx⟩ := hx.elim
    obtain ⟨ha, hb, heq⟩ := hfrom i h1 hi
    exact .intro ha hb (heq.symm.trans hx)
  · intro hx
    obtain ⟨i, h1, hi, hx⟩ := hx.elim
    obtain ⟨ha, hb, heq⟩ := hto i h1 hi
    exact TimerList.Has.intro (l := { l with timers := timers }) ha hb (heq.symm.trans hx)

/-- `Subir` ends, and rearranges the entries. -/
theorem Filled.subir (hf : Filled tc l) (mem : Nat → Timer) {i : Nat} (h1 : 1 ≤ i)
    (hi : i ≤ l.count) :
    Brtos.subir tc mem 256 l.timers i = some (siftUp (timerKey mem) 256 l.timers i) ∧
      Rearranges l.count l.timers (siftUp (timerKey mem) 256 l.timers i) := by
  have h128 := tc.le_128
  have hlt := hf.count_lt
  exact ⟨subir_eq hlt hf.filled hi (by omega), siftUp_rearranges h1 hi⟩

/-- **Ordering** a list: the timers stay, and it becomes a heap if only the root was out
of order. -/
theorem Filled.reorder (hf : Filled tc l) (mem : Nat → Timer) :
    ∃ timers, l.reorder tc mem = some { l with timers := timers } ∧
      Rearranges l.count l.timers timers ∧
      (DownHeap (timerKey mem) l.count l.timers 1 → Heap (timerKey mem) l.count timers) := by
  have h128 := tc.le_128
  have hlt := hf.count_lt
  have hdes := @descer_eq tc mem l.count hlt 256 1 l.timers hf.filled le_rfl (by omega) (by omega)
    (by omega)
  have hre : Rearranges l.count l.timers (siftDown (timerKey mem) 256 l.timers 1 l.count) := by
    rcases Nat.eq_zero_or_pos l.count with h0 | h1
    · -- the empty list
      have hson := smallerSon_cases (timerKey mem) l.timers 1 l.count
      have hid : siftDown (timerKey mem) 256 l.timers 1 l.count = l.timers := by
        unfold siftDown
        exact if_neg fun h => by omega
      rw [hid]
      exact .refl _ _
    · exact siftDown_rearranges le_rfl h1
  refine ⟨siftDown (timerKey mem) 256 l.timers 1 l.count, ?_, hre, fun hd => ?_⟩
  · rw [TimerList.reorder, hdes]
    rfl
  · exact siftDown_heap hd le_rfl (show l.count < 1 + 256 by omega)

/-- The last entry takes the place of the first. -/
theorem removeRoot_timers {i : Nat} (hi : i < l.count) :
    l.removeRoot.timers i = l.timers (if i = 1 then l.count else i) := by
  simp only [TimerList.removeRoot, Function.update_apply]
  rw [if_neg (by omega)]
  split <;> rfl

/-- The list after the root has been removed. -/
theorem Filled.removeRoot (hf : Filled tc l) (h1 : 1 ≤ l.count) :
    Filled tc l.removeRoot ∧ (∀ x, l.removeRoot.Has x ↔ l.Rest x) ∧
      ∀ mem, OrderedBelow mem l →
        DownHeap (timerKey mem) l.removeRoot.count l.removeRoot.timers 1 := by
  have hcount : l.removeRoot.count = l.count - 1 := rfl
  have hlast : ∀ i, l.count ≤ i → l.removeRoot.timers i = none := by
    intro i hi
    simp only [TimerList.removeRoot, Function.update_apply]
    split
    · rfl
    · rw [if_neg (by omega)]
      exact hf.above i (by omega)
  refine ⟨⟨?_, fun i hi hn => ?_, fun i hi => hlast i (by omega)⟩, fun x => ⟨fun hx => ?_, fun hx => ?_⟩,
    fun mem hb => ⟨fun i hi hn hne => ?_, fun h => absurd h (by omega)⟩⟩
  · have := hf.count_lt
    omega
  · rw [removeRoot_timers (by omega)]
    exact hf.filled _ (by split <;> omega) (by split <;> omega)
  · obtain ⟨i, hi, hn, hx⟩ := hx.elim
    rw [removeRoot_timers (by omega)] at hx
    exact .intro (by split <;> omega) (by split <;> omega) hx
  · obtain ⟨i, hi, hn, hx⟩ := hx.elim
    by_cases hlasti : i = l.count
    · refine .intro le_rfl (by omega) ?_
      rw [removeRoot_timers (by omega), if_pos rfl]
      exact hlasti ▸ hx
    · refine .intro (i := i) (by omega) (by omega) ?_
      rw [removeRoot_timers (by omega), if_neg (by omega)]
      exact hx
  · rw [removeRoot_timers (by omega), removeRoot_timers (by omega),
      if_neg hne, if_neg (by omega)]
    exact hb i hi (by omega) hne

/-- Where nothing is in the list, nothing can be removed. -/
theorem removeRoot_empty (h0 : l.count = 0) (hzero : l.timers 0 = none)
    (habove : ∀ i, 0 < i → l.timers i = none) :
    l.removeRoot.count = 0 ∧ ∀ i, l.removeRoot.timers i = none := by
  refine ⟨by simp [TimerList.removeRoot, h0], fun i => ?_⟩
  simp only [TimerList.removeRoot, Function.update_apply, h0]
  split
  · rfl
  · split
    · exact hzero
    · exact habove i (by omega)

/-- **Removing the root** and ordering what is left. -/
theorem Filled.removeRoot_reorder (hf : Filled tc l) (h1 : 1 ≤ l.count) (mem : Nat → Timer) :
    ∃ l', l.removeRoot.reorder tc mem = some l' ∧ (∀ x, l'.Has x ↔ l.Rest x) ∧
      (OrderedBelow mem l → Heap (timerKey mem) l'.count l'.timers) := by
  obtain ⟨hf', hhas, hdown⟩ := hf.removeRoot h1
  obtain ⟨timers, hre, hrearr, hheap⟩ := hf'.reorder mem
  obtain ⟨-, hhas'⟩ := hf'.rearrange hrearr
  exact ⟨_, hre, fun x => (hhas' x).trans (hhas x), fun hb => hheap (hdown mem hb)⟩

/-- **Insertion**: into a full list, in place of its last entry. -/
theorem Filled.insert (hf : Filled tc l) (mem : Nat → Timer) (p : Nat) :
    ∃ l', l.insert tc mem p = some l' ∧ Filled tc l' ∧
      (∀ x, l'.Has x ↔ x = p ∨ l.Kept tc x) ∧ l'.timers 0 = l.timers 0 := by
  have h2 := tc.two_le
  have hlt := hf.count_lt
  obtain ⟨n, hn⟩ : ∃ n, n = if l.count < tc.brtosMaxTimer - 1 then l.count + 1 else l.count :=
    ⟨_, rfl⟩
  have hn1 : 1 ≤ n ∧ l.count ≤ n ∧ n ≤ l.count + 1 ∧ n < tc.brtosMaxTimer := by
    rw [hn]
    split <;> omega
  -- the list with the new timer at its end
  let m : TimerList := { l with timers := Function.update l.timers n (some p), count := n }
  have hself : m.timers n = some p := Function.update_self ..
  have hold : ∀ i, i ≠ n → m.timers i = l.timers i := fun i hi => Function.update_of_ne hi _ _
  have hm : Filled tc m := by
    refine ⟨hn1.2.2.2, fun i hi hin => ?_, fun i hi => ?_⟩
    · by_cases heq : i = n
      · exact ⟨p, heq ▸ hself⟩
      · obtain ⟨q, hq⟩ := hf.filled i hi (by have : i ≤ n := hin; omega)
        exact ⟨q, (hold i heq).trans hq⟩
    · have hi : n < i := hi
      rw [hold i (by omega)]
      exact hf.above i (by omega)
  obtain ⟨hsub, hrearr⟩ := hm.subir mem hn1.1 le_rfl
  obtain ⟨hm', hhas⟩ := hm.rearrange hrearr
  refine ⟨{ m with timers := siftUp (timerKey mem) 256 m.timers n }, ?_, hm', fun x => ?_, ?_⟩
  · have hsub : Brtos.subir tc mem 256 (Function.update l.timers n (some p)) n =
      some (siftUp (timerKey mem) 256 m.timers n) := hsub
    unfold TimerList.insert
    dsimp only
    rw [← hn, hsub]
    rfl
  · rw [hhas]
    have hkept : l.Kept tc x ↔ ∃ i < n, 1 ≤ i ∧ l.timers i = some x := by
      rw [hn]
      rfl
    rw [hkept]
    constructor
    · intro hx
      obtain ⟨i, h1, hi, hx⟩ := hx.elim
      have hi : i ≤ n := hi
      by_cases heq : i = n
      · rw [heq, hself] at hx
        exact Or.inl (Option.some.inj hx).symm
      · rw [hold i heq] at hx
        exact Or.inr ⟨i, by omega, h1, hx⟩
    · rintro (rfl | ⟨i, hi, h1, hx⟩)
      · exact TimerList.Has.intro (l := m) hn1.1 le_rfl hself
      · exact TimerList.Has.intro (l := m) h1 (Nat.le_of_lt hi) ((hold i (by omega)).trans hx)
  · have hout : siftUp (timerKey mem) 256 m.timers n 0 = m.timers 0 :=
      hrearr.outside fun h => absurd h.1 (by decide)
    exact hout.trans (hold 0 (by omega))

/-! ### Taking a timer out -/

/-- The search of `OSTimerStop` ends at the timer in state `TIMER_SEARCH`, or behind the
list if that is not in it. -/
theorem Filled.searchFrom (hf : Filled tc l) (hsearch : ∀ x, (mem x).state = .search ↔ x = p) :
    ∀ {fuel pos : Nat}, 1 ≤ pos → pos ≤ l.count + 1 → l.count + 1 < pos + fuel →
    ∃ k, TimerList.searchFrom tc mem l fuel pos = some k ∧
      (pos ≤ k ∧ k ≤ l.count ∧ l.timers k = some p ∨
        k = l.count + 1 ∧ ∀ i, pos ≤ i → i ≤ l.count → l.timers i ≠ some p)
  | 0, pos, _, hle, hfuel => by omega
  | fuel + 1, pos, h1, hle, hfuel => by
      have hlt := hf.count_lt
      by_cases hpos : pos ≤ l.count
      · obtain ⟨q, hq⟩ := hf.filled pos h1 hpos
        rw [TimerList.searchFrom, if_pos hpos, slot_of_lt (by omega), Option.bind_some, hq]
        by_cases hqp : q = p
        · refine ⟨pos, ?_, Or.inl ⟨le_rfl, hpos, hqp ▸ hq⟩⟩
          simp only [(hsearch q).mpr hqp, if_true]
        · have hns : ¬ (mem q).state = .search := fun h => hqp ((hsearch q).mp h)
          obtain ⟨k, hk, hcase⟩ :=
            @Filled.searchFrom hf hsearch fuel (pos + 1) (by omega) (by omega) (by omega)
          refine ⟨k, ?_, ?_⟩
          · simp only [hns, if_false]
            exact hk
          · rcases hcase with ⟨hle, hk⟩ | ⟨hk, hnone⟩
            · exact Or.inl ⟨by omega, hk⟩
            · refine Or.inr ⟨hk, fun i hi hn => ?_⟩
              by_cases heq : i = pos
              · rw [heq, hq]
                exact fun h => hqp (Option.some.inj h)
              · exact hnone i (by omega) hn
      · refine ⟨pos, ?_, Or.inr ⟨by omega, fun i hi hn => by omega⟩⟩
        rw [TimerList.searchFrom, if_neg hpos]

/-- The control blocks after `OSTimerStop` has taken the timer out. -/
def TimerService.searched (s : TimerService tc) (p : Nat) : TimerService tc :=
  s.setTimer p fun t => { t with state := .search, timeout := 0 }

theorem TimerService.searched_self (s : TimerService tc) (p : Nat) :
    (s.searched p).mem p = { s.mem p with state := .search, timeout := 0 } :=
  Function.update_self ..

theorem TimerService.searched_of_ne (s : TimerService tc) (h : x ≠ p) :
    (s.searched p).mem x = s.mem x :=
  Function.update_of_ne h _ _

/-- The only timer in state `TIMER_SEARCH` is the one that is looked for. -/
theorem search_iff (hno : ∀ x, (s.mem x).state ≠ .search) (p x : Nat) :
    ((s.setTimer p fun t => { t with state := .search }).mem x).state = .search ↔ x = p := by
  by_cases hx : x = p
  · simp [TimerService.setTimer, hx]
  · simp [TimerService.setTimer, hx, hno x]

/-- A timer that is in the list is moved up from where it was found, and the root is
removed. -/
theorem Filled.takeOut_eq (hf : Filled tc l) (hno : ∀ x, (s.mem x).state ≠ .search)
    (hp : l.Has p) :
    ∃ k, 1 ≤ k ∧ k ≤ l.count ∧ l.timers k = some p ∧
      s.takeOut l p = (TimerList.reorder tc (s.searched p).mem (TimerList.removeRoot
        { l with timers := siftUp (timerKey (s.searched p).mem) 256 l.timers k })).map
          fun l => (s.searched p, l) := by
  have h128 := tc.le_128
  have hlt := hf.count_lt
  obtain ⟨k, hk, hcase⟩ := @Filled.searchFrom tc _ l p hf (search_iff hno p) 256 1 le_rfl
    (by omega) (by omega)
  obtain ⟨hk1, hkn, hpk⟩ : 1 ≤ k ∧ k ≤ l.count ∧ l.timers k = some p := by
    refine hcase.resolve_right fun h => ?_
    obtain ⟨i, hi, hn, hx⟩ := hp.elim
    exact h.2 i hi hn hx
  have hu : ((s.setTimer p fun t => { t with state := .search }).setTimer p
      fun t => { t with timeout := 0 }) = s.searched p := by
    simp [TimerService.searched, TimerService.setTimer]
  have hsub := (hf.subir (s.searched p).mem hk1 hkn).1
  refine ⟨k, hk1, hkn, hpk, ?_⟩
  simp only [TimerService.takeOut, hk, Option.bind_some, hu, hsub]

/-- What is left of the list then. -/
theorem Filled.takeOut (hf : Filled tc l) (hno : ∀ x, (s.mem x).state ≠ .search) (hp : l.Has p) :
    ∃ k l', (1 ≤ k ∧ k ≤ l.count ∧ l.timers k = some p) ∧
      s.takeOut l p = some (s.searched p, l') ∧
      (∀ x, l'.Has x ↔ TimerList.Rest
        { l with timers := siftUp (timerKey (s.searched p).mem) 256 l.timers k } x) ∧
      (OrderedBelow (s.searched p).mem
          { l with timers := siftUp (timerKey (s.searched p).mem) 256 l.timers k } →
        Heap (timerKey (s.searched p).mem) l'.count l'.timers) := by
  obtain ⟨k, hk1, hkn, hpk, htake⟩ := hf.takeOut_eq hno hp
  obtain ⟨hf', -⟩ := hf.rearrange (hf.subir (s.searched p).mem hk1 hkn).2
  obtain ⟨l', hl', hhas, hheap⟩ :=
    hf'.removeRoot_reorder (by show 1 ≤ l.count; omega) (s.searched p).mem
  refine ⟨k, l', ⟨hk1, hkn, hpk⟩, ?_, hhas, hheap⟩
  rw [htake, hl', Option.map_some]

/-- A timer that gets the timeout 0 is out of order only with the timers above it. -/
theorem Filled.upHeap_searched (hf : Filled tc l) (ho : Heap (timerKey s.mem) l.count l.timers)
    {k : Nat} (hk1 : 1 ≤ k) (hk : k ≤ l.count) (hp : l.timers k = some p)
    (honce : ∀ j, 1 ≤ j → j ≤ l.count → l.timers j = some p → j = k) :
    UpHeap (timerKey (s.searched p).mem) l.count l.timers k ∧
      timerKey (s.searched p).mem (l.timers k) = 0 ∧
      ∀ i, 1 ≤ i → i ≤ l.count → i ≠ k →
        timerKey (s.searched p).mem (l.timers i) = timerKey s.mem (l.timers i) := by
  have hkey : ∀ i, 1 ≤ i → i ≤ l.count → i ≠ k →
      timerKey (s.searched p).mem (l.timers i) = timerKey s.mem (l.timers i) := by
    intro i hi hn hne
    obtain ⟨q, hq⟩ := hf.filled i hi hn
    rw [hq, timerKey_some, timerKey_some, s.searched_of_ne]
    rintro rfl
    exact hne (honce i hi hn hq)
  have hkk : timerKey (s.searched p).mem (l.timers k) = 0 := by
    rw [hp, timerKey_some, s.searched_self]
  refine ⟨⟨fun i hi hn hne => ?_, fun hk2 i hi hn heq => ?_⟩, hkk, hkey⟩
  · by_cases h2 : i / 2 = k
    · rw [h2, hkk]
      exact Nat.zero_le _
    · rw [hkey i (by omega) hn hne, hkey (i / 2) (by omega) (by omega) h2]
      exact ho i hi hn
  · rw [hkey (k / 2) (by omega) (by omega) (by omega), hkey i (by omega) hn (by omega)]
    have h1 := ho k hk2 hk
    have h2 := ho i hi hn
    rw [heq] at h2
    exact h1.trans h2

/-- A timer that is in the list once comes to the root, unless a timeout of 0 is there
already. -/
theorem Filled.siftUp_searched (hf : Filled tc l) (ho : Heap (timerKey s.mem) l.count l.timers)
    {k : Nat} (hk1 : 1 ≤ k) (hk : k ≤ l.count) (hp : l.timers k = some p)
    (honce : ∀ j, 1 ≤ j → j ≤ l.count → l.timers j = some p → j = k)
    (hroot : k = 1 ∨ timerKey s.mem (l.timers 1) ≠ 0) :
    siftUp (timerKey (s.searched p).mem) 256 l.timers k 1 = some p ∧
      Heap (timerKey (s.searched p).mem) l.count
        (siftUp (timerKey (s.searched p).mem) 256 l.timers k) := by
  have h128 := tc.le_128
  have hlt := hf.count_lt
  obtain ⟨hup, hkk, hkey⟩ := hf.upHeap_searched ho hk1 hk hp honce
  refine ⟨?_, siftUp_heap hup hk (by omega)⟩
  by_cases hk' : k = 1
  · rw [hk', siftUp, if_neg (by omega), ← hk', hp]
  · have hpos := hroot.resolve_left hk'
    rw [siftUp_root (n := l.count) hk1 hk (by omega), hp]
    intro j hj hn hne
    have hle := ho.root_le j hj hn
    rw [hkk, hkey j hj hn hne]
    omega

/-! ### Every state that is reached -/

/-- The entries in use are the first ones, and entry 0 is `NULL`. -/
structure Packed (tc : TimerConfig) (l : TimerList) : Prop extends Filled tc l where
  zero : l.timers 0 = none

/-- Both lists are packed, and no timer is being searched for. -/
structure PackedLists (s : TimerService tc) : Prop where
  current : Packed tc s.current
  future : Packed tc s.future
  noSearch : ∀ x, (s.mem x).state ≠ .search

theorem Packed.rearrange (h : Packed tc l) (hr : Rearranges l.count l.timers timers) :
    Packed tc { l with timers := timers } := by
  refine ⟨(h.toFilled.rearrange hr).1, ?_⟩
  have hout : timers 0 = l.timers 0 := hr.outside fun h => absurd h.1 (by decide)
  exact hout.trans h.zero

theorem Packed.insert (h : Packed tc l) {l' : TimerList} (hl : l.insert tc mem p = some l') :
    Packed tc l' := by
  obtain ⟨m, hm, hf, -, hzero⟩ := h.toFilled.insert mem p
  obtain rfl := Option.some.inj (hm.symm.trans hl)
  exact ⟨hf, hzero.trans h.zero⟩

theorem Packed.reorder (h : Packed tc l) {l' : TimerList} (hl : l.reorder tc mem = some l') :
    Packed tc l' := by
  obtain ⟨timers, hre, hrearr, -⟩ := h.toFilled.reorder mem
  obtain rfl := Option.some.inj (hre.symm.trans hl)
  exact h.rearrange hrearr

theorem Packed.removeRoot (h : Packed tc l) : Packed tc l.removeRoot := by
  have h2 := tc.two_le
  rcases Nat.eq_zero_or_pos l.count with h0 | h1
  · obtain ⟨hcount, hnone⟩ := removeRoot_empty h0 h.zero fun i hi => h.above i (by omega)
    exact ⟨⟨by omega, fun i hi hn => by omega, fun i _ => hnone i⟩, hnone 0⟩
  · refine ⟨(h.toFilled.removeRoot h1).1, ?_⟩
    simp only [TimerList.removeRoot, Function.update_apply]
    rw [if_neg (by omega), if_neg (by omega)]
    exact h.zero

/-- From behind the last entry `Subir` meets a `NULL`, except in an empty list. -/
theorem Packed.subir_behind (h : Packed tc l)
    (hsub : Brtos.subir tc mem 256 l.timers (l.count + 1) = some timers) : timers = l.timers := by
  unfold Brtos.subir at hsub
  split at hsub
  · have hnone : timeoutAt tc mem l.timers (l.count + 1) = none := by
      unfold timeoutAt slot
      split
      · rw [h.above _ (Nat.lt_succ_self _)]
        rfl
      · rfl
    rw [hnone] at hsub
    simp at hsub
  · exact (Option.some.inj hsub).symm

/-- Removing the root and ordering what is left, also where nothing is in the list. -/
theorem Packed.removeRoot_reorder (h : Packed tc l) (mem : Nat → Timer) :
    ∃ l', l.removeRoot.reorder tc mem = some l' ∧ ∀ x, l'.Has x ↔ l.Rest x := by
  rcases Nat.eq_zero_or_pos l.count with h0 | h1
  · obtain ⟨timers, hre, hrearr, -⟩ := h.removeRoot.toFilled.reorder mem
    obtain ⟨-, hhas⟩ := h.removeRoot.toFilled.rearrange hrearr
    have hcount := (removeRoot_empty h0 h.zero fun i hi => h.above i (by omega)).1
    refine ⟨_, hre, fun x => (hhas x).trans (iff_of_false (fun hx => ?_) fun hx => ?_)⟩
    · obtain ⟨i, hi, hn, -⟩ := hx.elim
      omega
    · obtain ⟨i, hi, hn, -⟩ := hx.elim
      omega
  · obtain ⟨l', hre, hhas, -⟩ := h.toFilled.removeRoot_reorder h1 mem
    exact ⟨l', hre, hhas⟩

/-- A stop that has a meaning keeps the list packed, also when the timer is not in it. -/
theorem Packed.takeOut (h : Packed tc l) (hno : ∀ x, (s.mem x).state ≠ .search)
    {x : TimerService tc × TimerList} (hx : s.takeOut l p = some x) :
    x.1 = s.searched p ∧ Packed tc x.2 := by
  have h128 := tc.le_128
  have hlt := h.count_lt
  obtain ⟨k, hk, hcase⟩ := @Filled.searchFrom tc _ l p h.toFilled (search_iff hno p) 256 1 le_rfl
    (by omega) (by omega)
  simp only [TimerService.takeOut, hk, Option.bind_some] at hx
  obtain ⟨timers, hsub, hx⟩ := Option.bind_eq_some_iff.mp hx
  obtain ⟨l', hre, rfl⟩ := Option.map_eq_some_iff.mp hx
  have hpacked : Packed tc { l with timers := timers } := by
    rcases hcase with ⟨hk1, hkn, -⟩ | ⟨rfl, -⟩
    · -- found: the timer climbs from its place
      obtain ⟨hsub', hrearr⟩ := h.toFilled.subir _ hk1 hkn
      obtain rfl := Option.some.inj (hsub'.symm.trans hsub)
      exact h.rearrange hrearr
    · -- not found: the search ends behind the last entry
      rw [h.subir_behind hsub]
      exact h
  refine ⟨?_, hpacked.removeRoot.reorder hre⟩
  simp [TimerService.searched, TimerService.setTimer]

namespace PackedLists

theorem congr (h : PackedLists s) (hcur : t.current = s.current) (hfut : t.future = s.future)
    (hmem : t.mem = s.mem) : PackedLists t :=
  ⟨hcur ▸ h.current, hfut ▸ h.future, hmem ▸ h.noSearch⟩

theorem setTimer (h : PackedLists s) {p : Nat} {f : Timer → Timer}
    (hf : (f (s.mem p)).state ≠ .search) : PackedLists (s.setTimer p f) := by
  refine ⟨h.current, h.future, fun x => ?_⟩
  by_cases hx : x = p
  · rw [hx]
    have hself : (s.setTimer p f).mem p = f (s.mem p) := Function.update_self ..
    rw [hself]
    exact hf
  · have hne : (s.setTimer p f).mem x = s.mem x := Function.update_of_ne hx _ _
    rw [hne]
    exact h.noSearch x

theorem setCurrent (h : PackedLists s) (hl : Packed tc l) : PackedLists (s.setCurrent l) :=
  ⟨hl, h.future, h.noSearch⟩

theorem setFuture (h : PackedLists s) (hl : Packed tc l) : PackedLists (s.setFuture l) :=
  ⟨h.current, hl, h.noSearch⟩

theorem setWake (h : PackedLists s) (v : Nat) : PackedLists (s.setWake v) := by
  unfold TimerService.setWake
  split
  · exact h
  · exact h.congr rfl rfl rfl

/-! Arming and stopping -/

theorem armFuture (h : PackedLists s) {v : Nat} (ht : s.armFuture p v = some t) : PackedLists t := by
  have h' : PackedLists (s.setTimer p fun t => { t with timeout := v }) :=
    h.setTimer (h.noSearch p)
  obtain ⟨list, hins, rfl⟩ := Option.map_eq_some_iff.mp ht
  exact (h'.setFuture (h'.future.insert hins)).setTimer (by simp)

theorem armCurrent (h : PackedLists s) {v : Nat} (ht : s.armCurrent p v = some t) :
    PackedLists t := by
  have h' : PackedLists (s.setTimer p fun t => { t with timeout := v }) :=
    h.setTimer (h.noSearch p)
  obtain ⟨list, hins, ht⟩ := Option.bind_eq_some_iff.mp ht
  obtain ⟨u, hu, rfl⟩ := Option.map_eq_some_iff.mp ht
  have hlist := h'.setCurrent (h'.current.insert hins)
  have hu : PackedLists u := by
    split at hu
    · obtain ⟨first, -, rfl⟩ := Option.map_eq_some_iff.mp hu
      split
      · exact hlist.setWake _
      · exact hlist
    · exact Option.some.inj hu ▸ hlist
  exact hu.setTimer (by simp)

theorem arm (h : PackedLists s) {timeWait : Nat} (ht : s.arm p timeWait = some t) :
    PackedLists t := by
  have h' : PackedLists (s.setDue p (s.now + timeWait)) := h.congr rfl rfl rfl
  unfold TimerService.arm at ht
  dsimp only at ht
  split at ht
  · exact h'.armFuture ht
  · exact h'.armCurrent ht

theorem set (h : PackedLists s) {cbp : Bool} {cb : Option Nat} {timeWait : Nat}
    {x : TimerService tc × RetCode × Option Nat} (hx : s.osTimerSet cbp cb timeWait = some x) :
    PackedLists x.1 := by
  cases cb with
  | none => exact Option.some.inj hx ▸ h
  | some cb =>
      cases cbp with
      | false => exact Option.some.inj hx ▸ h
      | true =>
          unfold TimerService.osTimerSet at hx
          cases hfree : TimerService.searchFree s.mem tc.brtosMaxTimer 0 with
          | error code =>
              simp only [hfree] at hx
              exact Option.some.inj hx ▸ h
          | ok p =>
              simp only [hfree] at hx
              obtain ⟨u, hu, rfl⟩ := Option.map_eq_some_iff.mp hx
              have h' : PackedLists (s.setTimer p fun t =>
                { t with state := .stopped, funcCb := some cb }) := h.setTimer (by simp)
              split at hu
              · exact h'.arm hu
              · exact Option.some.inj hu ▸ h'

theorem start (h : PackedLists s) {o : Option Nat} {timeWait : Nat}
    {x : TimerService tc × RetCode} (hx : s.osTimerStart o timeWait = some x) :
    PackedLists x.1 := by
  unfold TimerService.osTimerStart at hx
  split at hx
  · split at hx
    · generalize (if timeWait > tc.timerMaxCounter then tc.timerMaxCounter else timeWait) = n at hx
      obtain ⟨u, hu, rfl⟩ := Option.map_eq_some_iff.mp hx
      split at hu
      · exact h.arm hu
      · exact Option.some.inj hu ▸ h
    · exact Option.some.inj hx ▸ h
  · exact Option.some.inj hx ▸ h

/-- The state of a stop before the timer gets its new state. -/
theorem searched (h : PackedLists s) {q : Nat} (hq : q ≠ p) : ((s.searched p).mem q).state ≠ .search := by
  rw [s.searched_of_ne hq]
  exact h.noSearch q

theorem stop (h : PackedLists s) {o : Option Nat} {del : Bool} {x : TimerService tc × RetCode}
    (hx : s.osTimerStop o del = some x) : PackedLists x.1 := by
  unfold TimerService.osTimerStop at hx
  split at hx
  · rename_i p
    obtain ⟨u, hu, rfl⟩ := Option.map_eq_some_iff.mp hx
    have hu : Packed tc u.current ∧ Packed tc u.future ∧ u.mem = (s.searched p).mem := by
      split at hu
      · obtain ⟨y, hy, rfl⟩ := Option.map_eq_some_iff.mp hu
        obtain ⟨hfst, hpacked⟩ := h.current.takeOut h.noSearch hy
        rw [hfst]
        exact ⟨hpacked, h.future, rfl⟩
      · obtain ⟨y, hy, rfl⟩ := Option.map_eq_some_iff.mp hu
        obtain ⟨hfst, hpacked⟩ := h.future.takeOut h.noSearch hy
        rw [hfst]
        exact ⟨h.current, hpacked, rfl⟩
    refine ⟨hu.1, hu.2.1, fun q => ?_⟩
    by_cases hq : q = p
    · rw [hq]
      simp only [TimerService.setTimer, Function.update_self]
      split <;> simp
    · simp only [TimerService.setTimer, Function.update_of_ne hq]
      rw [hu.2.2]
      exact h.searched hq
  · exact Option.some.inj hx ▸ h

/-! The task -/

theorem nextRoot (h : PackedLists s) {pc : TaskPc} (ht : s.nextRoot pc = some t) : PackedLists t := by
  obtain ⟨list, hre, rfl⟩ := Option.map_eq_some_iff.mp ht
  exact (h.setCurrent (h.current.reorder hre)).congr rfl rfl rfl

theorem release (h : PackedLists s) (p : Nat) : PackedLists (s.release p) := by
  have h' : PackedLists (s.setTimer p fun _ => ⟨none, 0, .notUsed⟩) := h.setTimer (by simp)
  exact h'.setCurrent h.current.removeRoot

theorem moveToFuture (h : PackedLists s) {v : Nat} (ht : s.moveToFuture p v = some t) :
    PackedLists t := by
  have h' : PackedLists (s.setTimer p fun t => { t with timeout := v }) :=
    h.setTimer (h.noSearch p)
  obtain ⟨list, hins, rfl⟩ := Option.map_eq_some_iff.mp ht
  exact (h'.setFuture (h'.future.insert hins)).setCurrent h'.current.removeRoot

theorem rearm (h : PackedLists s) (p repeats : Nat) : PackedLists (s.rearm p repeats) := by
  have h' : PackedLists (s.setTimer p fun t => { t with state := .running }) := h.setTimer (by simp)
  exact h'.congr rfl rfl rfl

theorem finishDrain (h : PackedLists s) {repeats : Nat} (ht : s.finishDrain p repeats = some t) :
    PackedLists t := by
  obtain ⟨u, hu, ht⟩ := Option.bind_eq_some_iff.mp ht
  refine nextRoot ?_ ht
  split at hu
  · exact (h.rearm p repeats).moveToFuture hu
  · exact Option.some.inj hu ▸ h.release p

theorem finishExpired (h : PackedLists s) {repeats : Nat}
    (ht : s.finishExpired p repeats = some t) : PackedLists t := by
  obtain ⟨u, hu, ht⟩ := Option.bind_eq_some_iff.mp ht
  refine nextRoot ?_ ht
  have h' := h.rearm p repeats
  split at hu
  · dsimp only at hu
    split at hu
    · exact h'.moveToFuture hu
    · exact Option.some.inj hu ▸ h'.setTimer (h'.noSearch p)
  · exact Option.some.inj hu ▸ h.release p

theorem task (h : PackedLists s) {repeats : Nat} {o : TimerObs}
    (ht : s.taskStep repeats = some (t, o)) : PackedLists t := by
  unfold TimerService.taskStep at ht
  have hfire : ∀ p pc, PackedLists (s.fire p pc) := by
    intro p pc
    have h' : PackedLists (s.setTimer p fun t => { t with state := .stopped }) := h.setTimer (by simp)
    exact h'.congr rfl rfl rfl
  have hswitch : PackedLists s.switchLists := ⟨h.future, h.current, h.noSearch⟩
  cases hpc : s.pc <;> simp only [hpc] at ht
  case asleep => cases ht
  case drainCallback =>
    obtain ⟨p, -, ht⟩ := Option.bind_eq_some_iff.mp ht
    obtain ⟨u, hu, ht⟩ := Option.map_eq_some_iff.mp ht
    cases ht
    exact h.finishDrain hu
  case callback =>
    obtain ⟨p, -, ht⟩ := Option.bind_eq_some_iff.mp ht
    obtain ⟨u, hu, ht⟩ := Option.map_eq_some_iff.mp ht
    cases ht
    exact h.finishExpired hu
  case drain =>
    split at ht <;> cases ht
    · exact hfire _ _
    · exact hswitch.congr rfl rfl rfl
  case test =>
    split at ht
    · split at ht <;> cases ht
      · exact hfire _ _
      · exact h.congr rfl rfl rfl
    · cases ht
      exact h.congr rfl rfl rfl
  case switchTest =>
    split at ht <;> cases ht
    · exact hswitch.congr rfl rfl rfl
    · exact h.congr rfl rfl rfl
  case wrapTest =>
    split at ht
    · split at ht <;> cases ht <;> exact h.congr rfl rfl rfl
    · cases ht
      exact h.congr rfl rfl rfl
  all_goals
    cases ht
    exact h.congr rfl rfl rfl

/-- **The step lemma**, for any action. -/
theorem step (h : PackedLists s) {a : TimerAct} {o : TimerObs} (ht : s.step a = some (t, o)) :
    PackedLists t := by
  unfold TimerService.step at ht
  split at ht
  case isFalse => cases ht
  cases a with
  | call c =>
      cases c with
      | set cbp cb timeWait =>
          obtain ⟨x, hx, ht⟩ := Option.map_eq_some_iff.mp ht
          cases ht
          exact h.set hx
      | start p timeWait =>
          obtain ⟨x, hx, ht⟩ := Option.map_eq_some_iff.mp ht
          cases ht
          exact h.start hx
      | stop p del =>
          obtain ⟨x, hx, ht⟩ := Option.map_eq_some_iff.mp ht
          cases ht
          exact h.stop hx
  | brtosStart =>
      cases ht
      exact h.congr rfl rfl rfl
  | tick =>
      cases ht
      unfold TimerService.tick
      extract_lets count u
      split <;> exact h.congr rfl rfl rfl
  | task repeats => exact h.task ht

theorem init (tc : TimerConfig) : PackedLists (TimerService.init tc) := by
  have hempty : Packed tc (⟨fun _ => none, 0, false⟩ : TimerList) :=
    ⟨⟨Nat.lt_of_lt_of_le (by decide) tc.two_le,
      fun i h1 hi => absurd (h1.trans hi) (by simp), fun _ _ => rfl⟩, rfl⟩
  exact ⟨hempty, hempty, fun _ => by simp [TimerService.init]⟩

/-- The run lemma. -/
theorem run {ok : TimerService tc → TimerAct → Prop} {tr : List (TimerAct × TimerObs)}
    (hr : Run TimerService.step ok s tr t) (h : PackedLists s) : PackedLists t :=
  hr.invariant h fun _ _ _ _ hi _ hstep => hi.step hstep

end PackedLists

end Brtos
