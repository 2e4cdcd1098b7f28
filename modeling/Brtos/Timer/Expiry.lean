import Brtos.Timer.Stop

/-!
# Brtos.Timer.Expiry

**Which timer an expiry affects.** The timer task calls a callback outside the critical
section and remembers the timer `p`. Afterwards it removes, or moves, whatever is at the
root of the current list by then.

Any calls may be made meanwhile, by the callback or by other tasks, and ticks may come
(`Meanwhile`). `expiry_exact_iff` says for every state they lead to exactly when the end
of the expiry concerns `p` and no other timer. It asks nothing of the lists but that no
entry in use is `NULL`, which holds in every state that is reached.
-/

namespace Brtos

open BinaryHeap

variable {tc : TimerConfig} {s t u : TimerService tc} {p x n repeats : Nat} {pc : TaskPc}

/-! ### During the callback -/

/-- What can happen while a callback is being called: calls and ticks. -/
def Meanwhile : TimerAct → Prop
  | .call _ | .tick => True
  | _ => False

instance : (a : TimerAct) → Decidable (Meanwhile a)
  | .call _ | .tick => isTrue trivial
  | .brtosStart | .task _ => isFalse id

/-- Whether the timer was stopped, and not set or started again. -/
def stoppedBy (p : Nat) (tr : List (TimerAct × TimerObs)) : Bool :=
  tr.foldl (fun stopped x =>
    match x with
    | (.call (.stop (some q) _), .returned .ok _) => if q = p then true else stopped
    | (.call (.start (some q) _), .returned .ok _) => if q = p then false else stopped
    | (.call (.set ..), .returned .ok (some q)) => if q = p then false else stopped
    | _ => stopped) false

/-- The task is where it was. -/
structure SameTask (s t : TimerService tc) : Prop where
  pc_eq : t.pc = s.pc
  p_eq : t.p = s.p
  called_eq : t.called = s.called

namespace SameTask

theorem refl (s : TimerService tc) : SameTask s s := ⟨rfl, rfl, rfl⟩

theorem trans (h : SameTask s t) (h' : SameTask t u) : SameTask s u :=
  ⟨h'.pc_eq.trans h.pc_eq, h'.p_eq.trans h.p_eq, h'.called_eq.trans h.called_eq⟩

theorem setWake (s : TimerService tc) (v : Nat) : SameTask s (s.setWake v) := by
  unfold TimerService.setWake
  split
  · exact refl s
  · exact ⟨rfl, rfl, rfl⟩

theorem armFuture {v : Nat} (ht : s.armFuture p v = some t) : SameTask s t := by
  obtain ⟨list, -, rfl⟩ := Option.map_eq_some_iff.mp ht
  exact ⟨rfl, rfl, rfl⟩

theorem armCurrent {v : Nat} (ht : s.armCurrent p v = some t) : SameTask s t := by
  obtain ⟨list, -, ht⟩ := Option.bind_eq_some_iff.mp ht
  obtain ⟨u, hu, rfl⟩ := Option.map_eq_some_iff.mp ht
  have hu : SameTask s u := by
    split at hu
    · obtain ⟨first, -, rfl⟩ := Option.map_eq_some_iff.mp hu
      have hlist : SameTask s ((s.setTimer p fun t => { t with timeout := v }).setCurrent list) :=
        ⟨rfl, rfl, rfl⟩
      split
      · exact hlist.trans (setWake _ _)
      · exact hlist
    · exact Option.some.inj hu ▸ ⟨rfl, rfl, rfl⟩
  exact hu.trans ⟨rfl, rfl, rfl⟩

theorem arm {timeWait : Nat} (ht : s.arm p timeWait = some t) : SameTask s t := by
  have hdue : SameTask s (s.setDue p (s.now + timeWait)) := ⟨rfl, rfl, rfl⟩
  unfold TimerService.arm at ht
  dsimp only at ht
  split at ht
  · exact hdue.trans (armFuture ht)
  · exact hdue.trans (armCurrent ht)

theorem set {cbp : Bool} {cb : Option Nat} {timeWait : Nat}
    {x : TimerService tc × RetCode × Option Nat} (hx : s.osTimerSet cbp cb timeWait = some x) :
    SameTask s x.1 := by
  cases cb with
  | none => exact Option.some.inj hx ▸ refl s
  | some cb =>
      cases cbp with
      | false => exact Option.some.inj hx ▸ refl s
      | true =>
          unfold TimerService.osTimerSet at hx
          cases hfree : TimerService.searchFree s.mem tc.brtosMaxTimer 0 with
          | error code =>
              simp only [hfree] at hx
              exact Option.some.inj hx ▸ refl s
          | ok p =>
              simp only [hfree] at hx
              obtain ⟨u, hu, rfl⟩ := Option.map_eq_some_iff.mp hx
              have hset : SameTask s (s.setTimer p fun t =>
                { t with state := .stopped, funcCb := some cb }) := ⟨rfl, rfl, rfl⟩
              split at hu
              · exact hset.trans (arm hu)
              · exact Option.some.inj hu ▸ hset

theorem start {o : Option Nat} {timeWait : Nat} {x : TimerService tc × RetCode}
    (hx : s.osTimerStart o timeWait = some x) : SameTask s x.1 := by
  unfold TimerService.osTimerStart at hx
  split at hx
  · split at hx
    · generalize (if timeWait > tc.timerMaxCounter then tc.timerMaxCounter else timeWait) = n at hx
      obtain ⟨u, hu, rfl⟩ := Option.map_eq_some_iff.mp hx
      split at hu
      · exact arm hu
      · exact Option.some.inj hu ▸ refl s
    · exact Option.some.inj hx ▸ refl s
  · exact Option.some.inj hx ▸ refl s

theorem takeOut {l : TimerList} {y : TimerService tc × TimerList} (hy : s.takeOut l p = some y) :
    SameTask s y.1 := by
  obtain ⟨pos, -, hy⟩ := Option.bind_eq_some_iff.mp hy
  obtain ⟨timers, -, hy⟩ := Option.bind_eq_some_iff.mp hy
  obtain ⟨l', -, rfl⟩ := Option.map_eq_some_iff.mp hy
  exact ⟨rfl, rfl, rfl⟩

theorem stop {o : Option Nat} {del : Bool} {x : TimerService tc × RetCode}
    (hx : s.osTimerStop o del = some x) : SameTask s x.1 := by
  unfold TimerService.osTimerStop at hx
  split at hx
  · obtain ⟨u, hu, rfl⟩ := Option.map_eq_some_iff.mp hx
    have hu : SameTask s u := by
      split at hu
      · obtain ⟨y, hy, rfl⟩ := Option.map_eq_some_iff.mp hu
        exact (takeOut hy).trans ⟨rfl, rfl, rfl⟩
      · obtain ⟨y, hy, rfl⟩ := Option.map_eq_some_iff.mp hu
        exact (takeOut hy).trans ⟨rfl, rfl, rfl⟩
    exact hu.trans ⟨rfl, rfl, rfl⟩
  · exact Option.some.inj hx ▸ refl s

/-- The step lemma: only a tick that wakes the task moves it. -/
theorem step {a : TimerAct} {o : TimerObs} (ha : Meanwhile a) (hawake : s.pc ≠ .asleep)
    (ht : s.step a = some (t, o)) : SameTask s t := by
  unfold TimerService.step at ht
  split at ht
  case isFalse => cases ht
  cases a with
  | call c =>
      cases c with
      | set cbp cb timeWait =>
          obtain ⟨x, hx, ht⟩ := Option.map_eq_some_iff.mp ht
          cases ht
          exact set hx
      | start p timeWait =>
          obtain ⟨x, hx, ht⟩ := Option.map_eq_some_iff.mp ht
          cases ht
          exact start hx
      | stop p del =>
          obtain ⟨x, hx, ht⟩ := Option.map_eq_some_iff.mp ht
          cases ht
          exact stop hx
  | tick =>
      cases ht
      unfold TimerService.tick
      extract_lets count u
      rw [if_neg fun h => hawake h.1]
      exact ⟨rfl, rfl, rfl⟩
  | brtosStart => cases ha
  | task repeats => cases ha

/-- The run lemma. -/
theorem run {tr : List (TimerAct × TimerObs)} (hawake : s.pc ≠ .asleep)
    (hr : Run TimerService.step (fun _ a => Meanwhile a) s tr t) : SameTask s t := by
  refine hr.invariant (refl s) fun u a v o h ha hstep => h.trans (step ha ?_ hstep)
  rw [h.pc_eq]
  exact hawake

end SameTask

/-! ### The end of an expiry -/

theorem nextRoot_eq {list : TimerList} (pc : TaskPc)
    (hre : s.current.reorder tc s.mem = some list) :
    s.nextRoot pc = some (((s.setCurrent list).readRoot).setPc pc) := by
  rw [TimerService.nextRoot, hre]
  rfl

theorem rearm_mem (s : TimerService tc) (p n v : Nat) (hx : x ≠ p) :
    ((s.rearm p n).setTimer p fun t => { t with timeout := v }).mem x = s.mem x := by
  simp [TimerService.rearm, TimerService.setTimer, Function.update_of_ne hx]

/-- The timer is freed, and whatever is at the root is removed. -/
theorem release_rest (h : PackedLists s) (p : Nat) (pc : TaskPc) :
    ∃ t, (s.release p).nextRoot pc = some t ∧ (∀ x, t.current.Has x ↔ s.current.Rest x) ∧
      t.future = s.future ∧ ∀ x, x ≠ p → t.mem x = s.mem x := by
  obtain ⟨list, hre, hhas⟩ := h.current.removeRoot_reorder (s.release p).mem
  have hnext : (s.release p).nextRoot pc = some _ := nextRoot_eq pc hre
  exact ⟨_, hnext, hhas, rfl, fun x hx => Function.update_of_ne hx _ _⟩

/-- The timer goes to the future list, and whatever is at the root is removed. -/
theorem move_rest (h : PackedLists s) (p n v : Nat) (pc : TaskPc) :
    ∃ t, ((s.rearm p n).moveToFuture p v).bind (·.nextRoot pc) = some t ∧
      (∀ x, t.current.Has x ↔ s.current.Rest x) ∧
      (∀ x, t.future.Has x ↔ x = p ∨ s.future.Kept tc x) ∧ ∀ x, x ≠ p → t.mem x = s.mem x := by
  obtain ⟨u, hu⟩ : ∃ u, u = (s.rearm p n).setTimer p fun t => { t with timeout := v } := ⟨_, rfl⟩
  obtain ⟨list', hins, -, hhas', -⟩ := h.future.toFilled.insert u.mem p
  obtain ⟨list, hre, hhas⟩ := h.current.removeRoot_reorder u.mem
  have hmove : (s.rearm p n).moveToFuture p v =
      some ((u.setFuture list').setCurrent s.current.removeRoot) := by
    rw [hu] at hins ⊢
    exact congrArg (Option.map _) hins
  have hnext : ((u.setFuture list').setCurrent s.current.removeRoot).nextRoot pc = some _ :=
    nextRoot_eq pc hre
  rw [hmove, Option.bind_some]
  refine ⟨_, hnext, hhas, hhas', fun x hx => ?_⟩
  have hmem : u.mem x = s.mem x := hu ▸ rearm_mem s p n v hx
  exact hmem

/-- The timer gets its new timeout where it is. -/
theorem keep_same (h : PackedLists s) (p n v : Nat) (pc : TaskPc) :
    ∃ t, ((s.rearm p n).setTimer p fun t => { t with timeout := v }).nextRoot pc = some t ∧
      (∀ x, t.current.Has x ↔ s.current.Has x) ∧ t.future = s.future ∧
      ∀ x, x ≠ p → t.mem x = s.mem x := by
  obtain ⟨timers, hre, hrearr, -⟩ := h.current.toFilled.reorder
    ((s.rearm p n).setTimer p fun t => { t with timeout := v }).mem
  obtain ⟨-, hhas⟩ := h.current.toFilled.rearrange hrearr
  have hnext : ((s.rearm p n).setTimer p fun t => { t with timeout := v }).nextRoot pc = some _ :=
    nextRoot_eq pc hre
  exact ⟨_, hnext, hhas, rfl, fun x hx => rearm_mem s p n v hx⟩

/-! ### Exactly the timer that fired -/

/-- The end of an expiry with result `n` concerns timer `p` and no other: every other
timer that runs and is in a list keeps its timeout and its place in some list; `p` is in
exactly one list if it is to be repeated, and in none if it is not, or was stopped. -/
structure ExpiresExactly (s : TimerService tc) (p n : Nat) (stopped : Bool)
    (t : TimerService tc) : Prop where
  others : ∀ x, x ≠ p → (s.mem x).state = .running → s.current.Has x ∨ s.future.Has x →
    (t.mem x).timeout = (s.mem x).timeout ∧ (t.current.Has x ∨ t.future.Has x)
  repeated : 0 < n → stopped = false → Xor (t.current.Has p) (t.future.Has p)
  gone : n = 0 ∨ stopped = true → ¬ t.current.Has p ∧ ¬ t.future.Has p

namespace TimerService

/-- The timer goes to the future list. -/
def Moves (s : TimerService tc) (n : Nat) : Prop :=
  s.pc = .drainCallback ∨ tc.wraps (s.osTickCounter + n)

instance (s : TimerService tc) (n : Nat) : Decidable (s.Moves n) :=
  inferInstanceAs (Decidable (_ ∨ _))

/-- The timer at a place that is given up is `p`, or does not run, or is somewhere else. -/
def Spares (s : TimerService tc) (p : Nat) (left : Nat → Prop) (place : Option Nat) : Prop :=
  ∀ x ∈ place, x = p ∨ (s.mem x).state ≠ .running ∨ left x

instance (s : TimerService tc) (p : Nat) (left : Nat → Prop) [DecidablePred left] :
    (place : Option Nat) → Decidable (s.Spares p left place)
  | none => isTrue fun _ hx => nomatch hx
  | some x => decidable_of_iff (x = p ∨ (s.mem x).state ≠ .running ∨ left x)
      ⟨fun h _ hx => Option.some.inj hx ▸ h, fun h => h x rfl⟩

/-- The end of an expiry with result `n` concerns timer `p` only.

* A timer that is freed gives up the root of the current list, which must be its own, and
  must be nowhere else.
* A timer that moves gives up the root in the same way, and the last place of the future
  list if that is full; and it must not have been stopped.
* A timer that stays must be in no list if it was stopped, and else in exactly one. -/
def ExpiryOk (s : TimerService tc) (p n : Nat) (stopped : Bool) : Prop :=
  if n = 0 then
    s.Spares p (fun x => s.current.Rest x ∨ s.future.Has x) s.root ∧
      ¬ s.current.Rest p ∧ ¬ s.future.Has p
  else if s.Moves n then
    stopped = false ∧ ¬ s.current.Rest p ∧
      s.Spares p (fun x => s.current.Rest x ∨ s.future.Kept tc x) s.root ∧
      (¬ s.future.count < tc.brtosMaxTimer - 1 →
        s.Spares p (fun x => s.current.Rest x ∨ s.future.Kept tc x) (s.future.timers s.future.count))
  else if stopped = true then ¬ s.current.Has p ∧ ¬ s.future.Has p
  else Xor (s.current.Has p) (s.future.Has p)

instance (s : TimerService tc) (p n : Nat) (stopped : Bool) :
    Decidable (s.ExpiryOk p n stopped) := by
  unfold TimerService.ExpiryOk
  infer_instance

end TimerService

theorem Filled.has_iff_root {l : TimerList} (hf : Filled tc l) :
    l.Has x ↔ l.timers 1 = some x ∨ l.Rest x := by
  rcases Nat.eq_zero_or_pos l.count with h0 | h1
  · have hnone : l.timers 1 = none := hf.above 1 (by omega)
    refine iff_of_false (fun h => ?_) (not_or.mpr ⟨by simp [hnone], fun h => ?_⟩)
    · obtain ⟨i, hi, hn, -⟩ := h.elim
      omega
    · obtain ⟨i, hi, hn, -⟩ := h.elim
      omega
  · exact TimerList.has_iff_rest h1

/-- What an insertion overwrites: the last place of a full list. -/
theorem TimerList.has_iff_kept {l : TimerList} :
    l.Has x ↔ l.Kept tc x ∨
      (¬ l.count < tc.brtosMaxTimer - 1 ∧ l.timers l.count = some x) := by
  have h2 := tc.two_le
  unfold TimerList.Has TimerList.Kept
  by_cases hroom : l.count < tc.brtosMaxTimer - 1
  · simp [hroom]
  · simp only [hroom, if_false, not_false_eq_true, true_and]
    constructor
    · rintro ⟨i, hi, h1, hx⟩
      by_cases heq : i = l.count
      · exact Or.inr (heq ▸ hx)
      · exact Or.inl ⟨i, by omega, h1, hx⟩
    · rintro (⟨i, hi, h1, hx⟩ | hx)
      · exact ⟨i, by omega, h1, hx⟩
      · exact ⟨l.count, by omega, by omega, hx⟩

/-- The end of an expiry in terms of the timers left in the lists. -/
theorem expiresExactly_iff {stopped : Bool} {C F : Nat → Prop}
    (hcur : ∀ x, t.current.Has x ↔ C x) (hfut : ∀ x, t.future.Has x ↔ F x)
    (hmem : ∀ x, x ≠ p → t.mem x = s.mem x) :
    ExpiresExactly s p n stopped t ↔
      (∀ x, x ≠ p → (s.mem x).state = .running → s.current.Has x ∨ s.future.Has x → C x ∨ F x) ∧
      (0 < n → stopped = false → Xor (C p) (F p)) ∧
      (n = 0 ∨ stopped = true → ¬ C p ∧ ¬ F p) := by
  constructor
  · rintro ⟨hothers, hrep, hgone⟩
    rw [hcur, hfut] at hrep hgone
    refine ⟨fun x hx hrun hin => ?_, hrep, hgone⟩
    rw [← hcur, ← hfut]
    exact (hothers x hx hrun hin).2
  · rintro ⟨hothers, hrep, hgone⟩
    rw [← hcur, ← hfut] at hrep hgone
    refine ⟨fun x hx hrun hin => ⟨congrArg Timer.timeout (hmem x hx), ?_⟩, hrep, hgone⟩
    rw [hcur, hfut]
    exact hothers x hx hrun hin

/-- The timer is freed. -/
theorem release_exact_iff (h : PackedLists s) (stopped : Bool)
    (hcur : ∀ x, t.current.Has x ↔ s.current.Rest x) (hfut : t.future = s.future)
    (hmem : ∀ x, x ≠ p → t.mem x = s.mem x) :
    ExpiresExactly s p 0 stopped t ↔ s.ExpiryOk p 0 stopped := by
  rw [expiresExactly_iff hcur (fun x => by rw [hfut]) hmem]
  unfold TimerService.ExpiryOk TimerService.Spares
  rw [if_pos rfl]
  constructor
  · intro ⟨hothers, _, hgone⟩
    refine ⟨fun x hx => ?_, hgone (Or.inl rfl)⟩
    -- whoever is at the root is given up
    by_cases hxp : x = p
    · exact Or.inl hxp
    · by_cases hrun : (s.mem x).state = .running
      · have hin : s.current.Has x := h.current.toFilled.has_iff_root.mpr (Or.inl hx)
        exact Or.inr (Or.inr (hothers x hxp hrun (Or.inl hin)))
      · exact Or.inr (Or.inl hrun)
  · intro ⟨hroot, hgone⟩
    refine ⟨fun x hx hrun hin => ?_, fun h => absurd h (lt_irrefl 0), fun _ => hgone⟩
    rcases hin with hin | hin
    · rcases h.current.toFilled.has_iff_root.mp hin with hat | hrest
      · rcases hroot x hat with hxp | hstate | hleft
        · exact absurd hxp hx
        · exact absurd hrun hstate
        · exact hleft
      · exact Or.inl hrest
    · exact Or.inr hin

/-- The timer moves to the future list. -/
theorem move_exact_iff (h : PackedLists s) (hn : 0 < n) (hm : s.Moves n) (stopped : Bool)
    (hcur : ∀ x, t.current.Has x ↔ s.current.Rest x)
    (hfut : ∀ x, t.future.Has x ↔ x = p ∨ s.future.Kept tc x)
    (hmem : ∀ x, x ≠ p → t.mem x = s.mem x) :
    ExpiresExactly s p n stopped t ↔ s.ExpiryOk p n stopped := by
  rw [expiresExactly_iff hcur hfut hmem]
  unfold TimerService.ExpiryOk TimerService.Spares
  rw [if_neg (by omega), if_pos hm]
  constructor
  · intro ⟨hothers, hrep, hgone⟩
    -- the timer is in the future list now, so it must not have been stopped
    have hstopped : stopped = false := by
      by_contra hst
      exact (hgone (Or.inr (eq_true_of_ne_false hst))).2 (Or.inl rfl)
    have hrest : ¬ s.current.Rest p := fun hr =>
      (hrep hn hstopped).elim (fun h => h.2 (Or.inl rfl)) fun h => h.2 hr
    -- two places are given up: the root, and the last place of a full future list
    have hspares : ∀ x, s.current.Has x ∨ s.future.Has x →
        x = p ∨ (s.mem x).state ≠ .running ∨ s.current.Rest x ∨ s.future.Kept tc x := by
      intro x hin
      by_cases hxp : x = p
      · exact Or.inl hxp
      · by_cases hrun : (s.mem x).state = .running
        · have hleft := hothers x hxp hrun hin
          exact Or.inr (Or.inr (hleft.imp_right fun h => h.resolve_left hxp))
        · exact Or.inr (Or.inl hrun)
    refine ⟨hstopped, hrest, fun x hx => hspares x (Or.inl ?_), fun hfull x hx =>
      hspares x (Or.inr ?_)⟩
    · exact h.current.toFilled.has_iff_root.mpr (Or.inl hx)
    · exact TimerList.has_iff_kept.mpr (Or.inr ⟨hfull, hx⟩)
  · intro ⟨hstopped, hrest, hroot, hlast⟩
    refine ⟨fun x hx hrun hin => ?_, fun _ _ => Or.inr ⟨Or.inl rfl, hrest⟩, fun hgone => ?_⟩
    · have hleft : s.current.Rest x ∨ s.future.Kept tc x := by
        rcases hin with hin | hin
        · rcases h.current.toFilled.has_iff_root.mp hin with hat | hr
          · exact ((hroot x hat).resolve_left hx).resolve_left (not_not.mpr hrun)
          · exact Or.inl hr
        · rcases TimerList.has_iff_kept.mp hin with hk | ⟨hfull, hat⟩
          · exact Or.inr hk
          · exact ((hlast hfull x hat).resolve_left hx).resolve_left (not_not.mpr hrun)
      exact hleft.imp_right Or.inr
    · rcases hgone with h0 | hst
      · omega
      · rw [hstopped] at hst
        cases hst

/-- The timer stays. -/
theorem keep_exact_iff (hn : 0 < n) (hm : ¬ s.Moves n) (stopped : Bool)
    (hcur : ∀ x, t.current.Has x ↔ s.current.Has x) (hfut : t.future = s.future)
    (hmem : ∀ x, x ≠ p → t.mem x = s.mem x) :
    ExpiresExactly s p n stopped t ↔ s.ExpiryOk p n stopped := by
  rw [expiresExactly_iff hcur (fun x => by rw [hfut]) hmem]
  unfold TimerService.ExpiryOk
  rw [if_neg (by omega), if_neg hm]
  cases stopped with
  | true =>
      rw [if_pos rfl]
      exact ⟨fun h => h.2.2 (Or.inr rfl), fun h =>
        ⟨fun _ _ _ hin => hin, fun _ hst => (by cases hst), fun _ => h⟩⟩
  | false =>
      rw [if_neg Bool.false_ne_true]
      refine ⟨fun h => h.2.1 hn rfl, fun h => ⟨fun _ _ _ hin => hin, fun _ _ => h, fun hgone => ?_⟩⟩
      rcases hgone with h0 | hst
      · omega
      · cases hst

/-- The end of an expiry, for any state of the lists. -/
theorem finish_exact_iff (h : PackedLists s) (hpc : s.InCallback p) (stopped : Bool) :
    (∃ t o, s.taskStep repeats = some (t, o) ∧
      ExpiresExactly s p (s.repeatOf repeats) stopped t) ↔
      s.ExpiryOk p (s.repeatOf repeats) stopped := by
  obtain ⟨hpc, hp⟩ := hpc
  obtain ⟨n, hn⟩ : ∃ n, n = s.repeatOf repeats := ⟨_, rfl⟩
  rw [← hn]
  -- one piece of the task, and what it leaves in the lists
  obtain ⟨u, hu, hiff⟩ : ∃ u, s.taskStep repeats = some (u, .silent) ∧
      (ExpiresExactly s p n stopped u ↔ s.ExpiryOk p n stopped) := by
    rcases hpc with hpc | hpc
    · have hstep : s.taskStep repeats = (s.finishExpired p n).map (·, .silent) := by
        unfold TimerService.taskStep
        simp only [hpc, hp, Option.bind_some, ← hn]
      rw [hstep]
      rcases Nat.eq_zero_or_pos n with h0 | hpos
      · obtain ⟨u, hu, hcur, hfut, hmem⟩ := release_rest h p .test
        rw [finishExpired_release (by omega), hu]
        exact ⟨u, rfl, h0 ▸ release_exact_iff h stopped hcur hfut hmem⟩
      · by_cases hwrap : tc.wraps (s.osTickCounter + n)
        · obtain ⟨u, hu, hcur, hfut, hmem⟩ := move_rest h p n _ .test
          rw [finishExpired_move hpos hwrap, hu]
          exact ⟨u, rfl, move_exact_iff h hpos (Or.inr hwrap) stopped hcur hfut hmem⟩
        · obtain ⟨u, hu, hcur, hfut, hmem⟩ := keep_same h p n _ .test
          have hstay : ¬ s.Moves n := by
            rintro (hdrain | hw)
            · rw [hpc] at hdrain
              cases hdrain
            · exact hwrap hw
          rw [finishExpired_keep hpos hwrap, hu]
          exact ⟨u, rfl, keep_exact_iff hpos hstay stopped hcur hfut hmem⟩
    · have hstep : s.taskStep repeats = (s.finishDrain p n).map (·, .silent) := by
        unfold TimerService.taskStep
        simp only [hpc, hp, Option.bind_some, ← hn]
      rw [hstep]
      rcases Nat.eq_zero_or_pos n with h0 | hpos
      · obtain ⟨u, hu, hcur, hfut, hmem⟩ := release_rest h p .drain
        rw [finishDrain_release (by omega), hu]
        exact ⟨u, rfl, h0 ▸ release_exact_iff h stopped hcur hfut hmem⟩
      · obtain ⟨u, hu, hcur, hfut, hmem⟩ := move_rest h p n _ .drain
        rw [finishDrain_move hpos, hu]
        exact ⟨u, rfl, move_exact_iff h hpos (Or.inl hpc) stopped hcur hfut hmem⟩
  constructor
  · rintro ⟨t, o, ht, hexact⟩
    obtain ⟨rfl, -⟩ := Prod.mk.inj (Option.some.inj (hu.symm.trans ht))
    exact hiff.mp hexact
  · intro hok
    exact ⟨u, .silent, hu, hiff.mpr hok⟩

/-- **When an expiry affects exactly the timer that fired.** Let the lists have no gaps
when the callback of `p` is called, and let any calls and ticks happen until it is over.
What the task does next, with the callback's result `n`, concerns `p` and no other timer,
if and only if `ExpiryOk` holds of the state it finds. -/
theorem expiry_exact_iff {s0 : TimerService tc} {tr : List (TimerAct × TimerObs)}
    (h0 : PackedLists s0) (hin : s0.InCallback p)
    (hr : Run TimerService.step (fun _ a => Meanwhile a) s0 tr s) (repeats : Nat) :
    (∃ t o, s.taskStep repeats = some (t, o) ∧
      ExpiresExactly s p (s.repeatOf repeats) (stoppedBy p tr) t) ↔
      s.ExpiryOk p (s.repeatOf repeats) (stoppedBy p tr) := by
  have hpacked : PackedLists s := PackedLists.run hr h0
  have hawake : s0.pc ≠ .asleep := by
    intro hpc
    rcases hin.1 with h | h <;> rw [hpc] at h <;> cases h
  have hsame : SameTask s0 s := .run hawake hr
  have hin' : s.InCallback p := by
    unfold TimerService.InCallback
    rw [hsame.pc_eq, hsame.p_eq]
    exact hin
  exact finish_exact_iff hpacked hin' _

/-- Two timers; the callback of the first is being called. -/
def expiryScript : List TimerAct :=
  [.call (.set true (some 0) 5), .call (.set true (some 1) 9), .brtosStart, .task 0, .task 0,
    .task 0, .tick, .tick, .tick, .tick, .tick, .task 0, .task 0, .task 0]

/-- A third timer is set during the callback, for a later time, and the callback asks for
a repetition. -/
theorem expiry_exact_iff_later :
    ∃ t o, (timersAfter (expiryScript ++ [.call (.set true (some 2) 7)])).taskStep 3 =
        some (t, o) ∧
      ExpiresExactly (timersAfter (expiryScript ++ [.call (.set true (some 2) 7)])) 0 3 false t := by
  have hrun : Run TimerService.step KeepsLists (TimerService.init exampleTimerConfig) _
      (timersAfter expiryScript) := Run.of_admits (by decide +kernel)
  have hcall : Run TimerService.step (fun _ a => Meanwhile a) (timersAfter expiryScript) _
      (Run.after TimerService.step (timersAfter expiryScript) [.call (.set true (some 2) 7)]) :=
    Run.of_admits (by decide +kernel)
  exact (expiry_exact_iff (p := 0) (PackedLists.run hrun (.init _)) (by decide +kernel) hcall 3).mpr
    (by decide +kernel)

/-- **A callback that stops its own timer** takes it from the root, and the end of the
expiry removes the next one: timer 1 runs, and is in no list afterwards. -/
theorem own_stop_loses_other :
    ∃ tr tr' t, ∃ s0 s : TimerService exampleTimerConfig,
      Run TimerService.step KeepsLists (TimerService.init exampleTimerConfig) tr s0 ∧
      TimerInv s0 ∧ s0.InCallback 0 ∧
      Run TimerService.step (fun _ a => Meanwhile a) s0 tr' s ∧
      tr' = [(.call (.stop (some 0) false), .returned .ok none)] ∧
      s.taskStep 0 = some (t, .silent) ∧
      (s.mem 1).state = .running ∧ s.current.Has 1 ∧ ¬ t.current.Has 1 ∧ ¬ t.future.Has 1 ∧
      ¬ ExpiresExactly s 0 0 true t := by
  have hrun : Run TimerService.step KeepsLists (TimerService.init exampleTimerConfig) _
      (timersAfter expiryScript) := Run.of_admits (by decide +kernel)
  have hcall : Run TimerService.step (fun _ a => Meanwhile a) (timersAfter expiryScript) _
      (Run.after TimerService.step (timersAfter expiryScript) [.call (.stop (some 0) false)]) :=
    Run.of_admits (by decide +kernel)
  have hgone : ∃ t, (Run.after TimerService.step (timersAfter expiryScript)
      [.call (.stop (some 0) false)]).taskStep 0 = some (t, .silent) ∧
      ¬ t.current.Has 1 ∧ ¬ t.future.Has 1 := ⟨_, rfl, by decide +kernel, by decide +kernel⟩
  obtain ⟨t, ht, hcur, hfut⟩ := hgone
  have hstate : ((Run.after TimerService.step (timersAfter expiryScript)
      [.call (.stop (some 0) false)]).mem 1).state = .running := by decide +kernel
  have hhas : (Run.after TimerService.step (timersAfter expiryScript)
      [.call (.stop (some 0) false)]).current.Has 1 := by decide +kernel
  refine ⟨_, _, t, _, _, hrun, timerInv_run (fun _ _ h => h) hrun, by decide +kernel, hcall,
    by decide +kernel, ht, hstate, hhas, hcur, hfut, fun hexact => ?_⟩
  rcases (hexact.others 1 (by decide) hstate (Or.inl hhas)).2 with h | h
  · exact hcur h
  · exact hfut h

end Brtos
