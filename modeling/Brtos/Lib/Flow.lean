import Mathlib.Tactic.Common
import Mathlib.Data.List.Basic

/-!
# Brtos.Lib.Flow

**Control flow without its data.** `Code τ α` is the control flow of a function: which
actions of a type `α` it performs and how the outcomes of its tests, named by a type `τ`,
steer it. `Exec` gives its runs, each with the trace of what happened and the way it ended.
Tests are free: a run takes any outcome that `may` admits, so what holds of every run
holds whatever the data are.

`walk` follows one run, with the outcomes given in a list. `post` runs an automaton over
all runs at once, and `exec_post` says that it misses none: a property of traces that an
automaton decides is proved of all runs by evaluation.
-/

namespace Flow

/-- The control flow of a function. `loop a` repeats `a` until it leaves with `brk` or
`ret`; at a `pause` the run may also be observed. -/
inductive Code (τ α : Type*)
  | skip
  | act (a : α)
  | seq (a b : Code τ α)
  | ite (t : τ) (a b : Code τ α)
  | loop (a : Code τ α)
  | brk
  | ret
  | pause
  | call (a : Code τ α)

/-- What a run leaves in its trace. -/
inductive Event (τ α : Type*)
  | test (t : τ) (b : Bool)
  | act (a : α)
  | call
  | ret
  deriving DecidableEq, Repr

/-- How a piece of code ends. -/
inductive Exit
  | next | brk | ret | pause
  deriving DecidableEq, Repr

namespace Code

variable {τ α : Type*}

/-- One after the other. -/
def block : List (Code τ α) → Code τ α
  | [] => skip
  | [a] => a
  | a :: as => a.seq (block as)

/-- `if (t) a`. -/
def ifTrue (t : τ) (a : Code τ α) : Code τ α := ite t a skip

/-- `if (!t) a`. -/
def ifFalse (t : τ) (a : Code τ α) : Code τ α := ite t skip a

/-- `while (t) a`. -/
def whileTrue (t : τ) (a : Code τ α) : Code τ α := loop (ite t a brk)

/-- `for (;;) a`. -/
def forever (a : Code τ α) : Code τ α := loop (pause.seq a)

end Code

variable {τ α σ : Type*} {may : τ → Bool → Bool}

/-- The runs of a piece of code. -/
inductive Exec (may : τ → Bool → Bool) : Code τ α → List (Event τ α) → Exit → Prop
  | skip : Exec may .skip [] .next
  | act {a} : Exec may (.act a) [.act a] .next
  | brk : Exec may .brk [] .brk
  | ret : Exec may .ret [] .ret
  | pauseNext : Exec may .pause [] .next
  | pauseHere : Exec may .pause [] .pause
  | seq {a b x y e} : Exec may a x .next → Exec may b y e → Exec may (.seq a b) (x ++ y) e
  | seqStop {a b x e} : Exec may a x e → e ≠ .next → Exec may (.seq a b) x e
  | iteTrue {t a b x e} : may t true = true → Exec may a x e →
      Exec may (.ite t a b) (.test t true :: x) e
  | iteFalse {t a b x e} : may t false = true → Exec may b x e →
      Exec may (.ite t a b) (.test t false :: x) e
  | loopNext {a x y e} : Exec may a x .next → Exec may (.loop a) y e →
      Exec may (.loop a) (x ++ y) e
  | loopBrk {a x} : Exec may a x .brk → Exec may (.loop a) x .next
  | loopRet {a x} : Exec may a x .ret → Exec may (.loop a) x .ret
  | loopPause {a x} : Exec may a x .pause → Exec may (.loop a) x .pause
  | call {a x e} : Exec may a x e → e ≠ .pause →
      Exec may (.call a) (.call :: (x ++ [.ret])) .next
  | callPause {a x} : Exec may a x .pause → Exec may (.call a) (.call :: x) .pause

/-! ### Following one run -/

/-- The outcome of a test, taken from the list if both are possible. -/
def decideTest (may : τ → Bool → Bool) (t : τ) : List Bool → Option (Bool × List Bool)
  | c :: cs =>
    if may t true = false then some (false, c :: cs)
    else if may t false = false then some (true, c :: cs)
    else some (c, cs)
  | [] =>
    if may t true = false then some (false, [])
    else if may t false = false then some (true, [])
    else none

/-- The run that takes the outcomes of the list, with what is left of it. -/
def walk (may : τ → Bool → Bool) :
    Nat → Code τ α → List Bool → Option (List (Event τ α) × Exit × List Bool)
  | 0, _, _ => none
  | _ + 1, .skip, cs => some ([], .next, cs)
  | _ + 1, .act a, cs => some ([.act a], .next, cs)
  | _ + 1, .brk, cs => some ([], .brk, cs)
  | _ + 1, .ret, cs => some ([], .ret, cs)
  | _ + 1, .pause, true :: cs => some ([], .pause, cs)
  | _ + 1, .pause, false :: cs => some ([], .next, cs)
  | _ + 1, .pause, [] => none
  | n + 1, .seq a b, cs =>
    (walk may n a cs).bind fun r =>
      if r.2.1 = .next then (walk may n b r.2.2).map fun r' => (r.1 ++ r'.1, r'.2) else some r
  | n + 1, .ite t a b, cs =>
    (decideTest may t cs).bind fun d =>
      if may t d.1 then
        (walk may n (if d.1 then a else b) d.2).map fun r => (.test t d.1 :: r.1, r.2)
      else none
  | n + 1, .loop a, cs =>
    (walk may n a cs).bind fun r =>
      match r.2.1 with
      | .next => (walk may n (.loop a) r.2.2).map fun r' => (r.1 ++ r'.1, r'.2)
      | .brk => some (r.1, .next, r.2.2)
      | _ => some r
  | n + 1, .call a, cs =>
    (walk may n a cs).map fun r =>
      if r.2.1 = .pause then (.call :: r.1, r.2) else (.call :: (r.1 ++ [.ret]), .next, r.2.2)

/-- What `walk` follows is a run. -/
theorem exec_of_walk {n : Nat} {a : Code τ α} {cs cs' : List Bool} {x : List (Event τ α)}
    {e : Exit} (h : walk may n a cs = some (x, e, cs')) : Exec may a x e := by
  induction n generalizing a cs cs' x e with
  | zero => simp [walk] at h
  | succ n ih =>
    cases a with
    | skip =>
      obtain ⟨rfl, rfl, -⟩ : [] = x ∧ .next = e ∧ cs = cs' := by simpa [walk] using h
      exact .skip
    | act a =>
      obtain ⟨rfl, rfl, -⟩ : [.act a] = x ∧ .next = e ∧ cs = cs' := by simpa [walk] using h
      exact .act
    | brk =>
      obtain ⟨rfl, rfl, -⟩ : [] = x ∧ .brk = e ∧ cs = cs' := by simpa [walk] using h
      exact .brk
    | ret =>
      obtain ⟨rfl, rfl, -⟩ : [] = x ∧ .ret = e ∧ cs = cs' := by simpa [walk] using h
      exact .ret
    | pause =>
      match cs with
      | [] => simp [walk] at h
      | true :: cs =>
        obtain ⟨rfl, rfl, -⟩ : [] = x ∧ .pause = e ∧ cs = cs' := by simpa [walk] using h
        exact .pauseHere
      | false :: cs =>
        obtain ⟨rfl, rfl, -⟩ : [] = x ∧ .next = e ∧ cs = cs' := by simpa [walk] using h
        exact .pauseNext
    | seq a b =>
      simp only [walk, Option.bind_eq_some_iff] at h
      obtain ⟨⟨y, e', cs₁⟩, ha, h⟩ := h
      split at h
      · rename_i he
        simp only at he
        subst he
        simp only [Option.map_eq_some_iff] at h
        obtain ⟨⟨z, e'', cs₂⟩, hb, h⟩ := h
        cases h
        -- the first piece ended normally
        exact .seq (ih ha) (ih hb)
      · -- the second piece is not reached
        rename_i he
        cases h
        exact .seqStop (ih ha) he
    | ite t a b =>
      simp only [walk, Option.bind_eq_some_iff] at h
      obtain ⟨⟨c, cs₁⟩, -, h⟩ := h
      split at h
      · rename_i hc
        simp only [Option.map_eq_some_iff] at h
        obtain ⟨⟨y, e', cs₂⟩, hb, h⟩ := h
        cases h
        cases c with
        | true => exact .iteTrue hc (ih hb)
        | false => exact .iteFalse hc (ih hb)
      · cases h
    | loop a =>
      simp only [walk, Option.bind_eq_some_iff] at h
      obtain ⟨⟨y, e', cs₁⟩, ha, h⟩ := h
      cases e' with
      | next =>
        simp only [Option.map_eq_some_iff] at h
        obtain ⟨⟨z, e'', cs₂⟩, hl, h⟩ := h
        cases h
        exact .loopNext (ih ha) (ih hl)
      | brk =>
        cases h
        exact .loopBrk (ih ha)
      | ret =>
        cases h
        exact .loopRet (ih ha)
      | pause =>
        cases h
        exact .loopPause (ih ha)
    | call a =>
      simp only [walk, Option.map_eq_some_iff] at h
      obtain ⟨⟨y, e', cs₁⟩, ha, h⟩ := h
      split at h
      · rename_i he
        simp only at he
        subst he
        cases h
        exact .callPause (ih ha)
      · rename_i he
        cases h
        exact .call (ih ha) he

/-! ### All runs at once -/

/-- The states an automaton may be in when a piece of code ends, by the way it ends. -/
structure Reached (σ : Type*) where
  next : List σ
  brk : List σ
  ret : List σ
  pause : List σ

namespace Reached

/-- The states at one kind of end. -/
def ending (r : Reached σ) : Exit → List σ
  | .next => r.next
  | .brk => r.brk
  | .ret => r.ret
  | .pause => r.pause

variable [BEq σ]

/-- Either of two. -/
def union (r r' : Reached σ) : Reached σ where
  next := r.next ∪ r'.next
  brk := r.brk ∪ r'.brk
  ret := r.ret ∪ r'.ret
  pause := r.pause ∪ r'.pause

theorem mem_union [LawfulBEq σ] {r r' : Reached σ} {e : Exit} {q : σ} :
    q ∈ (r.union r').ending e ↔ q ∈ r.ending e ∨ q ∈ r'.ending e := by
  cases e <;> exact List.mem_union_iff

/-- A loop whose body ends so. -/
def ofBody (r : Reached σ) : Reached σ := { next := r.brk, brk := [], ret := r.ret, pause := r.pause }

end Reached

section Post

variable [BEq σ]

/-- The states after one event. -/
def after (δ : σ → Event τ α → σ) (v : Event τ α) (s : List σ) : List σ := s.map (δ · v)

omit [BEq σ] in
theorem mem_after {δ : σ → Event τ α → σ} {v : Event τ α} {s : List σ} {q : σ} (h : q ∈ s) :
    δ q v ∈ after δ v s := List.mem_map_of_mem h

/-- Run the body of a loop from more and more states, until they are closed under it. -/
def close (step : List σ → Option (Reached σ)) : Nat → List σ → Option (Reached σ)
  | 0, _ => none
  | n + 1, s =>
    (step s).bind fun r =>
      if r.next.all s.contains then some r.ofBody else close step n (r.next ∪ s)

/-- The states the automaton `δ` reaches on the runs of a piece of code that start in one
of the states `s`. A loop is gone round at most `n` times. -/
def post (may : τ → Bool → Bool) (δ : σ → Event τ α → σ) (n : Nat) :
    Code τ α → List σ → Option (Reached σ)
  | .skip, s => some ⟨s, [], [], []⟩
  | .act a, s => some ⟨after δ (.act a) s, [], [], []⟩
  | .brk, s => some ⟨[], s, [], []⟩
  | .ret, s => some ⟨[], [], s, []⟩
  | .pause, s => some ⟨s, [], [], s⟩
  | .seq a b, s =>
    (post may δ n a s).bind fun r =>
      (post may δ n b r.next).map fun r' => r'.union { r with next := [] }
  | .ite t a b, s =>
    (post may δ n a (if may t true then after δ (.test t true) s else [])).bind fun r =>
      (post may δ n b (if may t false then after δ (.test t false) s else [])).map r.union
  | .loop a, s => close (post may δ n a) n s
  | .call a, s =>
    (post may δ n a (after δ .call s)).map fun r =>
      ⟨after δ .ret ((r.next ∪ r.brk) ∪ r.ret), [], [], r.pause⟩

variable [LawfulBEq σ] {δ : σ → Event τ α → σ} {n : Nat}

/-- The states a loop is closed at: they hold the given ones, and running the body from
them, once more, adds nothing. -/
theorem close_spec {step : List σ → Option (Reached σ)} {s : List σ} {r : Reached σ}
    (h : close step n s = some r) :
    ∃ s' r', s ⊆ s' ∧ step s' = some r' ∧ r'.next ⊆ s' ∧ r = r'.ofBody := by
  induction n generalizing s with
  | zero => simp [close] at h
  | succ n ih =>
    simp only [close, Option.bind_eq_some_iff] at h
    obtain ⟨r', hr', h⟩ := h
    split at h
    · rename_i hsub
      cases h
      refine ⟨s, r', fun _ hq => hq, hr', fun q hq => ?_, rfl⟩
      have := List.all_eq_true.mp hsub q hq
      simpa using this
    · obtain ⟨s', r'', hs, hrest⟩ := ih h
      exact ⟨s', r'', fun q hq => hs (List.mem_union_iff.mpr (Or.inr hq)), hrest⟩

theorem close_of_closed {step : List σ → Option (Reached σ)} {s : List σ} {r : Reached σ}
    (hn : n ≠ 0) (hr : step s = some r) (hsub : r.next ⊆ s) :
    close step n s = some r.ofBody := by
  obtain ⟨n, rfl⟩ := Nat.exists_eq_succ_of_ne_zero hn
  have hall : r.next.all s.contains = true := by
    rw [List.all_eq_true]
    intro q hq
    simpa using hsub hq
  simp only [close, hr, hall, Option.bind_some, if_true]

/-- **No run is missed**: at its end the automaton is in a state that `post` reached. -/
theorem exec_post {a : Code τ α} {x : List (Event τ α)} {e : Exit} (h : Exec may a x e) :
    ∀ {s : List σ} {r : Reached σ} {q : σ}, q ∈ s → post may δ n a s = some r →
      x.foldl δ q ∈ r.ending e := by
  induction h with
  | skip =>
    intro s r q hq hr
    cases hr
    exact hq
  | act =>
    intro s r q hq hr
    cases hr
    exact mem_after hq
  | brk =>
    intro s r q hq hr
    cases hr
    exact hq
  | ret =>
    intro s r q hq hr
    cases hr
    exact hq
  | pauseNext =>
    intro s r q hq hr
    cases hr
    exact hq
  | pauseHere =>
    intro s r q hq hr
    cases hr
    exact hq
  | seq _ _ iha ihb =>
    intro s r q hq hr
    simp only [post, Option.bind_eq_some_iff, Option.map_eq_some_iff] at hr
    obtain ⟨r₁, h₁, r₂, h₂, rfl⟩ := hr
    rw [List.foldl_append]
    exact Reached.mem_union.mpr (Or.inl (ihb (iha hq h₁) h₂))
  | @seqStop a b x e _ hne iha =>
    intro s r q hq hr
    simp only [post, Option.bind_eq_some_iff, Option.map_eq_some_iff] at hr
    obtain ⟨r₁, h₁, r₂, h₂, rfl⟩ := hr
    refine Reached.mem_union.mpr (Or.inr ?_)
    have := iha hq h₁
    -- the second piece is not reached, and its states are beside the point
    cases e with
    | next => exact absurd rfl hne
    | brk => exact this
    | ret => exact this
    | pause => exact this
  | iteTrue ht _ ih =>
    intro s r q hq hr
    simp only [post, Option.bind_eq_some_iff, Option.map_eq_some_iff, ht, if_true] at hr
    obtain ⟨r₁, h₁, r₂, h₂, rfl⟩ := hr
    exact Reached.mem_union.mpr (Or.inl (ih (mem_after hq) h₁))
  | iteFalse hf _ ih =>
    intro s r q hq hr
    simp only [post, Option.bind_eq_some_iff, Option.map_eq_some_iff, hf, if_true] at hr
    obtain ⟨r₁, h₁, r₂, h₂, rfl⟩ := hr
    exact Reached.mem_union.mpr (Or.inr (ih (mem_after hq) h₂))
  | loopNext _ _ iha ihl =>
    intro s r q hq hr
    have hn : n ≠ 0 := by
      rintro rfl
      simp [post, close] at hr
    obtain ⟨s', r', hs, hr', hsub, rfl⟩ := close_spec hr
    rw [List.foldl_append]
    -- the states the loop is closed at give the same result again
    exact ihl (hsub (iha (hs hq) hr')) (close_of_closed hn hr' hsub)
  | loopBrk _ iha =>
    intro s r q hq hr
    obtain ⟨s', r', hs, hr', -, rfl⟩ := close_spec hr
    have := iha (hs hq) hr'
    exact this
  | loopRet _ iha =>
    intro s r q hq hr
    obtain ⟨s', r', hs, hr', -, rfl⟩ := close_spec hr
    have := iha (hs hq) hr'
    exact this
  | loopPause _ iha =>
    intro s r q hq hr
    obtain ⟨s', r', hs, hr', -, rfl⟩ := close_spec hr
    have := iha (hs hq) hr'
    exact this
  | @call a x e _ hne ih =>
    intro s r q hq hr
    simp only [post, Option.map_eq_some_iff] at hr
    obtain ⟨r₁, h₁, rfl⟩ := hr
    have hmem := ih (mem_after hq) h₁
    -- a `return` or a `break` inside ends no more than the call
    have hends : (x.foldl δ (δ q .call)) ∈ (r₁.next ∪ r₁.brk) ∪ r₁.ret := by
      simp only [List.mem_union_iff]
      cases e with
      | next => exact Or.inl (Or.inl hmem)
      | brk => exact Or.inl (Or.inr hmem)
      | ret => exact Or.inr hmem
      | pause => exact absurd rfl hne
    rw [List.foldl_cons, List.foldl_append]
    exact mem_after hends
  | callPause _ ih =>
    intro s r q hq hr
    simp only [post, Option.map_eq_some_iff] at hr
    obtain ⟨r₁, h₁, rfl⟩ := hr
    have := ih (mem_after hq) h₁
    exact this

end Post

end Flow
