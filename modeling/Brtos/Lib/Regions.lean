import Brtos.Lib.Flow

/-!
# Brtos.Lib.Regions

**Critical regions over one enable flag.** Entering a region disables interrupts, leaving
it enables them, whatever they were before; so a function that opens a region of its own,
called inside another one, ends that one early. `RegionsHold` says of a trace that this
never happens: between an `enter` and the `exit` of the same function that closes it, with
no context switch in between, the flag stays off.

`Monitor` decides this in one pass. It keeps, for each function in progress, whether its
region is open and still undisturbed, and `broken_run` says that it is exact.
-/

namespace Regions

open Flow

/-- What a function does to the interrupts. `set` is anything else that leaves them
enabled or disabled. -/
inductive Action
  | enter
  | exit
  | switch
  | set (b : Bool)
  deriving DecidableEq, Repr

variable {τ : Type*}

/-- The interrupt flag after an event; a context switch comes back with the flag it left
with. -/
def flag (e : Bool) : Event τ Action → Bool
  | .act .enter => false
  | .act .exit => true
  | .act (.set b) => b
  | .act .switch | .test .. | .call | .ret => e

/-- The interrupt flag after a stretch of a trace. -/
def flagAfter (e : Bool) (x : List (Event τ Action)) : Bool := x.foldl flag e

/-- One event, inside a region that was opened `d` calls up: the new distance, unless the
event is the end of the region or of all claims on it. -/
def depth : Nat → Event τ Action → Option Nat
  | _, .act .switch => none
  | 0, .act .enter | 0, .act .exit | 0, .ret => none
  | d + 1, .act .enter | d + 1, .act .exit => some (d + 1)
  | d + 1, .ret => some d
  | d, .call => some (d + 1)
  | d, .act (.set _) | d, .test .. => some d

/-- A stretch of a trace inside one region, from `d` calls down. -/
def within (d : Nat) (x : List (Event τ Action)) : Option Nat := x.foldlM depth d

/-- From the start of every region to its end the flag is off. -/
def RegionsHold (x : List (Event τ Action)) : Prop :=
  ∀ before inside after, x = before ++ .act .enter :: (inside ++ .act .exit :: after) →
    within 0 inside = some 0 → ∀ y, y <+: inside → flagAfter false y = false

/-! ### What is left to see of one region -/

/-- A region that is open, `d` calls up, and undisturbed so far. -/
def Held (d : Nat) (x : List (Event τ Action)) : Prop :=
  ∀ inside after, x = inside ++ .act .exit :: after → within d inside = some 0 →
    ∀ y, y <+: inside → flagAfter false y = false

/-- A region in which interrupts were on: it must not be closed any more. -/
def Lost (d : Nat) (x : List (Event τ Action)) : Prop :=
  ∀ inside after, x = inside ++ .act .exit :: after → within d inside ≠ some 0

variable {d : Nat} {v : Event τ Action} {x : List (Event τ Action)}

theorem within_cons : within d (v :: x) = (depth d v).bind (within · x) := rfl

theorem flagAfter_cons (e : Bool) : flagAfter e (v :: x) = flagAfter (flag e v) x := rfl

theorem held_nil : Held d ([] : List (Event τ Action)) := by
  intro inside after h
  simp at h

theorem lost_nil : Lost d ([] : List (Event τ Action)) := by
  intro inside after h
  simp at h

theorem lost_cons :
    Lost d (v :: x) ↔ ¬ (d = 0 ∧ v = .act .exit) ∧ ∀ d', depth d v = some d' → Lost d' x := by
  constructor
  · intro h
    constructor
    · rintro ⟨rfl, rfl⟩
      exact h [] x rfl rfl
    · intro d' hd inside after hx hw
      exact h (v :: inside) after (by rw [hx]; rfl) (by rw [within_cons, hd]; exact hw)
  · rintro ⟨hclose, hrest⟩ inside after hx hw
    cases inside with
    | nil =>
      obtain ⟨rfl, rfl⟩ : v = .act .exit ∧ x = after := by simpa using hx
      exact hclose ⟨by simpa [within] using hw, rfl⟩
    | cons v' inside =>
      obtain ⟨rfl, rfl⟩ : v = v' ∧ x = inside ++ .act .exit :: after := by simpa using hx
      rw [within_cons, Option.bind_eq_some_iff] at hw
      obtain ⟨d', hd, hw⟩ := hw
      exact hrest d' hd inside after rfl hw

theorem held_cons :
    Held d (v :: x) ↔
      ∀ d', depth d v = some d' → if flag false v then Lost d' x else Held d' x := by
  constructor
  · intro h d' hd
    have hin : ∀ inside after, x = inside ++ .act .exit :: after → within d' inside = some 0 →
        ∀ y, y <+: inside → flagAfter (flag false v) y = false := by
      intro inside after hx hw y hy
      refine h (v :: inside) after (by rw [hx]; rfl) (by rw [within_cons, hd]; exact hw) (v :: y) ?_
      exact List.cons_prefix_cons.mpr ⟨rfl, hy⟩
    split
    · rename_i hv
      intro inside after hx hw
      have := hin inside after hx hw [] List.nil_prefix
      simp [flagAfter, hv] at this
    · rename_i hv
      simp only [Bool.not_eq_true] at hv
      rw [hv] at hin
      exact hin
  · intro h inside after hx hw y hy
    cases inside with
    | nil =>
      rw [List.prefix_nil.mp hy]
      rfl
    | cons v' inside =>
      obtain ⟨rfl, rfl⟩ : v = v' ∧ x = inside ++ .act .exit :: after := by simpa using hx
      rw [within_cons, Option.bind_eq_some_iff] at hw
      obtain ⟨d', hd, hw⟩ := hw
      have hd' := h d' hd
      cases y with
      | nil => rfl
      | cons v'' y =>
        obtain ⟨rfl, hy'⟩ := List.cons_prefix_cons.mp hy
        rw [flagAfter_cons]
        split at hd'
        · exact absurd hw (hd' inside after rfl)
        · rename_i hv
          simp only [Bool.not_eq_true] at hv
          rw [hv]
          exact hd' inside after rfl hw y hy'

theorem regionsHold_nil : RegionsHold ([] : List (Event τ Action)) := by
  intro before inside after h
  simp at h

/-- A trace that starts with an `enter` starts with a region. -/
theorem regionsHold_cons :
    RegionsHold (v :: x) ↔ (v = .act .enter → Held 0 x) ∧ RegionsHold x := by
  constructor
  · intro h
    constructor
    · rintro rfl inside after hx
      exact h [] inside after (by rw [hx]; rfl)
    · intro before inside after hx
      exact h (v :: before) inside after (by rw [hx]; rfl)
  · rintro ⟨hv, hrest⟩ before inside after hx
    cases before with
    | nil =>
      obtain ⟨rfl, rfl⟩ : v = .act .enter ∧ x = inside ++ .act .exit :: after := by simpa using hx
      exact hv rfl inside after rfl
    | cons v' before =>
      obtain ⟨rfl, rfl⟩ : v = v' ∧ x = before ++ .act .enter :: (inside ++ .act .exit :: after) := by
        simpa using hx
      exact hrest before inside after rfl

/-! ### The monitor -/

/-- What is known of the last region of a function: it is closed or of no interest any
more, open and undisturbed, or open with interrupts seen on. -/
inductive Frame
  | closed | held | lost
  deriving DecidableEq, Repr

/-- Interrupts are on. -/
def Frame.disturb : Frame → Frame
  | .held => .lost
  | f => f

/-- The flag, the functions in progress from the inside out, and whether some region was
closed after interrupts had been on in it. -/
structure Monitor where
  enabled : Bool
  frames : List Frame
  broken : Bool
  deriving DecidableEq, Repr

namespace Monitor

/-- At the start of a function. -/
def start (e : Bool) : Monitor := { enabled := e, frames := [.closed], broken := false }

/-- One event. -/
def step (m : Monitor) : Event τ Action → Monitor
  | .act .enter => { m with enabled := false, frames := .held :: m.frames.tail }
  | .act .exit =>
    { enabled := true
      frames := .closed :: m.frames.tail.map Frame.disturb
      broken := m.broken || m.frames.head? == some .lost }
  | .act .switch => { m with frames := m.frames.map fun _ => .closed }
  | .act (.set b) =>
    { m with enabled := b, frames := if b then m.frames.map Frame.disturb else m.frames }
  | .test .. => m
  | .call => { m with frames := .closed :: m.frames }
  | .ret => { m with frames := m.frames.tail }

end Monitor

/-- What a frame asks of the rest of the trace. -/
def Frame.Asks : Frame → Nat → List (Event τ Action) → Prop
  | .closed, _, _ => True
  | .held, d, x => Held d x
  | .lost, d, x => Lost d x

/-- What the frames ask, the inner ones first. -/
def Asks (d : Nat) (x : List (Event τ Action)) : List Frame → Prop
  | [] => True
  | f :: fs => f.Asks d x ∧ Asks (d + 1) x fs

theorem asks_nil {d : Nat} {fs : List Frame} : Asks d ([] : List (Event τ Action)) fs := by
  induction fs generalizing d with
  | nil => trivial
  | cons f fs ih =>
    refine ⟨?_, ih⟩
    cases f with
    | closed => trivial
    | held => exact held_nil
    | lost => exact lost_nil

theorem asks_closed {d : Nat} {fs : List Frame} : Asks d x (fs.map fun _ => .closed) := by
  induction fs generalizing d with
  | nil => trivial
  | cons f fs ih => exact ⟨trivial, ih⟩

/-- An event that no frame of the list ends at moves what they ask to the rest. -/
theorem asks_cons {d d' : Nat} {fs : List Frame}
    (hd : ∀ i, depth (d + i) v = some (d' + i)) (hv : ¬ (d = 0 ∧ v = .act .exit)) :
    Asks d (v :: x) fs ↔
      Asks d' x (if flag false v then fs.map Frame.disturb else fs) := by
  induction fs generalizing d d' with
  | nil => cases hf : flag false v <;> simp [Asks]
  | cons f fs ih =>
    have hd₀ : depth d v = some d' := hd 0
    have hrest : Asks (d + 1) (v :: x) fs ↔
        Asks (d' + 1) x (if flag false v then fs.map Frame.disturb else fs) := ih
      (fun i => by rw [Nat.add_right_comm d, Nat.add_right_comm d']; exact hd (i + 1))
      (by omega)
    have hfirst : f.Asks d (v :: x) ↔ (if flag false v then f.disturb else f).Asks d' x := by
      cases f with
      | closed => split <;> exact Iff.rfl
      | held =>
        rw [Frame.Asks, held_cons]
        cases hf : flag false v <;> simp [hd₀, Frame.Asks, Frame.disturb]
      | lost =>
        rw [Frame.Asks, lost_cons]
        cases hf : flag false v <;> simp [hd₀, hv, Frame.Asks, Frame.disturb]
    rw [Asks, hfirst, hrest]
    cases hf : flag false v <;> simp [Asks]

/-- An event that ends a frame's region, other than by closing it, leaves nothing to ask. -/
theorem Frame.asks_of_ended {f : Frame} (hd : depth d v = none)
    (hv : ¬ (d = 0 ∧ v = .act .exit)) : f.Asks d (v :: x) := by
  cases f with
  | closed => trivial
  | held =>
    rw [Frame.Asks, held_cons, hd]
    simp
  | lost =>
    rw [Frame.Asks, lost_cons, hd]
    exact ⟨hv, by simp⟩

theorem Frame.asks_exit {f : Frame} : f.Asks 0 (.act .exit :: x) ↔ f ≠ .lost := by
  cases f with
  | closed => simp [Frame.Asks]
  | held => simp [Frame.Asks, held_cons, depth]
  | lost => simp [Frame.Asks, lost_cons]

theorem asks_switch {fs : List Frame} : Asks d (.act .switch :: x) fs := by
  induction fs generalizing d with
  | nil => trivial
  | cons f fs ih => exact ⟨Frame.asks_of_ended (by cases d <;> rfl) (by simp), ih⟩

theorem asks_frame {f : Frame} {fs : List Frame} :
    Asks d x (f :: fs) ↔ f.Asks d x ∧ Asks (d + 1) x fs := Iff.rfl

/-- **The monitor is exact**: it ends broken if and only if it was, a frame's region is
closed too late, or a region of the trace does not hold. -/
theorem broken_run {m : Monitor} :
    (x.foldl Monitor.step m).broken = false ↔
      m.broken = false ∧ Asks 0 x m.frames ∧ RegionsHold x := by
  induction x generalizing m with
  | nil => simp [asks_nil, regionsHold_nil]
  | cons v x ih =>
    rw [List.foldl_cons, ih, regionsHold_cons]
    obtain ⟨e, fs, b⟩ := m
    cases v with
    | test t c =>
      -- no frame asks anything of a test
      have h : Asks 0 (.test t c :: x) fs ↔ Asks 0 x fs :=
        asks_cons (fun i => by cases i <;> rfl) (by simp)
      simp [Monitor.step, h]
    | call =>
      -- every frame is one call further out, under a new one with no region
      have h : Asks 0 (.call :: x) fs ↔ Asks 1 x fs :=
        asks_cons (fun i => by rw [Nat.zero_add, Nat.add_comm]; cases i <;> rfl) (by simp)
      have hclosed : Frame.closed.Asks 0 x := trivial
      simp [Monitor.step, asks_frame, hclosed, h]
    | ret =>
      cases fs with
      | nil => simp [Monitor.step, Asks]
      | cons f fs =>
        -- the function that returns leaves its region, closed or not
        have h : Asks 1 (.ret :: x) fs ↔ Asks 0 x fs :=
          asks_cons (fun i => by rw [Nat.add_comm 1, Nat.zero_add]; rfl) (by simp)
        have hf : f.Asks 0 (.ret :: x) := Frame.asks_of_ended rfl (by simp)
        simp [Monitor.step, asks_frame, hf, h]
    | act a =>
      cases a with
      | enter =>
        have hheld : Frame.held.Asks 0 x ↔ Held 0 x := Iff.rfl
        cases fs with
        | nil => simp [Monitor.step, Asks, hheld]
        | cons f fs =>
          -- the innermost function starts a region; an earlier one of it is over
          have h : Asks 1 (.act .enter :: x) fs ↔ Asks 1 x fs :=
            asks_cons (fun i => by rw [Nat.add_comm]; rfl) (by simp)
          have hf : f.Asks 0 (.act .enter :: x) := Frame.asks_of_ended rfl (by simp)
          simp only [Monitor.step, List.tail_cons, asks_frame, hf, hheld, h]
          tauto
      | exit =>
        have hclosed : Frame.closed.Asks 0 x := trivial
        cases fs with
        | nil => simp [Monitor.step, Asks, hclosed]
        | cons f fs =>
          -- the region of the innermost function closes; its callers see interrupts on
          have h : Asks 1 (.act .exit :: x) fs ↔ Asks 1 x (fs.map Frame.disturb) :=
            asks_cons (fun i => by rw [Nat.add_comm]; rfl) (by simp)
          simp [Monitor.step, asks_frame, Frame.asks_exit, hclosed, h]
          tauto
      | switch =>
        -- another task runs: no region goes on over a context switch
        have h : Asks 0 x (fs.map fun _ => Frame.closed) := asks_closed
        simp only [Monitor.step, h, asks_switch]
        simp
      | set c =>
        have h : Asks 0 (.act (.set c) :: x) fs ↔
            Asks 0 x (if c then fs.map Frame.disturb else fs) :=
          asks_cons (fun i => by cases i <;> rfl) (by simp)
        simp only [Monitor.step, h]
        simp

theorem enabled_run {m : Monitor} :
    (x.foldl Monitor.step m).enabled = flagAfter m.enabled x := by
  induction x generalizing m with
  | nil => rfl
  | cons v x ih =>
    rw [List.foldl_cons, ih, flagAfter_cons]
    cases v with
    | act a => cases a <;> rfl
    | test t c => rfl
    | call => rfl
    | ret => rfl

theorem broken_start {e : Bool} :
    (x.foldl Monitor.step (.start e)).broken = false ↔ RegionsHold x := by
  rw [broken_run]
  simp [Monitor.start, Asks, Frame.Asks]

end Regions
