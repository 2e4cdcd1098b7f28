import Brtos.Interrupts.Functions

/-!
# Brtos.Interrupts.Nesting

**Which paths keep critical sections closed.** Where entering and leaving a critical
section disable and enable interrupts whatever they were, a section does not survive a
call that opens its own: `OSGetTickCount` in `BRTOSTimerTask` when a callback asks to be
repeated, `umm_malloc` and `umm_free` in the dynamic task and queue calls. In addition
`OSBlockTask` and `OSUninstallTask` leave a section they did not enter when they are given
handle 0 before the start.

`critical_sections_survive_iff` says that these are all: on every other path of every
function the sections hold, a task-level call returns with interrupts enabled, and the
calls made before the start leave them alone.
-/

namespace Brtos

open Flow Regions

/-- Where a function is called: `currentTask` and `iNesting` stay what they are during
the call, as its caller sees them. -/
structure CallContext where
  /-- `currentTask` is not 0. -/
  inTask : Bool
  /-- `iNesting` is not 0. -/
  inInterrupt : Bool
  deriving DecidableEq, Repr

namespace CallContext

/-- The outcomes a test may have. -/
def may (c : CallContext) : Test → Bool → Bool
  | .currentTask, v => v == c.inTask
  | .iNesting, v => v == c.inInterrupt
  | _, _ => true

/-- In a task, not in an interrupt that it was interrupted by. -/
def taskLevel (c : CallContext) : Bool := c.inTask && !c.inInterrupt

end CallContext

namespace KernelFunction

/-- The install, create, block and uninstall calls. -/
def madeBeforeStart : KernelFunction → Bool
  | osInstallTask | osUninstallTask | osBlockPriority | osBlockTask | osBlockMultipleTask
  | osSemCreate | osSemBinaryCreate | osMboxCreate | osMutexCreate
  | osQueueCreate | osQueue16Create | osQueue32Create | osDQueueCreate => true
  | _ => false

/-- The outcomes of a path on which all goes well, if interrupts are `e` at its start. A
block is allocated when `umm_malloc` is asked for more than 0 bytes, and freed when
`umm_free` is not given `NULL`. A task that uninstalls itself changes the context before
it leaves the region. -/
def goesWell (c : CallContext) (e : Bool) (took : Test → Bool → Bool) (f : KernelFunction) :
    Bool :=
  let allocates := took .sizeZero false || took .pointerNull false
  match f with
  | brtosTimerTask => !took .repeats true
  | osInstallTask | osDQueueCreate | osDQueueDelete => !allocates
  | osTimerInit | brtosStart => !(c.inTask && allocates)
  | osUninstallTask =>
    if !c.inTask && took .handleZero true then e
    else !allocates || (c.inTask && took .isCurrentTask true)
  | osBlockTask => c.inTask || e || !took .handleZero true
  | _ => true

end KernelFunction

variable {b : Build} {c : CallContext} {f : KernelFunction} {e : Bool} {o : Exit}
  {x : List (Event Test Action)}

/-- What a path of a function owes its caller, if interrupts are `e` at its start. -/
structure Survives (c : CallContext) (f : KernelFunction) (e : Bool)
    (x : List (Event Test Action)) (o : Exit) : Prop where
  /-- Interrupts stay off from the start of every region to its end. -/
  regions : RegionsHold x
  /-- A task-level call that starts with interrupts enabled returns so. -/
  returns : c.taskLevel = true → e = true → o ≠ .pause → flagAfter e x = true
  /-- Before the start the flag is never changed. -/
  beforeStart : c.inTask = false → f.madeBeforeStart = true → ∀ y, y <+: x → flagAfter e y = e

/-- The outcomes on a path. -/
def took (x : List (Event Test Action)) (t : Test) (v : Bool) : Bool := decide (.test t v ∈ x)

/-! ### The automaton -/

/-- The regions of a path, whether the flag has changed, and the outcomes that count. -/
structure Watch where
  monitor : Monitor
  changed : Bool
  outcomes : List (Test × Bool)
  deriving DecidableEq, Repr

namespace Watch

/-- The outcomes that `goesWell` asks for. -/
def watched : List (Test × Bool) :=
  [(.sizeZero, false), (.pointerNull, false), (.repeats, true), (.handleZero, true),
    (.isCurrentTask, true)]

/-- At the start of a path. -/
def start (e : Bool) : Watch := { monitor := .start e, changed := false, outcomes := [] }

/-- One more outcome. -/
def note (ps : List (Test × Bool)) : Event Test Action → List (Test × Bool)
  | .test t v => if (t, v) ∈ watched ∧ (t, v) ∉ ps then (t, v) :: ps else ps
  | _ => ps

/-- One event. -/
def step (e : Bool) (w : Watch) (v : Event Test Action) : Watch where
  monitor := w.monitor.step v
  changed := w.changed || (w.monitor.step v).enabled != e
  outcomes := note w.outcomes v

/-- `Survives`, read off at the end of a path. -/
def Accepts (c : CallContext) (f : KernelFunction) (e : Bool) (o : Exit) (w : Watch) : Prop :=
  w.monitor.broken = false ∧
    (c.taskLevel = true → e = true → o ≠ .pause → w.monitor.enabled = true) ∧
    (c.inTask = false → f.madeBeforeStart = true → w.changed = false)

instance {w : Watch} : Decidable (w.Accepts c f e o) := by
  unfold Accepts
  infer_instance

/-- `goesWell`, read off at the end of a path. -/
def goesWell (c : CallContext) (f : KernelFunction) (e : Bool) (w : Watch) : Bool :=
  f.goesWell c e fun t v => decide ((t, v) ∈ w.outcomes)

/-- The two agree at the end of every path of a body. -/
def agrees (a : Body) (c : CallContext) (f : KernelFunction) (e : Bool) : Bool :=
  match post c.may (step e) 8 a [start e] with
  | none => false
  | some r => [Exit.next, .brk, .ret, .pause].all fun o =>
      (r.ending o).all fun w => decide (w.Accepts c f e o) == w.goesWell c f e

theorem monitor_run {w : Watch} :
    (x.foldl (step e) w).monitor = x.foldl Monitor.step w.monitor := by
  induction x generalizing w with
  | nil => rfl
  | cons v x ih => rw [List.foldl_cons, List.foldl_cons, ih]; rfl

theorem changed_run {w : Watch} :
    (x.foldl (step e) w).changed = false ↔
      w.changed = false ∧ ∀ y, y <+: x → y ≠ [] → flagAfter w.monitor.enabled y = e := by
  induction x generalizing w with
  | nil =>
    simp
  | cons v x ih =>
    have hflag : (w.monitor.step v).enabled = flag w.monitor.enabled v := by
      exact enabled_run (x := [v])
    rw [List.foldl_cons, ih]
    simp only [step, hflag, Bool.or_eq_false_iff, bne_eq_false_iff_eq]
    constructor
    · rintro ⟨⟨hch, hv⟩, hrest⟩
      refine ⟨hch, fun y hy hne => ?_⟩
      obtain rfl | ⟨z, rfl, hz⟩ := List.prefix_cons_iff.mp hy
      · exact absurd rfl hne
      · -- the first event alone, or a prefix that goes on after it
        rw [flagAfter_cons]
        by_cases hz' : z = []
        · rw [hz']
          exact hv
        · exact hrest z hz hz'
    · rintro ⟨hch, hall⟩
      refine ⟨⟨hch, hall [v] (by simp) (by simp)⟩, fun y hy _ => ?_⟩
      exact hall (v :: y) (List.cons_prefix_cons.mpr ⟨rfl, hy⟩) (by simp)

theorem mem_note {ps : List (Test × Bool)} {v : Event Test Action} {p : Test × Bool} :
    p ∈ note ps v ↔ p ∈ ps ∨ (p ∈ watched ∧ v = .test p.1 p.2) := by
  unfold note
  split
  · rename_i t b
    split
    · rename_i h
      rw [List.mem_cons]
      constructor
      · rintro (rfl | hp)
        · exact Or.inr ⟨h.1, rfl⟩
        · exact Or.inl hp
      · rintro (hp | ⟨-, hp⟩)
        · exact Or.inr hp
        · cases hp
          exact Or.inl rfl
    · rename_i h
      constructor
      · exact Or.inl
      · rintro (hp | ⟨hw, hp⟩)
        · exact hp
        · cases hp
          exact not_not.mp fun hn => h ⟨hw, hn⟩
  · rename_i h
    constructor
    · exact Or.inl
    · rintro (hp | ⟨-, hp⟩)
      · exact hp
      · exact absurd hp (h _ _)

theorem outcomes_run {w : Watch} {p : Test × Bool} (hp : p ∈ watched) :
    p ∈ (x.foldl (step e) w).outcomes ↔ p ∈ w.outcomes ∨ .test p.1 p.2 ∈ x := by
  induction x generalizing w with
  | nil => simp
  | cons v x ih =>
    rw [List.foldl_cons, ih]
    simp only [step, mem_note, hp, true_and, List.mem_cons, or_assoc, eq_comm]

/-- What the automaton reads off at the end of a path is what the path owes. -/
theorem accepts_run : (x.foldl (step e) (start e)).Accepts c f e o ↔ Survives c f e x o := by
  have hmonitor : (x.foldl (step e) (start e)).monitor = x.foldl Monitor.step (.start e) :=
    monitor_run
  have henabled : (x.foldl Monitor.step (.start e)).enabled = flagAfter e x := enabled_run
  have hchanged : (x.foldl (step e) (start e)).changed = false ↔
      ∀ y, y <+: x → flagAfter e y = e := by
    rw [changed_run]
    constructor
    · rintro ⟨-, h⟩ y hy
      by_cases hne : y = []
      · rw [hne]
        rfl
      · exact h y hy hne
    · exact fun h => ⟨rfl, fun y hy _ => h y hy⟩
  unfold Accepts
  rw [hmonitor, henabled, hchanged, broken_start]
  exact ⟨fun h => ⟨h.1, h.2.1, h.2.2⟩, fun h => ⟨h.regions, h.returns, h.beforeStart⟩⟩

theorem goesWell_congr {t t' : Test → Bool → Bool} (h : ∀ p ∈ watched, t p.1 p.2 = t' p.1 p.2) :
    f.goesWell c e t = f.goesWell c e t' := by
  have h₁ := h (.sizeZero, false) (by decide)
  have h₂ := h (.pointerNull, false) (by decide)
  have h₃ := h (.repeats, true) (by decide)
  have h₄ := h (.handleZero, true) (by decide)
  have h₅ := h (.isCurrentTask, true) (by decide)
  cases f <;> simp only [KernelFunction.goesWell, h₁, h₂, h₃, h₄, h₅]

theorem goesWell_run :
    (x.foldl (step e) (start e)).goesWell c f e = f.goesWell c e (took x) := by
  refine goesWell_congr fun p hp => ?_
  have h : p ∈ (x.foldl (step e) (start e)).outcomes ↔ .test p.1 p.2 ∈ x := by
    rw [outcomes_run hp]
    simp [start]
  exact decide_eq_decide.mpr h

/-! ### All paths -/

/-- The two agree at the end of every path of every function. -/
theorem agrees_body : agrees (f.body b) c f e = true := by
  obtain ⟨t, i⟩ := c
  -- the configuration a body depends on, and nothing else, is tried out
  cases f with
  | osSemPend | osSemPost | osMboxPend | osMboxPost | osMutexAcquire | osMutexRelease
  | osQueuePend | osQueuePost | osDQueuePend | osDQueuePost =>
    simp only [KernelFunction.body]
    generalize b.errorCheck = ec
    revert t i e ec
    decide +kernel
  | osInstallTask | brtosStart | osTimerInit =>
    simp only [KernelFunction.body]
    generalize b.dynamicTasksEnabled = dt
    revert t i e dt
    decide +kernel
  | osAvailableMemory =>
    simp only [KernelFunction.body]
    generalize b.dynamicTasksEnabled = dt
    generalize b.dynamicQueueEnabled = dq
    generalize b.queueHeap = qh
    revert t i e dt dq qh
    decide +kernel
  | _ =>
    simp only [KernelFunction.body]
    clear b
    revert t i e
    decide +kernel

end Watch

/-- **Critical sections survive exactly on the paths that avoid the allocator and the tick
count inside one, and handle 0 before the start.** -/
theorem critical_sections_survive_iff (h : Exec c.may (f.body b) x o) :
    Survives c f e x o ↔ f.goesWell c e (took x) = true := by
  rw [← Watch.accepts_run, ← Watch.goesWell_run]
  have hall := Watch.agrees_body (b := b) (c := c) (f := f) (e := e)
  unfold Watch.agrees at hall
  split at hall
  · cases hall
  · rename_i r hr
    have hmem := exec_post h (List.mem_singleton.mpr rfl) hr
    have ho := List.all_eq_true.mp hall o (by cases o <;> decide)
    have hw := List.all_eq_true.mp ho _ hmem
    rw [beq_iff_eq] at hw
    rw [← hw, decide_eq_true_iff]

/-- One expired timer, whose callback asks for nothing more. -/
theorem critical_sections_survive_iff_once :
    ∃ x, Exec (CallContext.may ⟨true, false⟩)
        (KernelFunction.brtosTimerTask.body ⟨true, true, true, true⟩) x .pause ∧
      Event.test .hasCallback true ∈ x ∧
      Survives ⟨true, false⟩ .brtosTimerTask true x .pause := by
  let x : List (Event Test Action) :=
    [.call, .act .enter, .act .switch, .act .exit, .ret,
      .test .timerNull false, .call, .act .enter, .act .exit, .ret, .test .timeoutAhead false,
      .test .timerNull false, .call, .act .enter, .act .exit, .ret, .test .timeoutAhead false,
      .test .hasCallback true, .test .callbackEnables true, .act (.set true),
      .act .enter, .test .repeats false, .act .exit,
      .test .timerNull true]
  have hrun : walk (CallContext.may ⟨true, false⟩) 40
      (KernelFunction.brtosTimerTask.body ⟨true, true, true, true⟩)
      [false, false, false, false, false, true, true, false, true, true] = some (x, .pause, []) := by
    decide
  have h := exec_of_walk hrun
  exact ⟨x, h, by decide, (critical_sections_survive_iff h).mpr (by decide)⟩

/-- The callback asks to be repeated: `OSGetTickCount` enables interrupts before the new
timeout is written and the timer moved to the other list. -/
theorem repeated_timer_opens_region :
    ¬ ∀ b c f e x o, Exec (CallContext.may c) (KernelFunction.body b f) x o → Survives c f e x o := by
  intro h
  let x : List (Event Test Action) :=
    [.call, .act .enter, .act .switch, .act .exit, .ret,
      .test .timerNull false, .call, .act .enter, .act .exit, .ret, .test .timeoutAhead false,
      .test .timerNull false, .call, .act .enter, .act .exit, .ret, .test .timeoutAhead false,
      .test .hasCallback true, .test .callbackEnables true, .act (.set true),
      .act .enter, .test .repeats true, .call, .act .enter, .act .exit, .ret, .act .exit,
      .test .timerNull true]
  have hrun : walk (CallContext.may ⟨true, false⟩) 40
      (KernelFunction.brtosTimerTask.body ⟨true, true, true, true⟩)
      [false, false, false, false, false, true, true, true, true, true] = some (x, .pause, []) := by
    decide
  have hregions := (h _ _ _ true _ _ (exec_of_walk hrun)).regions
  have hbroken : (x.foldl Monitor.step (.start true)).broken = true := by decide
  rw [broken_start.mpr hregions] at hbroken
  cases hbroken

end Brtos
