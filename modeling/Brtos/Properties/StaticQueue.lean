import Brtos.Lib.Fifo
import Brtos.Properties.Queue
import Brtos.Properties.QueueHeap

/-!
# Brtos.Properties.StaticQueue

**The static queues are bounded queues.** From its creation on, and as long as no task
waits on it, an 8-, 16- or 32-bit queue answers like a list of at most `OSQSize` values,
whatever the order of writes, reads and cleans, and stays in its part of `QUEUE_STACK`
(`static_queues_refine_fifo`).

The 16- and the 32-bit queues have no control block, and nobody can wait on them; their
functions are those of `WordQueue`, for two widths. The 8-bit queue is the kernel's, so
its calls are made through `Kernel.exec`, outside and inside of interrupts.
-/

namespace Brtos

variable {α : Type}

/-- `OS_QUEUE_16` or `OS_QUEUE_32`, and `QUEUE_STACK` as its elements see it: what is
stored at a byte offset. Pointers are byte offsets, too. -/
structure WordQueue (α : Type) where
  queue : OSQueue
  mem : Nat → α

namespace WordQueue

/-- Write an element of `width` bytes. -/
def write (width : Nat) (s : WordQueue α) (data : α) : WordQueue α × RetCode :=
  let c := s.queue
  if c.osqEntries < c.osqSize then
    let i := if c.osqIn = c.osqEnd then c.osqStart else c.osqIn
    (⟨{ c with osqEntries := c.osqEntries + 1, osqIn := i + width }, Function.update s.mem i data⟩,
      .writeBufferOk)
  else (s, .bufferUnderrun)

/-- Read an element of `width` bytes, and what is stored through the pointer. -/
def read (width : Nat) (s : WordQueue α) : WordQueue α × RetCode × Option α :=
  let c := s.queue
  if c.osqEntries > 0 then
    let i := if c.osqOut = c.osqEnd then c.osqStart else c.osqOut
    (⟨{ c with osqOut := i + width, osqEntries := c.osqEntries - 1 }, s.mem⟩,
      .readBufferOk, some (s.mem i))
  else (s, .noEntryAvailable, none)

def clean (s : WordQueue α) : WordQueue α × RetCode :=
  ({ s with
      queue := { s.queue with osqEntries := 0, osqIn := s.queue.osqStart, osqOut := s.queue.osqStart } },
    .cleanBufferOk)

/-- `OSWQueue16`. -/
def osWQueue16 (s : WordQueue UInt16) (data : UInt16) : WordQueue UInt16 × RetCode := s.write 2 data

/-- `OSRQueue16`. -/
def osRQueue16 (s : WordQueue UInt16) : WordQueue UInt16 × RetCode × Option UInt16 := s.read 2

/-- `OSCleanQueue16`. -/
def osCleanQueue16 (s : WordQueue UInt16) : WordQueue UInt16 × RetCode := s.clean

/-- `OSWQueue32`. -/
def osWQueue32 (s : WordQueue UInt32) (data : UInt32) : WordQueue UInt32 × RetCode := s.write 4 data

/-- `OSRQueue32`. -/
def osRQueue32 (s : WordQueue UInt32) : WordQueue UInt32 × RetCode × Option UInt32 := s.read 4

/-- `OSCleanQueue32`. -/
def osCleanQueue32 (s : WordQueue UInt32) : WordQueue UInt32 × RetCode := s.clean

/-- What the calls return for the answers of a bounded queue. -/
def result : Fifo.Result α → RetCode × Option α
  | .written => (.writeBufferOk, none)
  | .full => (.bufferUnderrun, none)
  | .value x => (.readBufferOk, some x)
  | .noEntry => (.noEntryAvailable, none)
  | .cleaned => (.cleanBufferOk, none)

/-- The queue as a buffer. -/
def buffer (s : WordQueue α) : Fifo.Buffer (Nat → α) := ⟨s.queue.ring, s.mem⟩

/-- A program made of a write, a read and a clean function. -/
def program (width : Nat) (write : WordQueue α → α → WordQueue α × RetCode)
    (read : WordQueue α → WordQueue α × RetCode × Option α)
    (clean : WordQueue α → WordQueue α × RetCode) :
    Fifo.Program (WordQueue α) (Fifo.Op α) (RetCode × Option α) (Nat → α) α where
  step s
    | .write data => some ((write s data).1, (write s data).2, none)
    | .read => some (read s)
    | .clean => some ((clean s).1, (clean s).2, none)
  ok _ _ := True
  op := id
  result _ := result
  width := width
  load mem := mem
  buffer := buffer

/-- The 16-bit queue. -/
def queue16 : Fifo.Program (WordQueue UInt16) (Fifo.Op UInt16) (RetCode × Option UInt16)
    (Nat → UInt16) UInt16 :=
  program 2 osWQueue16 osRQueue16 osCleanQueue16

/-- The 32-bit queue. -/
def queue32 : Fifo.Program (WordQueue UInt32) (Fifo.Op UInt32) (RetCode × Option UInt32)
    (Nat → UInt32) UInt32 :=
  program 4 osWQueue32 osRQueue32 osCleanQueue32

theorem write_spec {width : Nat} (hw : 0 < width) (s : WordQueue α) (data : α) :
    ∃ t res, s.write width data = (t, (result res).1) ∧ (result res).2 = none ∧
      Fifo.BufferStep width (fun mem => mem) s.buffer (.write data) t.buffer res := by
  by_cases hroom : s.queue.osqEntries < s.queue.osqSize
  · refine ⟨_, .written, if_pos hroom, rfl, ?_⟩
    refine .written hroom (Function.update_self ..) fun a ha => Function.update_of_ne ?_ _ _
    intro heq
    have heq : a = s.queue.ring.wrap s.queue.ring.inPos := heq
    omega
  · exact ⟨s, .full, if_neg hroom, rfl, .full hroom⟩

theorem read_spec (width : Nat) (s : WordQueue α) :
    ∃ t res, s.read width = (t, result res) ∧
      Fifo.BufferStep width (fun mem => mem) s.buffer .read t.buffer res := by
  by_cases hsome : s.queue.osqEntries > 0
  · exact ⟨_, .value _, if_pos hsome, .value hsome⟩
  · exact ⟨s, .noEntry, if_neg hsome, .noEntry (Nat.eq_zero_of_not_pos hsome)⟩

/-- The calls are operations on the buffer. -/
theorem program_stepsIn {width : Nat} (hw : 0 < width) :
    (program width (write width) (read width) clean : Fifo.Program (WordQueue α) _ _ _ _).StepsIn
      fun _ => True := by
  intro s op _ _
  cases op with
  | write data =>
      obtain ⟨t, res, hwrite, hnone, hstep⟩ := write_spec hw s data
      refine ⟨t, res, ?_, hstep, trivial⟩
      show some ((write width s data).1, (write width s data).2, none) = some (t, result res)
      rw [hwrite, ← hnone]
  | read =>
      obtain ⟨t, res, hread, hstep⟩ := read_spec width s
      exact ⟨t, res, congrArg some hread, hstep, trivial⟩
  | clean => exact ⟨_, .cleaned, rfl, .cleaned, trivial⟩

end WordQueue

/-! ### The 8-bit queue -/

/-- The calls that write, read and clean an 8-bit queue. -/
inductive ByteCall
  | wQueue (data : UInt8)
  | queuePost (data : UInt8)
  | rQueue
  | queuePend (timeWait : Nat)
  | queueClean
  deriving DecidableEq, Repr

namespace ByteCall

variable {cfg : Config}

/-- The call on queue `q`. -/
def call (q : Nat) : ByteCall → Call
  | wQueue data => .wQueue q data
  | queuePost data => .queuePost (some q) data
  | rQueue => .rQueue q
  | queuePend timeWait => .queuePend (some q) timeWait
  | queueClean => .queueClean q

def op : ByteCall → Fifo.Op UInt8
  | wQueue data | queuePost data => .write data
  | rQueue | queuePend _ => .read
  | queueClean => .clean

/-- What the calls return for the answers of a bounded queue. -/
def result : ByteCall → Fifo.Result UInt8 → Ret
  | _, .written => RetCode.writeBufferOk.ret
  | _, .full => RetCode.bufferUnderrun.ret
  | _, .value x => ⟨.readBufferOk, .byte x⟩
  | queuePend _, .noEntry => RetCode.exitByNoEntryAvailable.ret
  | _, .noEntry => RetCode.noEntryAvailable.ret
  | _, .cleaned => RetCode.cleanBufferOk.ret

/-- A call of a task or, with `0 < iNesting`, of an interrupt. -/
def step (q : Nat) (s : Kernel cfg) (x : Nat × ByteCall) : Option (Kernel cfg × Ret) :=
  match ({ s with iNesting := x.1 } : Kernel cfg).exec (x.2.call q) with
  | some (t, .returned r) => some (t, r)
  | _ => none

/-- Only tasks may pend, and only where they do not block. -/
def Ok (q : Nat) (s : Kernel cfg) (x : Nat × ByteCall) : Prop :=
  match x.2 with
  | queuePend timeWait =>
    (cfg.errorCheck = true → x.1 = 0) ∧
      (0 < (s.osQueueTable q).osqEntries ∨ timeWait = cfg.noTimeout)
  | _ => True

/-- The 8-bit queue `q`. -/
def queue8 (q : Nat) : Fifo.Program (Kernel cfg) (Nat × ByteCall) Ret (Nat → UInt8) UInt8 where
  step := step q
  ok := Ok q
  op x := x.2.op
  result x := x.2.result
  width := 1
  load mem := mem
  buffer s := ⟨s.ring q, s.queueStack⟩

/-- The queue is allocated, nobody waits on it, and its numbers are `uint16_t`. -/
structure Quiet (q : Nat) (s : Kernel cfg) : Prop where
  allocated : s.Allocated (.queue q)
  nobody : (s.event (.queue q)).osEventWait = 0
  entries_le : (s.osQueueTable q).osqEntries ≤ (s.osQueueTable q).osqSize
  size_lt : (s.osQueueTable q).osqSize < 65536

variable {q : Nat} {s : Kernel cfg}

theorem putByte_table (q : Nat) (s : Kernel cfg) (data : UInt8) :
    (s.putByte q data).osQueueTable q = { s.osQueueTable q with
      osqEntries := (s.osQueueTable q).osqEntries + 1
      osqIn := (s.ring q).wrap (s.ring q).inPos + 1 } :=
  Function.update_self ..

theorem osQueueClean_table (q : Nat) (s : Kernel cfg) :
    (s.osQueueClean q).1.osQueueTable q = { s.osQueueTable q with
      osqEntries := 0, osqIn := (s.osQueueTable q).osqStart, osqOut := (s.osQueueTable q).osqStart } :=
  Function.update_self ..

theorem Quiet.putByte (h : Quiet q s) (hroom : (s.osQueueTable q).osqEntries < (s.osQueueTable q).osqSize)
    (data : UInt8) : Quiet q (s.putByte q data) := by
  refine ⟨h.allocated, h.nobody, ?_, ?_⟩
  · rw [putByte_table]
    exact hroom
  · rw [putByte_table]
    exact h.size_lt

theorem Quiet.osQueueClean (h : Quiet q s) : Quiet q (s.osQueueClean q).1 := by
  refine ⟨h.allocated, h.nobody, ?_, ?_⟩
  · rw [osQueueClean_table]
    exact Nat.zero_le _
  · rw [osQueueClean_table]
    exact h.size_lt

theorem Quiet.getByte_table (h : Quiet q s) (hsome : 0 < (s.osQueueTable q).osqEntries) :
    (s.getByte q).1.osQueueTable q = { s.osQueueTable q with
      osqEntries := (s.osQueueTable q).osqEntries - 1
      osqOut := (s.ring q).wrap (s.ring q).outPos + 1 } := by
  have hle := h.entries_le
  have hlt := h.size_lt
  have hdec : ((s.osQueueTable q).osqEntries + 65535) % 65536 = (s.osQueueTable q).osqEntries - 1 := by
    omega
  have hq : (s.getByte q).1.osQueueTable q = { s.osQueueTable q with
      osqEntries := ((s.osQueueTable q).osqEntries + 65535) % 65536
      osqOut := (s.ring q).wrap (s.ring q).outPos + 1 } := Function.update_self ..
  rw [hq, hdec]

theorem Quiet.getByte (h : Quiet q s) (hsome : 0 < (s.osQueueTable q).osqEntries) :
    Quiet q (s.getByte q).1 := by
  refine ⟨h.allocated, h.nobody, ?_, ?_⟩
  · rw [h.getByte_table hsome]
    exact Nat.le_trans (Nat.sub_le _ _) h.entries_le
  · rw [h.getByte_table hsome]
    exact h.size_lt

/-- A byte is written. -/
theorem bufferStep_putByte (hroom : (s.osQueueTable q).osqEntries < (s.osQueueTable q).osqSize)
    (data : UInt8) :
    Fifo.BufferStep 1 (fun mem => mem) ⟨s.ring q, s.queueStack⟩ (.write data)
      ⟨(s.putByte q data).ring q, (s.putByte q data).queueStack⟩ .written := by
  have hring : (s.putByte q data).ring q = { s.ring q with
      entries := (s.ring q).entries + 1, inPos := (s.ring q).wrap (s.ring q).inPos + 1 } :=
    congrArg OSQueue.ring (putByte_table q s data)
  rw [hring]
  refine .written hroom (Function.update_self ..) fun a ha => Function.update_of_ne ?_ _ _
  intro heq
  have heq : a = (s.ring q).wrap (s.ring q).inPos := heq
  omega

/-- A byte is read. -/
theorem Quiet.bufferStep_getByte (h : Quiet q s) (hsome : 0 < (s.osQueueTable q).osqEntries) :
    Fifo.BufferStep 1 (fun mem => mem) ⟨s.ring q, s.queueStack⟩ .read
      ⟨(s.getByte q).1.ring q, (s.getByte q).1.queueStack⟩
      (.value (s.queueStack ((s.ring q).wrap (s.ring q).outPos))) := by
  have hring : (s.getByte q).1.ring q = { s.ring q with
      entries := (s.ring q).entries - 1, outPos := (s.ring q).wrap (s.ring q).outPos + 1 } :=
    congrArg OSQueue.ring (h.getByte_table hsome)
  rw [hring]
  exact .value hsome

/-- The calls are operations on the buffer. -/
theorem queue8_stepsIn (q : Nat) :
    (queue8 q : Fifo.Program (Kernel cfg) _ _ _ _).StepsIn (Quiet q) := by
  rintro s ⟨n, c⟩ hq hok
  -- the call is made in the state with its own nesting depth
  obtain ⟨k, hk⟩ : ∃ k : Kernel cfg, k = { s with iNesting := n } := ⟨_, rfl⟩
  have hquiet : Quiet q k := hk ▸ ⟨hq.allocated, hq.nobody, hq.entries_le, hq.size_lt⟩
  have hbuffer : (queue8 q).buffer s = ⟨k.ring q, k.queueStack⟩ := by rw [hk]; rfl
  have hstep : ∀ {t r}, k.exec (c.call q) = some (t, .returned r) →
      (queue8 q).step s (n, c) = some (t, r) := by
    intro t r hexec
    show step q s (n, c) = _
    rw [hk] at hexec
    unfold step
    rw [hexec]
  rw [hbuffer]
  have hcheck : ∀ f : Nat → Kernel cfg × Outcome,
      k.checkEvent .queue (some q) f = some (f q) := by
    intro f
    have hcond : ¬ (cfg.errorCheck ∧ ¬ k.Allocated (.queue q)) := fun h => h.2 hquiet.allocated
    exact if_neg hcond
  cases c with
  | wQueue data =>
      by_cases hroom : (k.osQueueTable q).osqEntries < (k.osQueueTable q).osqSize
      · exact ⟨_, .written, hstep (congrArg some (if_pos hroom)), bufferStep_putByte hroom data,
          hquiet.putByte hroom data⟩
      · exact ⟨k, .full, hstep (congrArg some (if_neg hroom)), .full hroom, hquiet⟩
  | queuePost data =>
      have hexec : k.exec (call q (.queuePost data)) = some (k.queuePost data q) := hcheck _
      by_cases hroom : (k.osQueueTable q).osqEntries < (k.osQueueTable q).osqSize
      · have hnobody : ¬ ((k.putByte q data).event (.queue q)).osEventWait ≠ 0 :=
          fun hne => hne hquiet.nobody
        have hpost : k.queuePost data q = (k.putByte q data, .returned RetCode.writeBufferOk.ret) :=
          (if_pos hroom).trans (if_neg hnobody)
        exact ⟨_, .written, hstep (hexec.trans (congrArg some hpost)),
          bufferStep_putByte hroom data, hquiet.putByte hroom data⟩
      · have hpost : k.queuePost data q = (k, .returned RetCode.bufferUnderrun.ret) :=
          if_neg hroom
        exact ⟨k, .full, hstep (hexec.trans (congrArg some hpost)), .full hroom, hquiet⟩
  | rQueue =>
      by_cases hsome : (k.osQueueTable q).osqEntries > 0
      · exact ⟨_, .value _, hstep (congrArg some (if_pos hsome)),
          hquiet.bufferStep_getByte hsome, hquiet.getByte hsome⟩
      · exact ⟨k, .noEntry, hstep (congrArg some (if_neg hsome)),
          .noEntry (Nat.eq_zero_of_not_pos hsome), hquiet⟩
  | queuePend timeWait =>
      obtain ⟨hnest, hblock⟩ : (cfg.errorCheck = true → n = 0) ∧
        (0 < (s.osQueueTable q).osqEntries ∨ timeWait = cfg.noTimeout) := hok
      have hirq : ¬ (cfg.errorCheck ∧ 0 < k.iNesting) := by
        rintro ⟨hec, hpos⟩
        rw [hk, hnest hec] at hpos
        exact absurd hpos (Nat.lt_irrefl 0)
      have hexec : k.exec (call q (.queuePend timeWait)) = some (k.queuePend timeWait q) :=
        (if_neg hirq).trans (hcheck _)
      by_cases hsome : (k.osQueueTable q).osqEntries > 0
      · have hpend : k.queuePend timeWait q = ((k.getByte q).1, .returned (k.getByte q).2) :=
          if_pos hsome
        exact ⟨_, .value _, hstep (hexec.trans (congrArg some hpend)),
          hquiet.bufferStep_getByte hsome, hquiet.getByte hsome⟩
      · -- an empty queue is asked for a byte without waiting only
        have htime : timeWait = cfg.noTimeout := by
          refine hblock.resolve_left fun h => hsome ?_
          rw [hk]
          exact h
        have hpend : k.queuePend timeWait q =
            (k, .returned RetCode.exitByNoEntryAvailable.ret) :=
          (if_neg hsome).trans (if_pos htime)
        exact ⟨k, .noEntry, hstep (hexec.trans (congrArg some hpend)),
          .noEntry (Nat.eq_zero_of_not_pos hsome), hquiet⟩
  | queueClean =>
      have hring : (k.osQueueClean q).1.ring q = { k.ring q with
          entries := 0, inPos := (k.ring q).start, outPos := (k.ring q).start } :=
        congrArg OSQueue.ring (osQueueClean_table q k)
      refine ⟨_, .cleaned, hstep rfl, ?_, hquiet.osQueueClean⟩
      show Fifo.BufferStep 1 _ _ _ ⟨(k.osQueueClean q).1.ring q, _⟩ _
      rw [hring]
      exact .cleaned

/-- A queue that has just been created is empty, and nobody waits on it. -/
theorem osQueueCreate_quiet {t : Kernel cfg} {size : UInt16}
    (h : s.osQueueCreate size = (t, .returned ⟨.allocEventOk, .event (.queue q)⟩)) :
    Quiet q t ∧ ∃ start sz, t.ring q = ⟨start, start + 1 * sz, start, start, sz, 0⟩ := by
  have he : QueueEffect s (.queueCreate size) t _ := queueCreate_queue (congrArg some h)
  generalize hc : Call.queueCreate size = c at he
  generalize hoc : Outcome.returned ⟨.allocEventOk, .event (.queue q)⟩ = oc at he
  cases he with
  | quiet _ hno => cases hno (hc ▸ rfl) _ (Or.inl hoc.symm)
  | read hc' => rcases hc' with rfl | ⟨timeWait, rfl⟩ <;> cases hc
  | written hc' => rcases hc' with rfl | rfl <;> cases hc
  | cleaned => cases hc
  | @created size' q' sz hfree hsz hlt =>
      cases hoc
      have htable : Function.update s.osQueueTable q
          ⟨s.iQueueAddress * cfg.sizeofCpuType, s.iQueueAddress * cfg.sizeofCpuType + sz,
            s.iQueueAddress * cfg.sizeofCpuType, s.iQueueAddress * cfg.sizeofCpuType, sz, 0⟩ q =
          ⟨s.iQueueAddress * cfg.sizeofCpuType, s.iQueueAddress * cfg.sizeofCpuType + sz,
            s.iQueueAddress * cfg.sizeofCpuType, s.iQueueAddress * cfg.sizeofCpuType, sz, 0⟩ :=
        Function.update_self ..
      have hev : Function.update s.event (.queue q) ⟨true, 0, 0⟩ (.queue q) = ⟨true, 0, 0⟩ :=
        Function.update_self ..
      refine ⟨⟨congrArg EventWait.osEventAllocated hev, congrArg EventWait.osEventWait hev, ?_, ?_⟩,
        s.iQueueAddress * cfg.sizeofCpuType, sz, ?_⟩
      · exact (congrArg OSQueue.osqEntries htable).trans_le (Nat.zero_le _)
      · exact (congrArg OSQueue.osqSize htable).trans_lt hlt
      · rw [Nat.one_mul]
        exact congrArg OSQueue.ring htable

end ByteCall

/-! ### The three widths -/

namespace QueueHeap

variable {hc : HeapConfig} {s t : QueueHeap hc}

/-- A creation that succeeds stores the queue of `newQueue`. -/
theorem create_created {c : QueueCreate} {q : OSQueue} (h : s.create c = (t, .created q)) :
    q = s.newQueue c := by
  obtain ⟨code, hx⟩ | ⟨-, allocated, hx⟩ := create_cases s c
  · rw [hx] at h
    cases h
  · rw [hx] at h
    cases h
    rfl

/-- A queue that has just been created is empty. -/
theorem newQueue_holds {width : Nat} (s : QueueHeap hc) (c : QueueCreate) (mem : Nat → α)
    (hw : c.elementSize = width) :
    Fifo.Holds width (fun mem => mem) ⟨(s.newQueue c).ring, mem⟩ [] := by
  have hring : (s.newQueue c).ring = ⟨s.iQueueAddress * hc.sizeofCpuType,
      s.iQueueAddress * hc.sizeofCpuType + width * c.rounded hc,
      s.iQueueAddress * hc.sizeofCpuType, s.iQueueAddress * hc.sizeofCpuType, c.rounded hc, 0⟩ := by
    rw [← hw, Nat.mul_comm c.elementSize]
    rfl
  rw [hring]
  exact Fifo.holds_nil _ _ _

end QueueHeap

open WordQueue ByteCall QueueHeap

/-- **The static queues refine bounded queues.** From a successful creation on, any
sequence of writes, reads and cleans that does not block is answered as by a list of at
most `OSQSize` values, and stays in the buffer. -/
theorem static_queues_refine_fifo (hc : HeapConfig) :
    (∀ (s t : Kernel hc.toConfig) (size : UInt16) (q : Nat),
      s.osQueueCreate size = (t, .returned ⟨.allocEventOk, .event (.queue q)⟩) →
      Fifo.Refines (queue8 q) (t.osQueueTable q).osqSize t) ∧
    (∀ (s t : QueueHeap hc) (size : UInt16) (q : OSQueue) (mem : Nat → UInt16),
      s.osQueue16Create size = (t, .created q) → Fifo.Refines queue16 q.osqSize ⟨q, mem⟩) ∧
    (∀ (s t : QueueHeap hc) (size : UInt16) (q : OSQueue) (mem : Nat → UInt32),
      s.osQueue32Create size = (t, .created q) → Fifo.Refines queue32 q.osqSize ⟨q, mem⟩) := by
  refine ⟨fun s t size q h => ?_, fun s t size q mem h => ?_, fun s t size q mem h => ?_⟩
  · obtain ⟨hquiet, start, sz, hring⟩ := osQueueCreate_quiet h
    have hholds : Fifo.Holds 1 (fun mem => mem) ((queue8 q).buffer t) [] := by
      show Fifo.Holds 1 _ ⟨t.ring q, t.queueStack⟩ []
      rw [hring]
      exact Fifo.holds_nil _ _ _
    exact Fifo.Program.refines (queue8_stepsIn q) Nat.one_pos hquiet hholds
  · obtain rfl := create_created h
    have hholds : Fifo.Holds queue16.width queue16.load
        (queue16.buffer ⟨s.newQueue (.queue16 size), mem⟩) [] := newQueue_holds s _ mem rfl
    exact Fifo.Program.refines (program_stepsIn (by decide)) (by decide) trivial hholds
  · obtain rfl := create_created h
    have hholds : Fifo.Holds queue32.width queue32.load
        (queue32.buffer ⟨s.newQueue (.queue32 size), mem⟩) [] := newQueue_holds s _ mem rfl
    exact Fifo.Program.refines (program_stepsIn (by decide)) (by decide) trivial hholds

/-- An 8-bit queue, and a 16-bit and a 32-bit queue behind it. -/
theorem static_queues_refine_fifo_created :
    let s := Kernel.init exampleHeapConfig.toConfig
    let heap := QueueHeap.init exampleHeapConfig
    Fifo.Refines (queue8 0) 8 (s.osQueueCreate 5).1 ∧
      Fifo.Refines queue16 4 ⟨heap.newQueue (.queue16 3), fun _ => 0⟩ ∧
      Fifo.Refines queue32 2 ⟨heap.newQueue (.queue32 2), fun _ => 0⟩ := by
  obtain ⟨h8, h16, h32⟩ := static_queues_refine_fifo exampleHeapConfig
  exact ⟨h8 (Kernel.init exampleHeapConfig.toConfig) _ 5 0 rfl,
    h16 (QueueHeap.init exampleHeapConfig) _ 3 _ _ rfl,
    h32 (QueueHeap.init exampleHeapConfig) _ 2 _ _ rfl⟩

end Brtos
