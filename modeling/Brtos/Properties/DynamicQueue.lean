import Brtos.DQueue
import Brtos.Lib.Fifo

/-!
# Brtos.Properties.DynamicQueue

**When a dynamic queue is a bounded queue.** `OSDQueueCreate` cuts the size of the buffer
to a `uint16_t` and leaves `OSEventAllocated` as it finds it in the heap, while
`OSDQueuePost` and `OSDQueuePend` test that byte under `ERROR_CHECK`. A queue answers like
a list of at most `queue_length` messages exactly when the size fits and, with
`ERROR_CHECK`, the byte happens to be `TRUE` (`dynamic_queue_refines_iff`).

The messages are the values of the bounded queue, each `type_size` addresses wide.
-/

namespace Brtos

/-- The calls on a dynamic queue that do not block. -/
inductive MessageCall
  | post (pdata : List UInt8)
  | pend
  | clean
  deriving DecidableEq, Repr

namespace OSDQueue

/-- The queue as a ring buffer of messages. -/
def ring (c : OSDQueue) : RingBuffer :=
  ⟨c.osqStart, c.osqEnd, c.osqIn, c.osqOut, c.osqLength, c.osqEntries⟩

end OSDQueue

/-- The `n` bytes at an address. -/
def message (n : Nat) (bytes : Nat → UInt8) (a : Nat) : List UInt8 := (List.range' a n).map bytes

variable {dc : DQueueConfig}

namespace DKernel

/-- The buffer of the queue with event `e`. -/
def buffer (s : DKernel dc) (e : Nat) : Fifo.Buffer (Nat → UInt8) :=
  ⟨(s.dQueue (s.dEvent e).osEventPointer).ring, s.bytes⟩

end DKernel

namespace MessageCall

/-- The call on the queue with event `e`. -/
def call (dc : DQueueConfig) (e : Nat) : MessageCall → DCall
  | post pdata => .post (some e) pdata
  | pend => .pend (some e) dc.noTimeout
  | clean => .clean e

/-- A post writes as many of the bytes it is given as a message has. -/
def op (typeSize : Nat) : MessageCall → Fifo.Op (List UInt8)
  | post pdata => .write (pdata.take typeSize)
  | pend => .read
  | clean => .clean

/-- What the calls return for the answers of a bounded queue. -/
def result : Fifo.Result (List UInt8) → DRet
  | .written => RetCode.writeBufferOk.dret
  | .full => RetCode.bufferUnderrun.dret
  | .value x => ⟨.readBufferOk, .message x⟩
  | .noEntry => RetCode.exitByNoEntryAvailable.dret
  | .cleaned => RetCode.cleanBufferOk.dret

/-- A call of a task or, with `0 < iNesting`, of an interrupt. -/
def step (e : Nat) (s : DKernel dc) (x : Nat × MessageCall) : Option (DKernel dc × DRet) :=
  match (s.setKernel fun k => { k with iNesting := x.1 }).exec (x.2.call dc e) with
  | some (t, .returned r) => some (t, r)
  | _ => none

/-- A post is given a whole message, and only tasks may pend. -/
def Ok (typeSize : Nat) (_ : DKernel dc) (x : Nat × MessageCall) : Prop :=
  match x.2 with
  | post pdata => typeSize ≤ pdata.length
  | pend => dc.errorCheck = true → x.1 = 0
  | clean => True

/-- The dynamic queue with event `e`, for messages of `typeSize` bytes. -/
def dynamicQueue (e typeSize : Nat) :
    Fifo.Program (DKernel dc) (Nat × MessageCall) DRet (Nat → UInt8) (List UInt8) where
  step := step e
  ok := Ok typeSize
  op x := x.2.op typeSize
  result _ := result
  width := typeSize
  load := message typeSize
  buffer s := s.buffer e

end MessageCall

open MessageCall

namespace DKernel

/-- The queue is ready for use: its fields agree with each other, nobody waits on it, and
the test of `ERROR_CHECK` passes. -/
structure Usable (e typeSize : Nat) (s : DKernel dc) : Prop where
  allocated : dc.errorCheck = true → (s.dEvent e).osEventAllocated = 1
  nobody : (s.dEvent e).osEventWait = 0
  size_eq : (s.dQueue (s.dEvent e).osEventPointer).osqTSize = typeSize
  length_lt : (s.dQueue (s.dEvent e).osEventPointer).osqLength < 65536
  holds : ∃ xs, Fifo.Holds typeSize (message typeSize) (s.buffer e) xs

variable {s t : DKernel dc} {e typeSize : Nat}

theorem message_congr {n a : Nat} {bytes bytes' : Nat → UInt8}
    (h : ∀ k, a ≤ k → k < a + n → bytes k = bytes' k) : message n bytes a = message n bytes' a := by
  refine List.map_congr_left fun k hk => ?_
  rw [List.mem_range'_1] at hk
  exact h k hk.1 hk.2

/-- The message that has been copied to an address is found there. -/
theorem message_copied {n : Nat} {pdata : List UInt8} (hlen : n ≤ pdata.length)
    (bytes : Nat → UInt8) (i : Nat) :
    message n (fun a => if i ≤ a ∧ a < i + n then pdata.getD (a - i) 0 else bytes a) i =
      pdata.take n := by
  refine List.ext_getElem ?_ fun k hk hk' => ?_
  · simp [message, hlen]
  · have hkn : k < n := by simpa [message] using hk
    have hlt : k < pdata.length := Nat.lt_of_lt_of_le hkn hlen
    simp [message, hkn, List.getD_eq_getElem?_getD, hlt]

/-- A message has been copied into the buffer. -/
def putMessage (s : DKernel dc) (cqueue : Nat) (pdata : List UInt8) : DKernel dc :=
  let c := s.dQueue cqueue
  let i := c.ring.wrap c.osqIn
  { s.setDQueue cqueue fun c =>
      { c with osqEntries := c.osqEntries + 1, osqIn := i + c.osqTSize } with
    bytes := fun a => if i ≤ a ∧ a < i + c.osqTSize then pdata.getD (a - i) 0 else s.bytes a }

/-- A message of `n` bytes has been copied out of the buffer. -/
def getMessage (s : DKernel dc) (cqueue n : Nat) : DKernel dc :=
  let c := s.dQueue cqueue
  s.setDQueue cqueue fun d =>
    { d with osqOut := c.ring.wrap c.osqOut + n, osqEntries := (d.osqEntries + 65535) % 65536 }

theorem writeMessage_eq {cqueue : Nat} {pdata : List UInt8}
    (hlen : (s.dQueue cqueue).osqTSize ≤ pdata.length)
    (hfits : (s.dQueue cqueue).osqStart ≤ (s.dQueue cqueue).ring.wrap (s.dQueue cqueue).osqIn ∧
      (s.dQueue cqueue).ring.wrap (s.dQueue cqueue).osqIn + (s.dQueue cqueue).osqTSize ≤
        (s.dQueue cqueue).osqEnd) :
    s.writeMessage cqueue pdata = some (s.putMessage cqueue pdata) :=
  if_pos ⟨hfits.1, hfits.2, hlen⟩

theorem readMessage_eq {cqueue n : Nat}
    (hfits : (s.dQueue cqueue).osqStart ≤ (s.dQueue cqueue).ring.wrap (s.dQueue cqueue).osqOut ∧
      (s.dQueue cqueue).ring.wrap (s.dQueue cqueue).osqOut + n ≤ (s.dQueue cqueue).osqEnd) :
    s.readMessage cqueue n = some (s.getMessage cqueue n, ⟨.readBufferOk,
      .message (message n s.bytes ((s.dQueue cqueue).ring.wrap (s.dQueue cqueue).osqOut))⟩) :=
  if_pos hfits

theorem putMessage_dQueue (s : DKernel dc) (cqueue : Nat) (pdata : List UInt8) :
    (s.putMessage cqueue pdata).dQueue cqueue = { s.dQueue cqueue with
      osqEntries := (s.dQueue cqueue).osqEntries + 1
      osqIn := (s.dQueue cqueue).ring.wrap (s.dQueue cqueue).osqIn +
        (s.dQueue cqueue).osqTSize } :=
  Function.update_self ..

theorem getMessage_dQueue (s : DKernel dc) (cqueue n : Nat) :
    (s.getMessage cqueue n).dQueue cqueue = { s.dQueue cqueue with
      osqEntries := ((s.dQueue cqueue).osqEntries + 65535) % 65536
      osqOut := (s.dQueue cqueue).ring.wrap (s.dQueue cqueue).osqOut + n } :=
  Function.update_self ..

theorem osDQueueClean_dQueue (s : DKernel dc) (e : Nat) :
    (s.osDQueueClean e).1.dQueue (s.dEvent e).osEventPointer =
      { s.dQueue (s.dEvent e).osEventPointer with
        osqEntries := 0
        osqIn := (s.dQueue (s.dEvent e).osEventPointer).osqStart
        osqOut := (s.dQueue (s.dEvent e).osEventPointer).osqStart } :=
  Function.update_self ..

/-! ### The calls on a usable queue -/

/-- A call that changes the queue and its messages only leaves it usable. -/
theorem Usable.next (h : Usable e typeSize s) (hw : 0 < typeSize) {op : Fifo.Op (List UInt8)}
    {res : Fifo.Result (List UInt8)}
    (hevent : t.dEvent = s.dEvent)
    (hsize : (t.dQueue (s.dEvent e).osEventPointer).osqTSize =
      (s.dQueue (s.dEvent e).osEventPointer).osqTSize)
    (hstep : Fifo.BufferStep typeSize (message typeSize) (s.buffer e) op (t.buffer e) res) :
    Usable e typeSize t := by
  obtain ⟨xs, hxs⟩ := h.holds
  refine ⟨?_, ?_, ?_, ?_, _, (hxs.step hw hstep).2⟩
  · rw [hevent]
    exact h.allocated
  · rw [hevent]
    exact h.nobody
  · rw [hevent, hsize]
    exact h.size_eq
  · exact hstep.size_eq.trans_lt h.length_lt

/-- A message is written. -/
theorem Usable.put (h : Usable e typeSize s) (hw : 0 < typeSize) {pdata : List UInt8}
    (hlen : typeSize ≤ pdata.length)
    (hroom : (s.buffer e).ring.entries < (s.buffer e).ring.size) :
    ∃ t, s.writeMessage (s.dEvent e).osEventPointer pdata = some t ∧ t.dEvent = s.dEvent ∧
      Fifo.BufferStep typeSize (message typeSize) (s.buffer e) (.write (pdata.take typeSize))
        (t.buffer e) .written ∧ Usable e typeSize t := by
  obtain ⟨xs, hxs⟩ := h.holds
  obtain rfl := h.size_eq
  have haccess : (s.buffer e).ring.wrap (s.buffer e).ring.inPos ∈
      Fifo.access (s.buffer e).ring (.write ([] : List UInt8)) := if_pos hroom
  have hstep : Fifo.BufferStep (s.dQueue (s.dEvent e).osEventPointer).osqTSize
      (message (s.dQueue (s.dEvent e).osEventPointer).osqTSize) (s.buffer e)
      (.write (pdata.take (s.dQueue (s.dEvent e).osEventPointer).osqTSize))
      ((s.putMessage (s.dEvent e).osEventPointer pdata).buffer e) .written := by
    have hring : ((s.putMessage (s.dEvent e).osEventPointer pdata).buffer e).ring =
        { (s.buffer e).ring with
          entries := (s.buffer e).ring.entries + 1
          inPos := (s.buffer e).ring.wrap (s.buffer e).ring.inPos +
            (s.dQueue (s.dEvent e).osEventPointer).osqTSize } :=
      congrArg OSDQueue.ring (putMessage_dQueue s _ pdata)
    show Fifo.BufferStep _ _ _ _ ⟨((s.putMessage _ pdata).buffer e).ring, _⟩ _
    rw [hring]
    refine .written hroom (message_copied hlen s.bytes _) fun a ha => message_congr fun k hk hk' => ?_
    refine if_neg fun hin => ?_
    have ha : a + (s.dQueue (s.dEvent e).osEventPointer).osqTSize ≤
        (s.buffer e).ring.wrap (s.buffer e).ring.inPos ∨
      (s.buffer e).ring.wrap (s.buffer e).ring.inPos +
        (s.dQueue (s.dEvent e).osEventPointer).osqTSize ≤ a := ha
    have hin : (s.buffer e).ring.wrap (s.buffer e).ring.inPos ≤ k ∧
      k < (s.buffer e).ring.wrap (s.buffer e).ring.inPos +
        (s.dQueue (s.dEvent e).osEventPointer).osqTSize := hin
    omega
  have hsize : ((s.putMessage (s.dEvent e).osEventPointer pdata).dQueue
      (s.dEvent e).osEventPointer).osqTSize = (s.dQueue (s.dEvent e).osEventPointer).osqTSize := by
    rw [putMessage_dQueue]
  exact ⟨_, writeMessage_eq hlen (hxs.access_mem hw haccess), rfl, hstep,
    h.next hw rfl hsize hstep⟩

/-- A message is read. -/
theorem Usable.get (h : Usable e typeSize s) (hw : 0 < typeSize)
    (hsome : 0 < (s.buffer e).ring.entries) :
    ∃ t x, s.readMessage (s.dEvent e).osEventPointer typeSize =
        some (t, ⟨.readBufferOk, .message x⟩) ∧ t.dEvent = s.dEvent ∧
      Fifo.BufferStep typeSize (message typeSize) (s.buffer e) .read (t.buffer e) (.value x) ∧
      Usable e typeSize t := by
  obtain ⟨xs, hxs⟩ := h.holds
  have haccess : (s.buffer e).ring.wrap (s.buffer e).ring.outPos ∈
      Fifo.access (s.buffer e).ring (.read : Fifo.Op (List UInt8)) := if_pos hsome
  have hstep : Fifo.BufferStep typeSize (message typeSize) (s.buffer e) .read
      ((s.getMessage (s.dEvent e).osEventPointer typeSize).buffer e)
      (.value (message typeSize s.bytes ((s.buffer e).ring.wrap (s.buffer e).ring.outPos))) := by
    have hring : ((s.getMessage (s.dEvent e).osEventPointer typeSize).buffer e).ring =
        { (s.buffer e).ring with
          entries := ((s.buffer e).ring.entries + 65535) % 65536
          outPos := (s.buffer e).ring.wrap (s.buffer e).ring.outPos + typeSize } :=
      congrArg OSDQueue.ring (getMessage_dQueue s _ typeSize)
    have hdec : ((s.buffer e).ring.entries + 65535) % 65536 = (s.buffer e).ring.entries - 1 := by
      have hle : (s.buffer e).ring.entries ≤ (s.buffer e).ring.size := by
        obtain ⟨v, hv, hv'⟩ := hxs
        rw [hv.entries_eq, hv.size_eq]
        exact hv'.le_size
      have hlt : (s.buffer e).ring.size < 65536 := h.length_lt
      omega
    show Fifo.BufferStep _ _ _ _ ⟨((s.getMessage _ typeSize).buffer e).ring, _⟩ _
    rw [hring, hdec]
    exact .value hsome
  have hsize : ((s.getMessage (s.dEvent e).osEventPointer typeSize).dQueue
      (s.dEvent e).osEventPointer).osqTSize = (s.dQueue (s.dEvent e).osEventPointer).osqTSize := by
    rw [getMessage_dQueue]
  exact ⟨_, _, readMessage_eq (hxs.access_mem hw haccess), rfl, hstep, h.next hw rfl hsize hstep⟩

/-- The queue is cleaned. -/
theorem Usable.clean (h : Usable e typeSize s) (hw : 0 < typeSize) :
    Fifo.BufferStep typeSize (message typeSize) (s.buffer e) .clean
        ((s.osDQueueClean e).1.buffer e) .cleaned ∧
      Usable e typeSize (s.osDQueueClean e).1 := by
  have hstep : Fifo.BufferStep typeSize (message typeSize) (s.buffer e) .clean
      ((s.osDQueueClean e).1.buffer e) .cleaned := by
    have hring : ((s.osDQueueClean e).1.buffer e).ring = { (s.buffer e).ring with
        entries := 0, inPos := (s.buffer e).ring.start, outPos := (s.buffer e).ring.start } :=
      congrArg OSDQueue.ring (osDQueueClean_dQueue s e)
    show Fifo.BufferStep _ _ _ _ ⟨((s.osDQueueClean e).1.buffer e).ring, _⟩ _
    rw [hring]
    exact .cleaned
  have hsize : ((s.osDQueueClean e).1.dQueue (s.dEvent e).osEventPointer).osqTSize =
      (s.dQueue (s.dEvent e).osEventPointer).osqTSize := by
    rw [osDQueueClean_dQueue]
  exact ⟨hstep, h.next hw rfl hsize hstep⟩

end DKernel

open DKernel

variable {s t : DKernel dc} {e typeSize : Nat}

/-- The calls are operations on the buffer. -/
theorem dynamicQueue_stepsIn (hw : 0 < typeSize) :
    (dynamicQueue e typeSize : Fifo.Program (DKernel dc) _ _ _ _).StepsIn (Usable e typeSize) := by
  rintro s ⟨n, c⟩ hs hok
  -- the call is made in the state with its own nesting depth
  obtain ⟨k, hk⟩ : ∃ k : DKernel dc, k = s.setKernel fun k => { k with iNesting := n } := ⟨_, rfl⟩
  have husable : Usable e typeSize k := by
    rw [hk]
    exact ⟨hs.allocated, hs.nobody, hs.size_eq, hs.length_lt, hs.holds⟩
  have hbuffer : (dynamicQueue e typeSize).buffer s = k.buffer e := by rw [hk]; rfl
  have hstep : ∀ {t r}, k.exec (c.call dc e) = some (t, .returned r) →
      (dynamicQueue e typeSize).step s (n, c) = some (t, r) := by
    intro t r hexec
    show MessageCall.step e s (n, c) = _
    rw [hk] at hexec
    unfold MessageCall.step
    rw [hexec]
  have hcheck : ∀ f : Nat → Option (DKernel dc × DOutcome),
      k.checkDEvent (some e) f = f e := by
    intro f
    have hcond : ¬ (dc.errorCheck ∧ (k.dEvent e).osEventAllocated ≠ 1) :=
      fun h => h.2 (husable.allocated h.1)
    exact if_neg hcond
  rw [hbuffer]
  cases c with
  | post pdata =>
      have hexec : k.exec (call dc e (.post pdata)) = k.dQueuePost pdata e := hcheck _
      by_cases hroom : (k.buffer e).ring.entries < (k.buffer e).ring.size
      · obtain ⟨t, hwrite, hevent, hbuf, hnext⟩ := husable.put hw hok hroom
        have hnobody : ¬ (t.dEvent e).osEventWait ≠ 0 := fun hne => hne hnext.nobody
        have hpost : k.dQueuePost pdata e = some (t, .returned RetCode.writeBufferOk.dret) := by
          refine (if_pos hroom).trans ?_
          rw [hwrite]
          exact congrArg some (if_neg hnobody)
        exact ⟨t, .written, hstep (hexec.trans hpost), hbuf, hnext⟩
      · exact ⟨k, .full, hstep (hexec.trans (if_neg hroom)), .full hroom, husable⟩
  | pend =>
      have hirq : ¬ (dc.errorCheck ∧ 0 < k.kernel.iNesting) := by
        rintro ⟨hec, hpos⟩
        have hpos : 0 < n := by
          rw [hk] at hpos
          exact hpos
        have hnest : dc.errorCheck = true → n = 0 := hok
        have := hnest hec
        omega
      have hexec : k.exec (call dc e .pend) = k.dQueuePend dc.noTimeout e :=
        (if_neg hirq).trans (hcheck _)
      by_cases hsome : 0 < (k.buffer e).ring.entries
      · obtain ⟨t, x, hread, hevent, hbuf, hnext⟩ := husable.get hw hsome
        have hpend : k.dQueuePend dc.noTimeout e =
            some (t, .returned ⟨.readBufferOk, .message x⟩) := by
          refine (if_pos hsome).trans ?_
          rw [husable.size_eq, hread]
          rfl
        exact ⟨t, .value x, hstep (hexec.trans hpend), hbuf, hnext⟩
      · have hpend : k.dQueuePend dc.noTimeout e =
            some (k, .returned RetCode.exitByNoEntryAvailable.dret) :=
          (if_neg hsome).trans (if_pos rfl)
        exact ⟨k, .noEntry, hstep (hexec.trans hpend), .noEntry (Nat.eq_zero_of_not_pos hsome),
          husable⟩
  | clean =>
      obtain ⟨hbuf, hnext⟩ := husable.clean hw
      exact ⟨_, .cleaned, hstep rfl, hbuf, hnext⟩

/-! ### After the creation -/

/-- What `OSDQueueCreate` leaves behind when it succeeds. -/
theorem osDQueueCreate_ok {queueLength : UInt16}
    (h : s.osDQueueCreate queueLength typeSize = (t, ⟨.allocEventOk, .event e⟩)) :
    (0 < queueLength.toNat ∧ 0 < typeSize) ∧
      (t.dEvent e).osEventAllocated = (s.dEvent e).osEventAllocated ∧
      (t.dEvent e).osEventWait = 0 ∧
      ∃ start, t.dQueue (t.dEvent e).osEventPointer =
        ⟨start, start + queueLength.toNat * typeSize % 65536, start, start, typeSize % 65536,
          queueLength.toNat, 0⟩ := by
  unfold osDQueueCreate at h
  split at h
  · cases h
  split at h
  case isFalse => cases h
  rename_i hpos
  split at h
  · cases h
  dsimp only at h
  split at h
  · cases h
  rename_i start _ _
  split at h
  · cases h
  cases h
  refine ⟨hpos, ?_, ?_, start, ?_⟩
  · simp [fillDQueue, setDEvent, setDQueue, setHeap, setKernel]
  · simp [fillDQueue, setDEvent]
  · simp [fillDQueue, setDEvent, setDQueue, setHeap, setKernel]

/-- **When a dynamic queue is a bounded queue**: after a successful creation, any sequence
of posts, pends without waiting and cleans is answered as by a list of at most
`queueLength` messages of `typeSize` bytes, within a buffer of `queueLength * typeSize`
bytes, if and only if that product fits a `uint16_t` and, with `ERROR_CHECK`, the heap
held `TRUE` in `OSEventAllocated`. -/
theorem dynamic_queue_refines_iff {queueLength : UInt16}
    (h : s.osDQueueCreate queueLength typeSize = (t, ⟨.allocEventOk, .event e⟩)) :
    Fifo.Refines (dynamicQueue e typeSize) queueLength.toNat t ↔
      queueLength.toNat * typeSize < 65536 ∧
        (dc.errorCheck = true → (s.dEvent e).osEventAllocated = 1) := by
  obtain ⟨⟨hlen, hw⟩, halloc, hnobody, start, hqueue⟩ := osDQueueCreate_ok h
  have hring : (t.buffer e).ring =
      ⟨start, start + queueLength.toNat * typeSize % 65536, start, start,
        queueLength.toNat, 0⟩ := congrArg OSDQueue.ring hqueue
  constructor
  · intro hrefines
    constructor
    · -- the buffer is as long as the product only if that was not cut
      have hstop : (t.buffer e).ring.stop = (t.buffer e).ring.start + typeSize * queueLength.toNat :=
        (hrefines.positions .nil).1
      rw [hring] at hstop
      have hlt := Nat.mod_lt (queueLength.toNat * typeSize) (by decide : 0 < 65536)
      have heq := Nat.add_left_cancel hstop
      rw [Nat.mul_comm typeSize] at heq
      omega
    · intro hec
      by_contra hne
      have hcheck : dc.errorCheck ∧ ((t.setKernel fun k => { k with iNesting := 0 }).dEvent
          e).osEventAllocated ≠ 1 := ⟨hec, halloc ▸ hne⟩
      have hirq : ¬ (dc.errorCheck ∧ 0 < (0 : Nat)) := fun h => absurd h.2 (Nat.lt_irrefl 0)
      have hexec : (t.setKernel fun k => { k with iNesting := 0 }).exec (call dc e .pend) =
          some (t.setKernel fun k => { k with iNesting := 0 },
            .returned RetCode.errEventNoCreated.dret) :=
        (if_neg hirq).trans (if_pos hcheck)
      have hstep : (dynamicQueue e typeSize).step t (0, .pend) =
          some (t.setKernel fun k => { k with iNesting := 0 }, RetCode.errEventNoCreated.dret) := by
        show MessageCall.step e t (0, .pend) = _
        unfold MessageCall.step
        rw [hexec]
      have hok : (dynamicQueue e typeSize).ok t (0, .pend) := fun _ => rfl
      have hres := hrefines.results_eq (.snoc .nil hok hstep)
      cases hres
  · rintro ⟨hfits, hallocated⟩
    have htsize : typeSize % 65536 = typeSize :=
      Nat.mod_eq_of_lt (lt_of_le_of_lt (Nat.le_mul_of_pos_left _ hlen) hfits)
    have hholds : Fifo.Holds typeSize (message typeSize) (t.buffer e) [] := by
      show Fifo.Holds _ _ ⟨(t.buffer e).ring, t.bytes⟩ _
      rw [hring, Nat.mod_eq_of_lt hfits, Nat.mul_comm]
      exact Fifo.holds_nil _ _ _
    have husable : Usable e typeSize t := by
      refine ⟨fun hec => halloc.trans (hallocated hec), hnobody, ?_, ?_, [], hholds⟩
      · exact (congrArg OSDQueue.osqTSize hqueue).trans htsize
      · exact (congrArg OSDQueue.osqLength hqueue).trans_lt queueLength.toNat_lt
    have hsize : (t.buffer e).ring.size = queueLength.toNat := congrArg RingBuffer.size hring
    exact hsize ▸ Fifo.Program.refines (dynamicQueue_stepsIn hw) hw husable hholds

/-- A build with a heap of five blocks. -/
def messageConfig (errorCheck : Bool) : DQueueConfig where
  toConfig :=
    { Config.exampleConfig with errorCheck := errorCheck, mem := Config.slots 5 65536 }
  sizeofOSDQueue := 28
  sizeofBRTOSQueue := 12

/-- After `BRTOSInit`, with a heap that holds the given byte wherever `OSEventAllocated`
will be. -/
def messageKernel (errorCheck : Bool) (byte : Nat) : DKernel (messageConfig errorCheck) where
  kernel := Kernel.init _
  dQueue := fun _ => ⟨0, 0, 0, 0, 0, 0, 0⟩
  dEvent := fun _ => ⟨byte, 0, 0, 0, 0⟩
  bytes := fun _ => 0
  dFrame := fun _ => none

/-- Five messages of six bytes, without `ERROR_CHECK`. -/
theorem dynamic_queue_refines_iff_unchecked :
    let s := messageKernel false 0
    ∃ t e, s.osDQueueCreate 5 6 = (t, ⟨.allocEventOk, .event e⟩) ∧
      Fifo.Refines (dynamicQueue e 6) 5 t := by
  have h : (messageKernel false 0).osDQueueCreate 5 6 = (_, ⟨.allocEventOk, .event 196608⟩) := rfl
  exact ⟨_, _, h, (dynamic_queue_refines_iff h).mpr (by decide)⟩

/-- **A queue nobody can use**: with `ERROR_CHECK` and a heap of zeros a queue of five
messages is created, and the first post says that the event has not been created. -/
theorem created_queue_not_allocated :
    let s := messageKernel true 0
    ∃ t u e, s.osDQueueCreate 5 6 = (t, ⟨.allocEventOk, .event e⟩) ∧
      Run (dynamicQueue e 6).step (dynamicQueue e 6).ok t
        [((0, .post [1, 2, 3, 4, 5, 6]), RetCode.errEventNoCreated.dret)] u ∧
      ¬ Fifo.Refines (dynamicQueue e 6) 5 t := by
  have h : (messageKernel true 0).osDQueueCreate 5 6 = (_, ⟨.allocEventOk, .event 196608⟩) := rfl
  have hok : (dynamicQueue 196608 6).ok ((messageKernel true 0).osDQueueCreate 5 6).1
      (0, .post [1, 2, 3, 4, 5, 6]) := (by decide : 6 ≤ 6)
  have hstep : (dynamicQueue 196608 6).step ((messageKernel true 0).osDQueueCreate 5 6).1
      (0, .post [1, 2, 3, 4, 5, 6]) = some (_, RetCode.errEventNoCreated.dret) := rfl
  have hrun := Run.snoc Run.nil hok hstep
  refine ⟨_, _, _, h, hrun, fun hrefines => ?_⟩
  cases hrefines.results_eq hrun

end Brtos
