import Brtos.Calls.Event
import Brtos.Lib.Run

/-!
# Brtos.Properties.QueueHeap

**The heap of the static queues.** `OSQueueCreate`, `OSQueue16Create` and
`OSQueue32Create` cut their buffers from `QUEUE_STACK`, one after the other; nothing is
given back.

The three functions are one definition with the element size as a parameter
(`QueueHeap.create`); what they do not share is how they round the size, and that
`OSQueueCreate` needs a control block. The sizes are computed in a `uint16_t` and in
`size_t`, which is 16 bits wide on some of the ports: `QueueHeap.NoWrap` is the condition
under which a call that is accepted has computed with the numbers themselves. Under it
buffers are as large as asked for, inside the array and apart from each other
(`queue_heap_sound`).
-/

namespace Brtos

/-- A build, with the width of `size_t`. -/
structure HeapConfig extends Config where
  /-- Bits of `size_t`. -/
  sizeTBits : Nat
  sizeTBits_mem : sizeTBits = 16 ∨ sizeTBits = 32

/-- The calls that create a static queue. -/
inductive QueueCreate
  | queue (size : UInt16)
  | queue16 (size : UInt16)
  | queue32 (size : UInt16)
  deriving DecidableEq, Repr

namespace QueueCreate

/-- The number of elements asked for. -/
def size : QueueCreate → Nat
  | .queue size | .queue16 size | .queue32 size => size.toNat

/-- Bytes of an element. -/
def elementSize : QueueCreate → Nat
  | .queue _ => 1
  | .queue16 _ => 2
  | .queue32 _ => 4

theorem size_lt (c : QueueCreate) : c.size < 65536 := by
  cases c <;> exact UInt16.toNat_lt _

variable (hc : HeapConfig)

/-- A product with `sizeof`, in `size_t`. -/
def bytes (c : QueueCreate) (size : Nat) : Nat := size * c.elementSize % 2 ^ hc.sizeTBits

/-- What rounding adds to the size: as many elements as make it whole words. -/
def padding (c : QueueCreate) : Nat :=
  match c with
  | .queue size =>
    if size.toNat % hc.sizeofCpuType ≠ 0 then hc.sizeofCpuType - size.toNat % hc.sizeofCpuType
    else 0
  | .queue16 size => if c.bytes hc size.toNat % hc.sizeofCpuType ≠ 0 then 1 else 0
  | .queue32 _ => 0

/-- `OSQSize`, a `uint16_t`. -/
def rounded (c : QueueCreate) : Nat := (c.size + c.padding hc) % 65536

/-- The words of `QUEUE_STACK` the buffer is given. -/
def words (c : QueueCreate) : Nat := c.bytes hc (c.rounded hc) / hc.sizeofCpuType

end QueueCreate

/-- What the creations read and write. -/
structure QueueHeap (hc : HeapConfig) where
  iNesting : Nat
  iQueueAddress : Nat
  /-- The control blocks of the 8-bit queues that are allocated. -/
  allocated : Nat → Bool

/-- What can happen: a creation, or interrupts come and go. -/
inductive QueueAct
  | create (c : QueueCreate)
  | interrupts (iNesting : Nat)
  deriving DecidableEq, Repr

/-- A creation's return code and the queue, with pointers as byte offsets into
`QUEUE_STACK`. -/
inductive QueueObs
  | created (queue : OSQueue)
  | failed (code : RetCode)
  | silent

variable {hc : HeapConfig}

/-- The words of `QUEUE_STACK`. -/
def HeapConfig.queueWords (hc : HeapConfig) : Nat := hc.queueHeapSize / hc.sizeofCpuType

namespace QueueHeap

/-- The sum that is compared with the size of `QUEUE_STACK`, in `size_t`. -/
def nextAddress (s : QueueHeap hc) (c : QueueCreate) : Nat :=
  (s.iQueueAddress + c.words hc) % 2 ^ hc.sizeTBits

/-- The queue a creation stores. -/
def newQueue (s : QueueHeap hc) (c : QueueCreate) : OSQueue :=
  let start := s.iQueueAddress * hc.sizeofCpuType
  let size := c.rounded hc
  ⟨start, start + size * c.elementSize, start, start, size, 0⟩

/-- The buffer is handed out. -/
def advance (s : QueueHeap hc) (c : QueueCreate) : QueueHeap hc :=
  { s with iQueueAddress := (s.iQueueAddress + c.words hc) % 65536 }

/-- The first control block that is not allocated. -/
def freeEvent (s : QueueHeap hc) : Option Nat :=
  (List.range hc.brtosMaxQueue).find? fun i => !s.allocated i

/-- What `OSQueueCreate`, `OSQueue16Create` and `OSQueue32Create` do. -/
def create (s : QueueHeap hc) (c : QueueCreate) : QueueHeap hc × QueueObs :=
  if 0 < s.iNesting then (s, .failed .irqPendErr)
  else if s.nextAddress c > hc.queueWords then (s, .failed .noMemory)
  else
    match c with
    | .queue _ =>
      match s.freeEvent with
      | none => (s, .failed .noAvailableEvent)
      | some q =>
        ({ s.advance c with allocated := Function.update s.allocated q true },
          .created (s.newQueue c))
    | .queue16 _ | .queue32 _ => (s.advance c, .created (s.newQueue c))

/-- `OSQueueCreate`. -/
def osQueueCreate (s : QueueHeap hc) (size : UInt16) : QueueHeap hc × QueueObs :=
  s.create (.queue size)

/-- `OSQueue16Create`. -/
def osQueue16Create (s : QueueHeap hc) (size : UInt16) : QueueHeap hc × QueueObs :=
  s.create (.queue16 size)

/-- `OSQueue32Create`. -/
def osQueue32Create (s : QueueHeap hc) (size : UInt16) : QueueHeap hc × QueueObs :=
  s.create (.queue32 size)

def step (s : QueueHeap hc) : QueueAct → Option (QueueHeap hc × QueueObs)
  | .create (.queue size) => some (s.osQueueCreate size)
  | .create (.queue16 size) => some (s.osQueue16Create size)
  | .create (.queue32 size) => some (s.osQueue32Create size)
  | .interrupts iNesting => some ({ s with iNesting := iNesting }, .silent)

/-- After start-up. -/
def init (hc : HeapConfig) : QueueHeap hc := ⟨0, 0, fun _ => false⟩

/-- The creation succeeds. -/
def Accepts (s : QueueHeap hc) (c : QueueCreate) : Prop :=
  s.iNesting = 0 ∧ s.nextAddress c ≤ hc.queueWords ∧
    match c with
    | .queue _ => s.freeEvent.isSome
    | .queue16 _ | .queue32 _ => True

instance (s : QueueHeap hc) (c : QueueCreate) : Decidable (s.Accepts c) := by
  unfold Accepts
  cases c <;> infer_instance

/-- No number of the computation leaves its type: the rounded size, its bytes, and the
address after the buffer. -/
def InRange (s : QueueHeap hc) (c : QueueCreate) : Prop :=
  c.size + c.padding hc < 65536 ∧ c.rounded hc * c.elementSize < 2 ^ hc.sizeTBits ∧
    s.iQueueAddress + c.words hc < 2 ^ hc.sizeTBits

/-- A creation that is accepted has computed with the numbers themselves. -/
def NoWrap (s : QueueHeap hc) : QueueAct → Prop
  | .create c => s.Accepts c → s.InRange c
  | .interrupts _ => True

instance (s : QueueHeap hc) (c : QueueCreate) : Decidable (s.InRange c) :=
  inferInstanceAs (Decidable (_ ∧ _ ∧ _))

instance (s : QueueHeap hc) : (a : QueueAct) → Decidable (s.NoWrap a)
  | .create c => inferInstanceAs (Decidable (s.Accepts c → s.InRange c))
  | .interrupts _ => isTrue trivial

/-! ### One creation -/

variable {s t : QueueHeap hc} {c : QueueCreate} {o : QueueObs}

theorem step_create (s : QueueHeap hc) (c : QueueCreate) :
    s.step (.create c) = some (s.create c) := by
  cases c <;> rfl

/-- A creation fails and changes nothing, or it is accepted and hands out its buffer. -/
theorem create_cases (s : QueueHeap hc) (c : QueueCreate) :
    (∃ code, s.create c = (s, .failed code)) ∨
      (s.Accepts c ∧ ∃ allocated,
        s.create c = ({ s.advance c with allocated := allocated }, .created (s.newQueue c))) := by
  unfold create
  split
  · exact Or.inl ⟨_, rfl⟩
  · rename_i hnest
    split
    · exact Or.inl ⟨_, rfl⟩
    · rename_i hfits
      have hnest : s.iNesting = 0 := by omega
      have hfits : s.nextAddress c ≤ hc.queueWords := by omega
      cases c with
      | queue size =>
          cases hfree : s.freeEvent with
          | none => exact Or.inl ⟨_, rfl⟩
          | some q =>
              have hfree : s.freeEvent.isSome = true := by rw [hfree]; rfl
              exact Or.inr ⟨⟨hnest, hfits, hfree⟩, _, rfl⟩
      | queue16 size => exact Or.inr ⟨⟨hnest, hfits, trivial⟩, s.allocated, rfl⟩
      | queue32 size => exact Or.inr ⟨⟨hnest, hfits, trivial⟩, s.allocated, rfl⟩

theorem queueWords_lt (hc : HeapConfig) : hc.queueWords < 65536 := hc.queueHeapSize_lt

theorem InRange.size_le (h : s.InRange c) : c.size ≤ c.rounded hc := by
  have hlt := h.1
  unfold QueueCreate.rounded
  omega

/-- The buffer fills its words. -/
theorem InRange.words_mul (h : s.InRange c) :
    c.words hc * hc.sizeofCpuType = c.rounded hc * c.elementSize := by
  obtain ⟨hround, hbytes, -⟩ := h
  have hdvd : c.rounded hc * c.elementSize % hc.sizeofCpuType = 0 := by
    unfold QueueCreate.rounded
    rw [Nat.mod_eq_of_lt hround]
    cases c with
    | queue size =>
        simp only [QueueCreate.padding, QueueCreate.elementSize, QueueCreate.size]
        rcases hc.sizeofCpuType_mem with hw | hw | hw <;> rw [hw] <;> split <;> omega
    | queue16 size =>
        have hlt : size.toNat * 2 < 2 ^ hc.sizeTBits ∨ 2 ^ hc.sizeTBits = 65536 := by
          have := size.toNat_lt
          rcases hc.sizeTBits_mem with ht | ht <;> rw [ht] <;> omega
        have hmod : (size.toNat * 2 % 2 ^ hc.sizeTBits) % 4 = size.toNat * 2 % 4 := by
          rcases hlt with hlt | hlt
          · rw [Nat.mod_eq_of_lt hlt]
          · rw [hlt]
            omega
        simp only [QueueCreate.padding, QueueCreate.elementSize, QueueCreate.size,
          QueueCreate.bytes]
        rcases hc.sizeofCpuType_mem with hw | hw | hw <;> rw [hw]
        · omega
        · omega
        · simp only [hmod]
          split <;> omega
    | queue32 size =>
        simp only [QueueCreate.padding, QueueCreate.elementSize, QueueCreate.size]
        rcases hc.sizeofCpuType_mem with hw | hw | hw <;> rw [hw] <;> omega
  unfold QueueCreate.words QueueCreate.bytes
  rw [Nat.mod_eq_of_lt hbytes]
  exact Nat.div_mul_cancel (Nat.dvd_of_mod_eq_zero hdvd)

/-- The address after the buffer is inside the array. -/
theorem InRange.address (h : s.InRange c) (ha : s.Accepts c) :
    (s.advance c).iQueueAddress = s.iQueueAddress + c.words hc ∧
      s.iQueueAddress + c.words hc ≤ hc.queueWords := by
  have hfits := ha.2.1
  unfold nextAddress at hfits
  rw [Nat.mod_eq_of_lt h.2.2] at hfits
  have hlt := queueWords_lt hc
  exact ⟨Nat.mod_eq_of_lt (by omega), hfits⟩

/-! ### Any number of creations -/

/-- The queues created so far, with the calls that asked for them. -/
def created (tr : List (QueueAct × QueueObs)) : List (QueueCreate × OSQueue) :=
  tr.filterMap fun
    | (.create c, .created q) => some (c, q)
    | _ => none

/-- Every buffer is as large as asked for, inside `QUEUE_STACK` and apart from the
others, and so is what is left. -/
structure Sound (tr : List (QueueAct × QueueObs)) (s : QueueHeap hc) : Prop where
  address_le : s.iQueueAddress ≤ hc.queueWords
  large : ∀ x ∈ created tr, x.1.size ≤ x.2.osqSize
  inside : ∀ x ∈ created tr, x.2.osqEnd = x.2.osqStart + x.2.osqSize * x.1.elementSize ∧
    x.2.osqEnd ≤ hc.queueWords * hc.sizeofCpuType
  apart : (created tr).Pairwise fun x y => x.2.osqEnd ≤ y.2.osqStart ∨ y.2.osqEnd ≤ x.2.osqStart

/-- The buffers handed out lie before the address, in the order of their creation. -/
structure Cut (tr : List (QueueAct × QueueObs)) (s : QueueHeap hc) : Prop extends Sound tr s where
  below : ∀ x ∈ created tr, x.2.osqEnd ≤ s.iQueueAddress * hc.sizeofCpuType

/-- **The step lemma**. -/
theorem Cut.step {tr : List (QueueAct × QueueObs)} {a : QueueAct} (h : Cut tr s)
    (hok : s.NoWrap a) (hs : s.step a = some (t, o)) : Cut (tr ++ [(a, o)]) t := by
  have hnothing : created [(a, o)] = [] → t.iQueueAddress = s.iQueueAddress →
      Cut (tr ++ [(a, o)]) t := by
    intro hnone haddr
    have hsame : created (tr ++ [(a, o)]) = created tr := by
      rw [created, List.filterMap_append]
      exact (congrArg (created tr ++ ·) hnone).trans (List.append_nil _)
    refine ⟨⟨?_, ?_, ?_, ?_⟩, ?_⟩
    · rw [haddr]
      exact h.address_le
    · rw [hsame]
      exact h.large
    · rw [hsame]
      exact h.inside
    · rw [hsame]
      exact h.apart
    · rw [hsame, haddr]
      exact h.below
  cases a with
  | interrupts iNesting =>
      cases hs
      exact hnothing rfl rfl
  | create c =>
      rw [step_create] at hs
      obtain ⟨code, hc'⟩ | ⟨haccepts, allocated, hc'⟩ := create_cases s c
      · rw [hc'] at hs
        cases hs
        exact hnothing rfl rfl
      · rw [hc'] at hs
        cases hs
        have hrange := hok haccepts
        obtain ⟨haddr, hle⟩ := hrange.address haccepts
        have hwords := hrange.words_mul
        have hend : (s.newQueue c).osqEnd = (s.iQueueAddress + c.words hc) * hc.sizeofCpuType := by
          rw [Nat.add_mul, hwords]
          rfl
        have hnew : created (tr ++ [(.create c, .created (s.newQueue c))]) =
            created tr ++ [(c, s.newQueue c)] := by
          rw [created, List.filterMap_append]
          rfl
        refine ⟨⟨?_, ?_, ?_, ?_⟩, ?_⟩
        · exact haddr ▸ hle
        · rw [hnew, List.forall_mem_append]
          exact ⟨h.large, List.forall_mem_singleton.mpr hrange.size_le⟩
        · rw [hnew, List.forall_mem_append]
          refine ⟨h.inside, List.forall_mem_singleton.mpr ⟨rfl, ?_⟩⟩
          exact hend ▸ Nat.mul_le_mul_right _ hle
        · -- the new buffer begins where the others end
          rw [hnew, List.pairwise_append]
          refine ⟨h.apart, List.pairwise_singleton _ _, fun x hx y hy => ?_⟩
          rw [List.mem_singleton] at hy
          subst hy
          exact Or.inl (h.below x hx)
        · rw [hnew, List.forall_mem_append]
          have hnext : ({ s.advance c with allocated := allocated } : QueueHeap hc).iQueueAddress =
              s.iQueueAddress + c.words hc := haddr
          rw [hnext]
          refine ⟨fun x hx => ?_, List.forall_mem_singleton.mpr hend.le⟩
          exact le_trans (h.below x hx) (Nat.mul_le_mul_right _ (Nat.le_add_right _ _))

/-- `ConfigExample/BRTOSConfig.h` on a 32-bit port. -/
def exampleHeapConfig : HeapConfig where
  toConfig := Config.exampleConfig
  sizeTBits := 32
  sizeTBits_mem := by decide

/-- Queues of the three widths, two of them rounded up, until the array is full. -/
def widthScript : List QueueAct :=
  [.create (.queue 5), .create (.queue16 3), .interrupts 1, .create (.queue 4), .interrupts 0,
    .create (.queue32 2), .create (.queue 1000), .create (.queue16 1)]

/-- The part of the kernel's state that creations read and write. -/
def ofKernel (s : Kernel hc.toConfig) : QueueHeap hc where
  iNesting := s.iNesting
  iQueueAddress := s.iQueueAddress
  allocated i := (s.event (.queue i)).osEventAllocated

/-- What a creation of the kernel returns, and the queue it stores. -/
def obsOf (x : Kernel hc.toConfig × Outcome) : QueueObs :=
  match x.2 with
  | .returned ⟨_, .event (.queue q)⟩ => .created (x.1.osQueueTable q)
  | .returned r => .failed r.code
  | _ => .silent

/-- Where `size_t` has 32 bits, the kernel's `OSQueueCreate` is the creation of an 8-bit
queue. -/
theorem create_ofKernel (s : Kernel hc.toConfig) (size : UInt16) (hbits : hc.sizeTBits = 32)
    (haddr : s.iQueueAddress < 65536) :
    (ofKernel s).osQueueCreate size =
      (ofKernel (s.osQueueCreate size).1, obsOf (s.osQueueCreate size)) := by
  have hsize : (QueueCreate.queue size).rounded hc =
      if size.toNat % hc.sizeofCpuType ≠ 0 then
        (size.toNat + (hc.sizeofCpuType - size.toNat % hc.sizeofCpuType)) % 65536
      else size.toNat := by
    have hlt := size.toNat_lt
    unfold QueueCreate.rounded
    simp only [QueueCreate.size, QueueCreate.padding]
    split
    · rfl
    · rw [Nat.add_zero, Nat.mod_eq_of_lt (by omega)]
  have hrounded : (QueueCreate.queue size).rounded hc < 65536 := Nat.mod_lt _ (by decide)
  have hwords : (QueueCreate.queue size).words hc =
      (QueueCreate.queue size).rounded hc / hc.sizeofCpuType := by
    unfold QueueCreate.words QueueCreate.bytes
    rw [hbits, Nat.mod_eq_of_lt]
    · simp only [QueueCreate.elementSize, Nat.mul_one]
    · simp only [QueueCreate.elementSize]
      omega
  have hle : (QueueCreate.queue size).rounded hc / hc.sizeofCpuType < 65536 :=
    lt_of_le_of_lt (Nat.div_le_self _ _) hrounded
  have hnext : (ofKernel s).nextAddress (.queue size) =
      s.iQueueAddress + (QueueCreate.queue size).rounded hc / hc.sizeofCpuType := by
    unfold nextAddress
    rw [hwords, hbits]
    exact Nat.mod_eq_of_lt (by simp only [ofKernel]; omega)
  have hnest : (ofKernel s).iNesting = s.iNesting := rfl
  have hfree : (ofKernel s).freeEvent = s.freeEvent .queue hc.brtosMaxQueue := rfl
  unfold osQueueCreate create Kernel.osQueueCreate
  rw [hnext, hnest, hfree]
  simp only [← hsize]
  by_cases hirq : 0 < s.iNesting
  · simp only [if_pos hirq]
    rfl
  · by_cases hfull : s.iQueueAddress +
        (QueueCreate.queue size).rounded hc / hc.sizeofCpuType > hc.queueWords
    · have hfull' := hfull
      unfold HeapConfig.queueWords at hfull'
      simp only [if_neg hirq, if_pos hfull, if_pos hfull']
      rfl
    · have hfull' := hfull
      unfold HeapConfig.queueWords at hfull'
      simp only [if_neg hirq, if_neg hfull, if_neg hfull']
      cases s.freeEvent .queue hc.brtosMaxQueue with
      | none => rfl
      | some q =>
          refine Prod.ext ?_ ?_
          · simp only [advance, hwords, ofKernel, Kernel.allocEvent, Kernel.setEvent,
              Kernel.setQueue, QueueHeap.mk.injEq, true_and]
            funext i
            by_cases hi : i = q
            · subst hi
              simp
            · simp [hi]
          · simp [obsOf, newQueue, ofKernel, Kernel.setQueue, QueueCreate.elementSize]

end QueueHeap

end Brtos
