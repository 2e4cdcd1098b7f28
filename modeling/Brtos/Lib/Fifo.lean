import Brtos.Lib.RingBuffer
import Brtos.Lib.Run

/-!
# Brtos.Lib.Fifo

**Bounded first-in-first-out queues**, and programs that keep one in a ring buffer.

A queue is the list of its values; `Fifo.step` says what an operation does to it and
what it answers. A program (`Fifo.Program`) has calls, each of which stands for one of
the operations, and keeps the values in a memory at the positions of a `RingBuffer`,
every value taking `width` addresses. `Fifo.Refines` says that over any sequence of calls
the answers are those of the list, and what happens to the buffer meanwhile.

A program is shown to refine the list by one lemma about its calls: each of them is a
`Fifo.BufferStep` (`Fifo.Program.refines`).
-/

namespace Fifo

variable {σ ι ρ μ α : Type}

inductive Op (α : Type)
  | write (x : α)
  | read
  | clean
  deriving DecidableEq, Repr

inductive Result (α : Type)
  | written
  | full
  | value (x : α)
  | noEntry
  | cleaned
  deriving DecidableEq, Repr

/-- An operation on a queue of at most `capacity` values. -/
def step (capacity : Nat) (xs : List α) : Op α → List α × Result α
  | .write x => if xs.length < capacity then (xs ++ [x], .written) else (xs, .full)
  | .read =>
    match xs with
    | [] => ([], .noEntry)
    | x :: xs => (xs, .value x)
  | .clean => ([], .cleaned)

/-- The values in the queue after the operations. -/
def contents (capacity : Nat) (ops : List (Op α)) : List α :=
  ops.foldl (fun xs op => (step capacity xs op).1) []

/-- The answers to the operations on a queue that holds `xs`. -/
def resultsFrom (capacity : Nat) : List α → List (Op α) → List (Result α)
  | _, [] => []
  | xs, op :: ops => (step capacity xs op).2 :: resultsFrom capacity (step capacity xs op).1 ops

/-- The answers to the operations on an empty queue. -/
def results (capacity : Nat) (ops : List (Op α)) : List (Result α) := resultsFrom capacity [] ops

theorem contents_snoc (capacity : Nat) (ops : List (Op α)) (op : Op α) :
    contents capacity (ops ++ [op]) = (step capacity (contents capacity ops) op).1 := by
  simp [contents]

theorem resultsFrom_snoc (capacity : Nat) (ops : List (Op α)) (op : Op α) (xs : List α) :
    resultsFrom capacity xs (ops ++ [op]) = resultsFrom capacity xs ops ++
      [(step capacity (ops.foldl (fun xs op => (step capacity xs op).1) xs) op).2] := by
  induction ops generalizing xs with
  | nil => rfl
  | cons op' ops ih =>
      show _ :: resultsFrom capacity (step capacity xs op').1 (ops ++ [op]) = _
      rw [ih]
      rfl

theorem results_snoc (capacity : Nat) (ops : List (Op α)) (op : Op α) :
    results capacity (ops ++ [op]) =
      results capacity ops ++ [(step capacity (contents capacity ops) op).2] :=
  resultsFrom_snoc capacity ops op []

theorem resultsFrom_length (capacity : Nat) (ops : List (Op α)) (xs : List α) :
    (resultsFrom capacity xs ops).length = ops.length := by
  induction ops generalizing xs with
  | nil => rfl
  | cons op ops ih => exact congrArg (· + 1) (ih _)

/-! ### Ring buffers of wide values -/

/-- The address an operation uses. -/
def access (r : RingBuffer) : Op α → Option Nat
  | .write _ => if r.entries < r.size then some (r.wrap r.inPos) else none
  | .read => if 0 < r.entries then some (r.wrap r.outPos) else none
  | .clean => none

/-- A ring buffer whose positions are addresses and the values it holds in memory. -/
structure Buffer (μ : Type) where
  ring : RingBuffer
  mem : μ

/-- What an operation does to a buffer of values `width` addresses wide, which are read
from the memory with `load`. -/
inductive BufferStep (width : Nat) (load : μ → Nat → α) :
    Buffer μ → Op α → Buffer μ → Result α → Prop
  | written {r : RingBuffer} {mem mem' : μ} {x : α} : r.entries < r.size →
      load mem' (r.wrap r.inPos) = x →
      (∀ a, a + width ≤ r.wrap r.inPos ∨ r.wrap r.inPos + width ≤ a → load mem' a = load mem a) →
      BufferStep width load ⟨r, mem⟩ (.write x)
        ⟨{ r with entries := r.entries + 1, inPos := r.wrap r.inPos + width }, mem'⟩ .written
  | full {r : RingBuffer} {mem : μ} {x : α} : ¬ r.entries < r.size →
      BufferStep width load ⟨r, mem⟩ (.write x) ⟨r, mem⟩ .full
  | value {r : RingBuffer} {mem : μ} : 0 < r.entries →
      BufferStep width load ⟨r, mem⟩ .read
        ⟨{ r with entries := r.entries - 1, outPos := r.wrap r.outPos + width }, mem⟩
        (.value (load mem (r.wrap r.outPos)))
  | noEntry {r : RingBuffer} {mem : μ} : r.entries = 0 →
      BufferStep width load ⟨r, mem⟩ .read ⟨r, mem⟩ .noEntry
  | cleaned {r : RingBuffer} {mem : μ} :
      BufferStep width load ⟨r, mem⟩ .clean
        ⟨{ r with entries := 0, inPos := r.start, outPos := r.start }, mem⟩ .cleaned

variable {width : Nat} {load : μ → Nat → α} {b b' : Buffer μ} {xs : List α} {op : Op α}
  {res : Result α}

/-- `v` is `r` with its positions counted in values from the start. -/
structure CountsIn (width : Nat) (r v : RingBuffer) : Prop where
  start_eq : v.start = 0
  stop_eq : r.stop = r.start + width * v.stop
  in_eq : r.inPos = r.start + width * v.inPos
  out_eq : r.outPos = r.start + width * v.outPos
  size_eq : r.size = v.size
  entries_eq : r.entries = v.entries

/-- The buffer holds the values `xs`. -/
def Holds (width : Nat) (load : μ → Nat → α) (b : Buffer μ) (xs : List α) : Prop :=
  ∃ v, CountsIn width b.ring v ∧
    RingBuffer.IsRing (fun i => load b.mem (b.ring.start + width * i)) v xs

/-- A fresh buffer is empty. -/
theorem holds_nil (mem : μ) (start size : Nat) :
    Holds width load ⟨⟨start, start + width * size, start, start, size, 0⟩, mem⟩ [] := by
  refine ⟨⟨0, size, 0, 0, size, 0⟩, ⟨rfl, rfl, rfl, rfl, rfl, rfl⟩, ?_⟩
  have hring := RingBuffer.isRing_nil (fun i => load mem (start + width * i)) 0 size
  rwa [Nat.zero_add] at hring

/-- Bringing a position back is the same in addresses and in values. -/
theorem CountsIn.wrap {r v : RingBuffer} {pos n : Nat} (h : CountsIn width r v) (hw : 0 < width)
    (hpos : pos = r.start + width * n) : r.wrap pos = r.start + width * v.wrap n := by
  have hiff : pos = r.stop ↔ n = v.stop := by
    rw [hpos, h.stop_eq, Nat.add_left_cancel_iff]
    exact ⟨Nat.eq_of_mul_eq_mul_left hw, fun heq => heq ▸ rfl⟩
  unfold RingBuffer.wrap
  by_cases hn : n = v.stop
  · rw [if_pos hn, if_pos (hiff.mpr hn), h.start_eq, Nat.mul_zero, Nat.add_zero]
  · rw [if_neg hn, if_neg (hiff.not.mpr hn), hpos]

theorem Holds.positions (h : Holds width load b xs) :
    b.ring.stop = b.ring.start + width * b.ring.size ∧
      (b.ring.start ≤ b.ring.inPos ∧ b.ring.inPos ≤ b.ring.stop) ∧
      b.ring.start ≤ b.ring.outPos ∧ b.ring.outPos ≤ b.ring.stop := by
  obtain ⟨v, hv, hring⟩ := h
  have hstop : v.stop = v.size := by rw [hring.stop_eq, hv.start_eq, Nat.zero_add]
  refine ⟨?_, ?_, ?_⟩
  · rw [hv.stop_eq, hstop, hv.size_eq]
  · rw [hv.in_eq, hv.stop_eq]
    exact ⟨Nat.le_add_right _ _,
      Nat.add_le_add_left (Nat.mul_le_mul_left _ hring.in_mem.2) _⟩
  · rw [hv.out_eq, hv.stop_eq]
    exact ⟨Nat.le_add_right _ _,
      Nat.add_le_add_left (Nat.mul_le_mul_left _ hring.out_mem.2) _⟩

/-- What an operation reads or writes is inside the buffer. -/
theorem Holds.access_mem (hw : 0 < width) (h : Holds width load b xs) {a : Nat}
    (ha : a ∈ access b.ring op) : b.ring.start ≤ a ∧ a + width ≤ b.ring.stop := by
  obtain ⟨v, hv, hring⟩ := h
  have hinside : ∀ n, v.start ≤ n ∧ n ≤ v.stop → 0 < v.size →
      b.ring.start ≤ b.ring.start + width * v.wrap n ∧
        b.ring.start + width * v.wrap n + width ≤ b.ring.stop := by
    intro n hn hsize
    have hlt := (RingBuffer.wrap_mem hring.stop_eq hsize hn).2
    refine ⟨Nat.le_add_right _ _, ?_⟩
    rw [hv.stop_eq, Nat.add_assoc, ← Nat.mul_succ]
    exact Nat.add_le_add_left (Nat.mul_le_mul_left _ hlt) _
  have hle := hring.le_size
  have hsize := hv.size_eq
  have hentries := hv.entries_eq
  cases op with
  | write x =>
      by_cases hroom : b.ring.entries < b.ring.size
      · rw [access, if_pos hroom, Option.mem_some_iff] at ha
        rw [← ha, hv.wrap hw hv.in_eq]
        exact hinside _ hring.in_mem (by omega)
      · rw [access, if_neg hroom] at ha
        cases ha
  | read =>
      by_cases hsome : 0 < b.ring.entries
      · rw [access, if_pos hsome, Option.mem_some_iff] at ha
        rw [← ha, hv.wrap hw hv.out_eq]
        exact hinside _ hring.out_mem (by omega)
      · rw [access, if_neg hsome] at ha
        cases ha
  | clean => cases ha

/-- **The step lemma**: an operation on the buffer is the operation on the list. -/
theorem Holds.step (hw : 0 < width) (h : Holds width load b xs)
    (hs : BufferStep width load b op b' res) :
    res = (step b.ring.size xs op).2 ∧ Holds width load b' (Fifo.step b.ring.size xs op).1 := by
  obtain ⟨v, hv, hring⟩ := h
  have hlen : xs.length = v.entries := hring.length
  cases hs with
  | @written r mem mem' x hroom hnew hold =>
      have hfits : xs.length < r.size := by
        rw [hlen, ← hv.entries_eq]
        exact hroom
      have hroom' : v.entries < v.size := by
        rw [← hv.entries_eq, ← hv.size_eq]
        exact hroom
      simp only [Fifo.step, if_pos hfits]
      refine ⟨trivial, v.put, ⟨hv.start_eq, hv.stop_eq, ?_, hv.out_eq, hv.size_eq, ?_⟩, ?_⟩
      · show r.wrap r.inPos + width = r.start + width * (v.wrap v.inPos + 1)
        rw [hv.wrap hw hv.in_eq, Nat.mul_succ, Nat.add_assoc]
      · exact congrArg (· + 1) hv.entries_eq
      · have hput := hring.put hroom' x
        have hsame : Function.update (fun i => load mem (r.start + width * i)) (v.wrap v.inPos) x =
            fun i => load mem' (r.start + width * i) := by
          have haddr : r.wrap r.inPos = r.start + width * v.wrap v.inPos := hv.wrap hw hv.in_eq
          funext i
          by_cases hi : i = v.wrap v.inPos
          · rw [hi, Function.update_self, ← haddr]
            exact hnew.symm
          · rw [Function.update_of_ne hi]
            refine (hold _ ?_).symm
            rw [haddr, Nat.add_assoc, Nat.add_assoc, ← Nat.mul_succ, ← Nat.mul_succ]
            -- different values lie at least a width apart
            rcases Nat.lt_or_gt_of_ne hi with hlt | hgt
            · exact Or.inl (Nat.add_le_add_left (Nat.mul_le_mul_left _ hlt) _)
            · exact Or.inr (Nat.add_le_add_left (Nat.mul_le_mul_left _ hgt) _)
        exact hsame ▸ hput
  | @full r mem x hfull =>
      have hfits : ¬ xs.length < r.size := by
        rw [hlen, ← hv.entries_eq]
        exact hfull
      simp only [Fifo.step, if_neg hfits]
      exact ⟨trivial, v, hv, hring⟩
  | @value r mem hsome =>
      cases xs with
      | nil =>
          have hentries := hv.entries_eq
          simp only [List.length_nil] at hlen
          simp only at hentries
          omega
      | cons x xs =>
          obtain ⟨hx, hget⟩ := hring.get
          have haddr : r.wrap r.outPos = r.start + width * v.wrap v.outPos := hv.wrap hw hv.out_eq
          refine ⟨?_, v.get, ⟨hv.start_eq, hv.stop_eq, hv.in_eq, ?_, hv.size_eq, ?_⟩, hget⟩
          · show Result.value (load mem (r.wrap r.outPos)) = .value x
            rw [haddr]
            exact congrArg _ hx
          · show r.wrap r.outPos + width = r.start + width * (v.wrap v.outPos + 1)
            rw [haddr, Nat.mul_succ, Nat.add_assoc]
          · exact congrArg (· - 1) hv.entries_eq
  | @noEntry r mem hnone =>
      have hnil : xs = [] := hring.entries_eq_zero.mp (hv.entries_eq.symm.trans hnone)
      subst hnil
      exact ⟨rfl, v, hv, hring⟩
  | @cleaned r mem =>
      refine ⟨rfl, ?_⟩
      have hstop : r.stop = r.start + width * r.size := by
        have hstop := hv.stop_eq
        have hsize := hv.size_eq
        rw [hring.stop_eq, hv.start_eq, Nat.zero_add, ← hsize] at hstop
        exact hstop
      have hnil : Holds width load
          ⟨⟨r.start, r.start + width * r.size, r.start, r.start, r.size, 0⟩, mem⟩ [] :=
        holds_nil mem r.start r.size
      rwa [← hstop] at hnil

theorem BufferStep.size_eq (hs : BufferStep width load b op b' res) :
    b'.ring.size = b.ring.size := by
  cases hs <;> rfl

/-- An operation that is turned away changes nothing. -/
theorem BufferStep.failed (hs : BufferStep width load b op b' res)
    (hres : res = .full ∨ res = .noEntry) : b' = b := by
  cases hs with
  | full _ => rfl
  | noEntry _ => rfl
  | written _ _ _ => rcases hres with h | h <;> cases h
  | value _ => rcases hres with h | h <;> cases h
  | cleaned => rcases hres with h | h <;> cases h

/-- Memory changes only where the operation uses it. -/
theorem BufferStep.frame (hs : BufferStep width load b op b' res) {i : Nat}
    (hi : ∀ a ∈ access b.ring op, i + width ≤ a ∨ a + width ≤ i) :
    load b'.mem i = load b.mem i := by
  cases hs with
  | @written r mem mem' x hroom hnew hold =>
      exact hold i (hi _ (by rw [access, if_pos hroom]; rfl))
  | full _ => rfl
  | value _ => rfl
  | noEntry _ => rfl
  | cleaned => rfl

/-! ### Programs -/

/-- A program with calls `ι` and answers `ρ`, each call standing for an operation, and
where in its state the buffer is. `ok` says when a call may be made. -/
structure Program (σ ι ρ μ α : Type) where
  step : σ → ι → Option (σ × ρ)
  ok : σ → ι → Prop
  op : ι → Op α
  result : ι → Result α → ρ
  width : Nat
  load : μ → Nat → α
  buffer : σ → Buffer μ

variable {P : Program σ ι ρ μ α} {s t : σ} {capacity : Nat}

/-- The operations a trace of calls stands for. -/
def Program.ops (P : Program σ ι ρ μ α) (tr : List (ι × ρ)) : List (Op α) :=
  tr.map fun x => P.op x.1

/-- The program is a bounded queue from state `s` on: after any sequence of calls

* the answers were those of the list;
* both positions are in the buffer;
* every call that may be made has an answer;
* what it reads or writes is strictly inside the buffer, and nothing else changes;
* and if the list turns it away, the buffer stays as it is. -/
structure Refines (P : Program σ ι ρ μ α) (capacity : Nat) (s : σ) : Prop where
  results_eq : ∀ {tr t}, Run P.step P.ok s tr t →
    tr.map Prod.snd = List.zipWith P.result (tr.map Prod.fst) (results capacity (P.ops tr))
  positions : ∀ {tr t}, Run P.step P.ok s tr t →
    let r := (P.buffer t).ring
    r.stop = r.start + P.width * capacity ∧ (r.start ≤ r.inPos ∧ r.inPos ≤ r.stop) ∧
      r.start ≤ r.outPos ∧ r.outPos ≤ r.stop
  enabled : ∀ {tr t i}, Run P.step P.ok s tr t → P.ok t i → (P.step t i).isSome
  access_mem : ∀ {tr t i a}, Run P.step P.ok s tr t → P.ok t i →
    a ∈ access (P.buffer t).ring (P.op i) →
    (P.buffer t).ring.start ≤ a ∧ a + P.width ≤ (P.buffer t).ring.stop
  frame : ∀ {tr t i u o}, Run P.step P.ok s tr t → P.ok t i → P.step t i = some (u, o) →
    ∀ j, (∀ a ∈ access (P.buffer t).ring (P.op i), j + P.width ≤ a ∨ a + P.width ≤ j) →
      P.load (P.buffer u).mem j = P.load (P.buffer t).mem j
  failed : ∀ {tr t i u o}, Run P.step P.ok s tr t → P.ok t i → P.step t i = some (u, o) →
    (Fifo.step capacity (contents capacity (P.ops tr)) (P.op i)).2 = .full ∨
      (Fifo.step capacity (contents capacity (P.ops tr)) (P.op i)).2 = .noEntry →
    P.buffer u = P.buffer t

/-- Every call that may be made is an operation on the buffer, and keeps `J`. -/
def Program.StepsIn (P : Program σ ι ρ μ α) (J : σ → Prop) : Prop :=
  ∀ s i, J s → P.ok s i → ∃ t res, P.step s i = some (t, P.result i res) ∧
    BufferStep P.width P.load (P.buffer s) (P.op i) (P.buffer t) res ∧ J t

/-- What holds after any sequence of calls. -/
theorem Program.holds {J : σ → Prop} (hsteps : P.StepsIn J) (hw : 0 < P.width) (hJ : J s)
    (h0 : Holds P.width P.load (P.buffer s) []) {tr : List (ι × ρ)}
    (h : Run P.step P.ok s tr t) :
    J t ∧ (P.buffer t).ring.size = (P.buffer s).ring.size ∧
      Holds P.width P.load (P.buffer t) (contents (P.buffer s).ring.size (P.ops tr)) ∧
      tr.map Prod.snd = List.zipWith P.result (tr.map Prod.fst)
        (results (P.buffer s).ring.size (P.ops tr)) := by
  induction h with
  | nil => exact ⟨hJ, rfl, h0, rfl⟩
  | @snoc tr t u i o _ hok hs ih =>
      obtain ⟨hJt, hsize, hholds, hres⟩ := ih
      obtain ⟨u', res, hs', hstep, hJu⟩ := hsteps t i hJt hok
      obtain ⟨rfl, rfl⟩ := Prod.mk.inj (Option.some.inj (hs.symm.trans hs'))
      obtain ⟨hans, hnext⟩ := hholds.step hw hstep
      rw [hsize] at hans hnext
      have hops : P.ops (tr ++ [(i, P.result i res)]) = P.ops tr ++ [P.op i] := by
        simp [Program.ops]
      refine ⟨hJu, hstep.size_eq.trans hsize, ?_, ?_⟩
      · rw [hops, contents_snoc]
        exact hnext
      · have hlen : (tr.map Prod.fst).length =
            (results (P.buffer s).ring.size (P.ops tr)).length := by
          rw [results, resultsFrom_length, Program.ops, List.length_map, List.length_map]
        rw [hops, results_snoc, List.map_append, List.map_append, List.zipWith_append hlen, hres,
          ← hans]
        rfl

/-- **The refinement rule**: a program whose calls are operations on a buffer that is
empty at first is a bounded queue. -/
theorem Program.refines {J : σ → Prop} (hsteps : P.StepsIn J) (hw : 0 < P.width) (hJ : J s)
    (h0 : Holds P.width P.load (P.buffer s) []) : Refines P (P.buffer s).ring.size s where
  results_eq h := (Program.holds hsteps hw hJ h0 h).2.2.2
  positions h := by
    obtain ⟨-, hsize, hholds, -⟩ := Program.holds hsteps hw hJ h0 h
    rw [← hsize]
    exact hholds.positions
  enabled h hok := by
    obtain ⟨hJt, -⟩ := Program.holds hsteps hw hJ h0 h
    obtain ⟨u, res, hs, -⟩ := hsteps _ _ hJt hok
    rw [hs]
    rfl
  access_mem h hok ha := (Program.holds hsteps hw hJ h0 h).2.2.1.access_mem hw ha
  frame h hok hs j hj := by
    obtain ⟨hJt, -⟩ := Program.holds hsteps hw hJ h0 h
    obtain ⟨u, res, hs', hstep, -⟩ := hsteps _ _ hJt hok
    obtain ⟨rfl, -⟩ := Prod.mk.inj (Option.some.inj (hs.symm.trans hs'))
    exact hstep.frame hj
  failed h hok hs hfail := by
    obtain ⟨hJt, hsize, hholds, -⟩ := Program.holds hsteps hw hJ h0 h
    obtain ⟨u, res, hs', hstep, -⟩ := hsteps _ _ hJt hok
    obtain ⟨rfl, -⟩ := Prod.mk.inj (Option.some.inj (hs.symm.trans hs'))
    have hans := (hholds.step hw hstep).1
    rw [hsize] at hans
    exact hstep.failed (hans ▸ hfail)

end Fifo
