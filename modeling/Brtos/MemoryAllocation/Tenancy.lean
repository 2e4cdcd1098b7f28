import Brtos.Invariant.Step
import Brtos.MemoryAllocation.Clients
import Brtos.Properties.DynamicQueue

/-!
# Brtos.MemoryAllocation.Tenancy

**Every block of the heap has one owner.** In every run of the kernel whose heap is
`umm_malloc.c`, the blocks that are held are the stacks of the installed tasks and the parts of
the dynamic queues, one each, and nothing else is held (`run_inv`). What a step of the kernel does
to the heap leaves alone what is in the blocks that stay with their owners (`Carries`).

The step lemma goes over what a step does to the heap: most steps do nothing (`Inv.same`), an
install takes a block or gives it back again (`Inv.install`), and so on.
-/

namespace Brtos

open Bits Kernel

namespace HeapClients

variable {dc : DQueueConfig} {uc : UmmConfig} {s t : HeapClients (dc.umm uc)} {held : List Grant}

/-- The sizes the kernel asks for itself are `uint16_t`, and `size_t` is at least as wide. -/
structure Fits (dc : DQueueConfig) (uc : UmmConfig) : Prop where
  sizeTBits : 16 ≤ uc.sizeTBits
  idle : dc.idleStackSize < 65536
  queue : dc.sizeofOSDQueue < 65536
  event : dc.sizeofBRTOSQueue < 65536

/-- The blocks that are held are the owners' blocks. -/
def Inv (s : HeapClients (dc.umm uc)) : Prop :=
  ∃ held, Client s.heap held ∧ Tenants held (· ∈ s.owners) s.block ∧ s.queues.Nodup

/-- `t` is again such a state, and who stays keeps its block with what is in it. -/
def Carries (s t : HeapClients (dc.umm uc)) : Prop :=
  Inv t ∧ ∀ o ∈ s.owners, o ∈ t.owners →
    t.block o = s.block o ∧ ∀ x, (s.block o).Owns x → t.heap.mem x = s.heap.mem x

theorem mem_owners {o : Owner} : o ∈ s.owners ↔
    match o with
    | .stack h => dc.dynamicTasksEnabled = true ∧ s.dk.kernel.Installed h
    | .event e | .queue e | .buffer e => e ∈ s.queues := by
  cases o with
  | stack h => exact stack_mem
  | event e => exact queue_mem.1
  | queue e => exact queue_mem.2.1
  | buffer e => exact queue_mem.2.2

theorem owners_congr (halloc : t.dk.kernel.taskAlloc = s.dk.kernel.taskAlloc)
    (hq : t.queues = s.queues) (o : Owner) : o ∈ t.owners ↔ o ∈ s.owners := by
  rw [mem_owners, mem_owners]
  cases o with
  | stack h => exact and_congr_right fun _ => installed_congr halloc h
  | _ => dsimp only; rw [hq]

/-- Whose stack or queue is where it was has its block where it was. -/
theorem block_congr {o : Owner} (hstack : ∀ h, o = .stack h → t.dk.kernel.stack h = s.dk.kernel.stack h)
    (hqueue : ∀ e, (∀ h, o ≠ .stack h) → e ∈ s.queues →
      (t.dk.dEvent e).osEventPointer = (s.dk.dEvent e).osEventPointer ∧
      (t.dk.dQueue (s.dk.dEvent e).osEventPointer).osqStart =
        (s.dk.dQueue (s.dk.dEvent e).osEventPointer).osqStart ∧
      (t.dk.dQueue (s.dk.dEvent e).osEventPointer).osqEnd =
        (s.dk.dQueue (s.dk.dEvent e).osEventPointer).osqEnd)
    (ho : o ∈ s.owners) : t.block o = s.block o := by
  rw [mem_owners] at ho
  cases o with
  | stack h => exact hstack h rfl
  | event e => rfl
  | queue e =>
      obtain ⟨hp, -⟩ := hqueue e nofun ho
      simp only [block, hp]
  | buffer e =>
      obtain ⟨hp, hs, he⟩ := hqueue e nofun ho
      simp only [block, hp, hs, he]

theorem block_of_memory (hm : t.dk.memory = s.dk.memory) (o : Owner) : t.block o = s.block o := by
  obtain ⟨hkernel, hrest⟩ := Prod.mk.inj hm
  obtain ⟨-, -, hstack⟩ := memory_eq hkernel
  cases o with
  | stack h => exact congrFun hstack h
  | event e => rfl
  | queue e => simp only [block, (DKernel.rest_eq hrest e 0).1]
  | buffer e =>
      obtain ⟨hp, hs, he⟩ := DKernel.rest_eq hrest e (s.dk.dEvent e).osEventPointer
      simp only [block, hp, hs, he]

/-- The heap is another one, but nothing has changed hands. -/
theorem Inv.stay (hc : Client t.heap held) (hten : Tenants held (· ∈ s.owners) s.block)
    (hnd : s.queues.Nodup) (howners : ∀ o, o ∈ t.owners ↔ o ∈ s.owners) (hq : t.queues = s.queues)
    (hblock : ∀ o ∈ s.owners, t.block o = s.block o)
    (hbytes : Kept held s.heap t.heap) : Carries s t := by
  refine ⟨⟨held, hc, hten.congr howners hblock, hq ▸ hnd⟩, fun o ho _ => ?_⟩
  exact ⟨hblock o ho, fun x hx => hbytes x ⟨_, hten.held_of_live ho, hx⟩⟩

/-- What has to do with the heap is as it was. -/
theorem Inv.same (hi : Inv s) (hm : t.dk.memory = s.dk.memory) (hq : t.queues = s.queues) :
    Carries s t := by
  obtain ⟨held, hc, hten, hnd⟩ := hi
  obtain ⟨hheap, halloc, -⟩ := memory_eq (Prod.mk.inj hm).1
  have hheap' : t.heap = s.heap := hheap
  refine Inv.stay (hheap' ▸ hc) hten hnd (owners_congr halloc hq) hq (fun o _ => block_of_memory hm o) ?_
  exact fun x _ => by rw [hheap']

/-- In a static build the stacks are elsewhere. -/
theorem Inv.static (hdyn : ¬ dc.dynamicTasksEnabled = true) (hi : Inv s)
    (hheap : t.dk.kernel.heap = s.dk.kernel.heap) (hrest : t.dk.memory.2 = s.dk.memory.2)
    (hq : t.queues = s.queues) : Carries s t := by
  obtain ⟨held, hc, hten, hnd⟩ := hi
  have hheap' : t.heap = s.heap := hheap
  have howners : ∀ o, o ∈ t.owners ↔ o ∈ s.owners := by
    intro o
    rw [mem_owners, mem_owners]
    cases o with
    | stack h => exact iff_of_false (fun h => hdyn h.1) fun h => hdyn h.1
    | _ => dsimp only; rw [hq]
  refine Inv.stay (hheap' ▸ hc) hten hnd howners hq (fun o ho => block_congr ?_ ?_ ho) ?_
  · rintro h rfl
    exact absurd (mem_owners.mp ho).1 hdyn
  · exact fun e _ _ => DKernel.rest_eq hrest e _
  · exact fun x _ => by rw [hheap']

/-- An install, in a dynamic build. -/
theorem Inv.install (hfit : Fits dc uc) (hdyn : dc.dynamicTasksEnabled = true) (hi : Inv s) {n : Nat}
    (hn : n < 65536) {k : Kernel (dc.umm uc).toConfig} (hk : InstallsStack s.dk.kernel n k)
    (hm : t.dk.kernel.memory = k.memory) (hrest : t.dk.memory.2 = s.dk.memory.2)
    (hq : t.queues = s.queues) : Carries s t := by
  obtain ⟨held, hc, hten, hnd⟩ := hi
  obtain ⟨p, heap₁, -, ha, hc₁, hx₁⟩ := hc.alloc hn hfit.sizeTBits
  have ha' : (dc.umm uc).mem.alloc s.dk.kernel.heap n = (p, heap₁) := ha
  have hqueue : ∀ e, _ := fun e => DKernel.rest_eq hrest e (s.dk.dEvent e).osEventPointer
  cases hk with
  | refused h =>
      exact Inv.same ⟨held, hc, hten, hnd⟩ (Prod.ext (hm.trans h) hrest) hq
  | @noMemory heap₂ hnone h =>
      obtain ⟨rfl, rfl⟩ := Prod.mk.inj (hnone.symm.trans ha')
      obtain ⟨hheap, halloc, hstack⟩ := memory_eq (hm.trans h)
      have hheap' : t.heap = heap₂ := hheap
      refine Inv.stay (hheap' ▸ hc₁) hten hnd (owners_congr halloc hq) hq (fun o ho => block_congr ?_ ?_ ho) ?_
      · exact fun h _ => congrFun hstack h
      · exact fun e _ _ => hqueue e
      · exact hheap' ▸ hx₁
  | @noTcb stack heap₂ hsome h =>
      obtain ⟨rfl, rfl⟩ := Prod.mk.inj (hsome.symm.trans ha')
      obtain ⟨hheap, halloc, hstack⟩ := memory_eq (hm.trans h)
      obtain ⟨hc₂, hx₂⟩ := hc₁.undo hx₁
      have hheap' : t.heap = uc.allocator.dealloc heap₂ stack := hheap
      rw [← hheap'] at hc₂ hx₂
      refine Inv.stay hc₂ hten hnd (owners_congr halloc hq) hq (fun o ho => block_congr ?_ ?_ ho) hx₂
      · exact fun h _ => congrFun hstack h
      · exact fun e _ _ => hqueue e
  | @installed i p heap₂ hsome hi h =>
      obtain ⟨rfl, rfl⟩ := Prod.mk.inj (hsome.symm.trans ha')
      obtain ⟨hheap, halloc, hstack⟩ := memory_eq (hm.trans h)
      have hlt := (freeTcb_spec hi).1
      have hfree := TableInv.not_installed_of_free hi
      have howners : ∀ o, o ∈ t.owners ↔ o ∈ s.owners ∨ o = .stack (i + 1) := by
        intro o
        rw [mem_owners, mem_owners]
        cases o with
        | stack h =>
            have hinst : t.dk.kernel.Installed h ↔ h = i + 1 ∨ s.dk.kernel.Installed h :=
              (installed_congr (s := s.dk.kernel.fillTcb i 0 0 0) halloc h).trans
                (TableInv.installed_fillTcb hlt h)
            simp only [hinst, hdyn, true_and, Owner.stack.injEq]
            exact or_comm
        | _ => simp only [hq, reduceCtorEq, or_false]
      have hblock : ∀ o ∈ s.owners, t.block o = s.block o := by
        refine fun o ho => block_congr ?_ (fun e _ _ => hqueue e) ho
        rintro h rfl
        rw [hstack, Function.update_of_ne]
        rintro rfl
        exact hfree (mem_owners.mp ho).2
      have hheap' : t.heap = heap₂ := hheap
      refine ⟨⟨_, hheap' ▸ hc₁, (hten.congr (fun _ => Iff.rfl) hblock).take ?_ howners ?_, hq ▸ hnd⟩,
        fun o ho _ => ⟨hblock o ho, fun x hx => ?_⟩⟩
      · exact (List.nodup_cons.mp hc₁.nodup).1
      · exact (congrFun hstack (i + 1)).trans (Function.update_self _ _ _)
      · rw [hheap']
        exact hx₁ x ⟨_, hten.held_of_live ho, hx⟩

/-- An uninstall of an installed task. -/
theorem Inv.uninstall (hdyn : dc.dynamicTasksEnabled = true) (hi : Inv s) {task : Nat}
    (hinst : s.dk.kernel.Installed task)
    (hm : t.dk.kernel.memory = ((dc.umm uc).mem.dealloc s.dk.kernel.heap (s.dk.kernel.stack task).ptr,
      s.dk.kernel.taskAlloc &&& ~~~ mask 32 (task - 1),
      Function.update s.dk.kernel.stack task ⟨0, 0⟩))
    (hrest : t.dk.memory.2 = s.dk.memory.2) (hq : t.queues = s.queues) : Carries s t := by
  obtain ⟨held, hc, hten, hnd⟩ := hi
  obtain ⟨hheap, halloc, hstack⟩ := memory_eq hm
  have hlive : Owner.stack task ∈ s.owners := mem_owners.mpr ⟨hdyn, hinst⟩
  obtain ⟨heap₁, -, hd, hc₁, hx₁⟩ := hc.dealloc (hten.held_of_live hlive)
  have hheap' : t.heap = heap₁ := hheap.trans hd
  have howners : ∀ o, o ∈ t.owners ↔ o ∈ s.owners ∧ o ≠ .stack task := by
    intro o
    rw [mem_owners, mem_owners]
    cases o with
    | stack h =>
        have ht : t.dk.kernel.Installed h ↔ s.dk.kernel.Installed h ∧ h ≠ task :=
          (installed_congr (s := s.dk.kernel.clearTcb task) halloc h).trans
            (TableInv.installed_clearTcb hinst.pos h)
        simp only [ht, ne_eq, Owner.stack.injEq, and_assoc]
    | _ => simp only [hq, ne_eq, reduceCtorEq, not_false_eq_true, and_true]
  have hblock : ∀ o ∈ s.owners, o ≠ .stack task → t.block o = s.block o := by
    refine fun o ho hne => block_congr ?_ (fun e _ _ => DKernel.rest_eq hrest e _) ho
    rintro h rfl
    rw [hstack, Function.update_of_ne]
    rintro rfl
    exact hne rfl
  have hten' := hten.drop hlive howners
  refine ⟨⟨_, hheap' ▸ hc₁, hten'.congr (fun _ => Iff.rfl) fun o ho => ?_, hq ▸ hnd⟩,
    fun o ho ho' => ?_⟩
  · obtain ⟨ho, hne⟩ := (howners o).mp ho
    exact hblock o ho hne
  · obtain ⟨-, hne⟩ := (howners o).mp ho'
    refine ⟨hblock o ho hne, fun x hx => ?_⟩
    rw [hheap']
    exact hx₁ x ⟨_, hten'.held_of_live ho', hx⟩

/-- A step of the kernel. -/
theorem Inv.kernel (hfit : Fits dc uc) (hi : Inv s) {a : Action} {k : Kernel (dc.umm uc).toConfig}
    {o : Obs} (ho : Obeys s (.kernel (.kernel a))) (hs : s.dk.kernel.step a = some (k, o))
    (hk : t.dk.kernel = k) (hrest : t.dk.memory.2 = s.dk.memory.2) (hq : t.queues = s.queues) :
    Carries s t := by
  subst hk
  have hsame : t.dk.kernel.memory = s.dk.kernel.memory → Carries s t := fun h =>
    hi.same (Prod.ext h hrest) hq
  have hcut : ∀ n, n < 65536 → n - n % dc.sizeofCpuType < 65536 := fun n hn =>
    (Nat.sub_le _ _).trans_lt hn
  have hinstall : ∀ isIdle bytes p, bytes < 65536 →
      t.dk.kernel.memory = (s.dk.kernel.osInstallTask isIdle bytes p).1.memory → Carries s t := by
    intro isIdle bytes p hb hm
    by_cases hdyn : dc.dynamicTasksEnabled = true
    · have hk := installsStack_of_dynamic (s := s.dk.kernel) hdyn isIdle bytes p
      exact hi.install hfit hdyn (hcut _ hb) hk hm hrest hq
    · have hk := heap_install_of_static (s := s.dk.kernel) hdyn isIdle bytes p
      exact hi.static hdyn ((memory_eq hm).1.trans hk) hrest hq
  cases a with
  | brtosStart => exact hinstall true _ 0 hfit.idle (memory_brtosStart hs)
  | call c =>
      obtain ⟨ha, u, oc, hex, hm⟩ := memory_call hs
      by_cases hin : ∃ isIdle bytes p, c = .installTask isIdle bytes p
      · obtain ⟨isIdle, bytes, p, rfl⟩ := hin
        cases hex
        exact hinstall isIdle bytes p ho hm
      by_cases hun : ∃ h off taskTimer, c = .uninstallTask h off taskTimer
      · obtain ⟨h, off, taskTimer, rfl⟩ := hun
        have hdyn : dc.dynamicTasksEnabled = true := by
          simp only [Call.allowed, Bool.and_eq_true] at ha
          exact ha.1
        rcases memory_uninstall hex with hu | ⟨task, rfl, -, hu⟩
        · exact hsame (hm.trans hu)
        · exact hi.uninstall hdyn ho (hm.trans hu) hrest hq
      · refine hsame (hm.trans (memory_exec (fun isIdle bytes p he => hin ⟨_, _, _, he⟩)
          (fun h off taskTimer he => hun ⟨_, _, _, he⟩) hex))
  | _ => exact hsame (memory_step (by simp) (by simp) hs)

/-- Where a queue's parts are, if only a block that nobody has was written. -/
theorem block_queue (hten : Tenants held (· ∈ s.owners) s.block) {c : Nat}
    (hfresh : c ∉ held.map Grant.ptr) (hstack : t.dk.kernel.stack = s.dk.kernel.stack)
    (hp : ∀ e ∈ s.queues, (t.dk.dEvent e).osEventPointer = (s.dk.dEvent e).osEventPointer)
    (hq : ∀ k, k ≠ c → t.dk.dQueue k = s.dk.dQueue k) {o : Owner} (ho : o ∈ s.owners) :
    t.block o = s.block o := by
  refine block_congr (fun h _ => congrFun hstack h) (fun e _ he => ⟨hp e he, ?_⟩) ho
  have hne : (s.dk.dEvent e).osEventPointer ≠ c := by
    rintro rfl
    exact hfresh (hten.ptr_mem (o := .queue e) (mem_owners.mpr he))
  rw [hq _ hne]
  exact ⟨rfl, rfl⟩

/-- `OSDQueueCreate`. -/
theorem Inv.create (hfit : Fits dc uc) (hi : Inv s) {size : Nat} (hsize : size < 65536) {r : DRet}
    (hcr : DKernel.CreatesQueue s.dk size t.dk r)
    (hqs : ∀ e, r = ⟨.allocEventOk, .event e⟩ → t.queues = e :: s.queues)
    (hqs' : r.code ≠ .allocEventOk → t.queues = s.queues) : Carries s t := by
  obtain ⟨held, hc, hten, hnd⟩ := hi
  obtain ⟨p₁, heap₁, -, ha₁, hc₁, hx₁⟩ := hc.alloc hfit.queue hfit.sizeTBits
  have ha₁' : (dc.umm uc).mem.alloc s.dk.kernel.heap (dc.umm uc).sizeofOSDQueue = (p₁, heap₁) := ha₁
  cases hcr with
  | refused h hr => exact Inv.same ⟨held, hc, hten, hnd⟩ h (hqs' hr)
  | @noQueue heap₂ ha h hrest hr =>
      obtain ⟨rfl, rfl⟩ := Prod.mk.inj (ha.symm.trans ha₁')
      obtain ⟨hheap, halloc, hstack⟩ := memory_eq h
      have hheap' : t.heap = heap₂ := hheap
      refine Inv.stay (hheap' ▸ hc₁) hten hnd (owners_congr halloc (hqs' hr)) (hqs' hr)
        (fun o ho => block_congr ?_ ?_ ho) (hheap' ▸ hx₁)
      · exact fun h _ => congrFun hstack h
      · exact fun e _ _ => DKernel.rest_eq hrest e _
  | @noBuffer c heap₂ heap₃ ha hb h hp hq hr =>
      obtain ⟨rfl, rfl⟩ := Prod.mk.inj (ha.symm.trans ha₁')
      obtain ⟨p₂, heap₄, -, ha₂, hc₂, hx₂⟩ := hc₁.alloc hsize hfit.sizeTBits
      obtain ⟨rfl, rfl⟩ := Prod.mk.inj (hb.symm.trans ha₂)
      have hfresh := (List.nodup_cons.mp hc₁.nodup).1
      obtain ⟨hc₃, hx₃⟩ := hc₂.undo (hx₁.trans (hx₂.mono fun _ => List.mem_cons_of_mem _))
      obtain ⟨hheap, halloc, hstack⟩ := memory_eq h
      have hheap' : t.heap = uc.allocator.dealloc heap₃ c := hheap
      rw [← hheap'] at hc₃ hx₃
      refine Inv.stay hc₃ hten hnd (owners_congr halloc (hqs' hr)) (hqs' hr) (fun o ho => ?_) hx₃
      exact block_queue hten hfresh hstack (fun e _ => hp e) hq ho
  | @noEvent c start heap₂ heap₃ heap₄ ha hb hce h hp hq hr =>
      obtain ⟨rfl, rfl⟩ := Prod.mk.inj (ha.symm.trans ha₁')
      obtain ⟨p₂, heap₅, -, ha₂, hc₂, hx₂⟩ := hc₁.alloc hsize hfit.sizeTBits
      obtain ⟨rfl, rfl⟩ := Prod.mk.inj (hb.symm.trans ha₂)
      obtain ⟨p₃, heap₆, -, ha₃, hc₃, hx₃⟩ := hc₂.alloc hfit.event hfit.sizeTBits
      obtain ⟨rfl, rfl⟩ := Prod.mk.inj (hce.symm.trans ha₃)
      have hfresh := (List.nodup_cons.mp hc₁.nodup).1
      obtain ⟨hc₄, hx₄⟩ := hc₃.undo (hx₂.trans (hx₃.mono fun _ => List.mem_cons_of_mem _))
      obtain ⟨hc₅, hx₅⟩ := hc₄.undo (hx₁.trans (hx₄.mono fun _ => List.mem_cons_of_mem _))
      obtain ⟨hheap, halloc, hstack⟩ := memory_eq h
      have hheap' : t.heap = uc.allocator.dealloc (uc.allocator.dealloc heap₄ start) c := hheap
      rw [← hheap'] at hc₅ hx₅
      refine Inv.stay hc₅ hten hnd (owners_congr halloc (hqs' hr)) (hqs' hr) (fun o ho => ?_) hx₅
      exact block_queue hten hfresh hstack (fun e _ => hp e) hq ho
  | @created c start e heap₂ heap₃ heap₄ ha hb hce h hp hq hnew hr =>
      obtain ⟨rfl, rfl⟩ := Prod.mk.inj (ha.symm.trans ha₁')
      obtain ⟨p₂, heap₅, -, ha₂, hc₂, hx₂⟩ := hc₁.alloc hsize hfit.sizeTBits
      obtain ⟨rfl, rfl⟩ := Prod.mk.inj (hb.symm.trans ha₂)
      obtain ⟨p₃, heap₆, -, ha₃, hc₃, hx₃⟩ := hc₂.alloc hfit.event hfit.sizeTBits
      obtain ⟨rfl, rfl⟩ := Prod.mk.inj (hce.symm.trans ha₃)
      have hfresh₁ := (List.nodup_cons.mp hc₁.nodup).1
      have hfresh₂ := (List.nodup_cons.mp hc₂.nodup).1
      have hfresh₃ := (List.nodup_cons.mp hc₃.nodup).1
      obtain ⟨hheap, halloc, hstack⟩ := memory_eq h
      have hheap' : t.heap = heap₄ := hheap
      have hqueues : t.queues = e :: s.queues := hqs e hr
      have hnew' : e ∉ s.queues := fun he =>
        hfresh₃ (List.mem_cons_of_mem _ (List.mem_cons_of_mem _
          (hten.ptr_mem (o := .event e) (mem_owners.mpr he))))
      have hblock : ∀ o ∈ s.owners, t.block o = s.block o := by
        refine fun o ho => block_queue hten hfresh₁ hstack (fun k hk => ?_) hq ho
        rw [hp, if_neg]
        rintro rfl
        exact hnew' hk
      have howners : ∀ o, o ∈ t.owners ↔
          ((o ∈ s.owners ∨ o = .queue e) ∨ o = .buffer e) ∨ o = .event e := by
        intro o
        rw [mem_owners, mem_owners]
        cases o with
        | stack h => simp [installed_congr halloc h]
        | _ => simp [hqueues, or_comm]
      have hpe : (t.dk.dEvent e).osEventPointer = c := (hp e).trans (if_pos rfl)
      have hten₀ : Tenants held (· ∈ s.owners) t.block := hten.congr (fun _ => Iff.rfl) hblock
      have hten₁ := hten₀.take (n := .queue e) hfresh₁ (fun _ => Iff.rfl) (by
        simp only [block, hpe]
        rfl)
      have hten₂ := hten₁.take (n := .buffer e) hfresh₂ (fun _ => Iff.rfl) (by
        simp only [block, hpe, hnew.1, hnew.2, Nat.add_sub_cancel_left])
      have hten₃ := hten₂.take (n := .event e) hfresh₃ howners rfl
      refine ⟨⟨_, hheap' ▸ hc₃, hten₃, hqueues ▸ List.nodup_cons.mpr ⟨hnew', hnd⟩⟩,
        fun o ho _ => ⟨hblock o ho, fun x hx => ?_⟩⟩
      have hkept := (hx₁.trans (hx₂.mono fun _ => List.mem_cons_of_mem _)).trans
        (hx₃.mono fun _ hg => List.mem_cons_of_mem _ (List.mem_cons_of_mem _ hg))
      rw [hheap']
      exact hkept x ⟨_, hten.held_of_live ho, hx⟩

/-- `OSDQueueDelete` of a queue there is. -/
theorem Inv.delete (hi : Inv s) {e : Nat} (he : e ∈ s.queues)
    (hm : t.dk.kernel.memory = ((dc.umm uc).mem.dealloc ((dc.umm uc).mem.dealloc
      ((dc.umm uc).mem.dealloc s.dk.kernel.heap (s.dk.dQueue (s.dk.dEvent e).osEventPointer).osqStart)
      (s.dk.dEvent e).osEventPointer) e, s.dk.kernel.taskAlloc, s.dk.kernel.stack))
    (hrest : t.dk.memory.2 = s.dk.memory.2) (hq : t.queues = s.queues.filter (· ≠ e)) :
    Carries s t := by
  obtain ⟨held, hc, hten, hnd⟩ := hi
  obtain ⟨hheap, halloc, hstack⟩ := memory_eq hm
  have hbuffer : Owner.buffer e ∈ s.owners := mem_owners.mpr he
  have hqueue : Owner.queue e ∈ s.owners ∧ Owner.queue e ≠ .buffer e := ⟨mem_owners.mpr he, nofun⟩
  have hevent : (Owner.event e ∈ s.owners ∧ Owner.event e ≠ .buffer e) ∧ Owner.event e ≠ .queue e :=
    ⟨⟨mem_owners.mpr he, nofun⟩, nofun⟩
  obtain ⟨heap₁, -, hd₁, hc₁, hx₁⟩ := hc.dealloc (hten.held_of_live hbuffer)
  have hten₁ := hten.drop (n := .buffer e) hbuffer fun _ => Iff.rfl
  obtain ⟨heap₂, -, hd₂, hc₂, hx₂⟩ := hc₁.dealloc (hten₁.held_of_live hqueue)
  have hten₂ := hten₁.drop (n := .queue e) hqueue fun _ => Iff.rfl
  obtain ⟨heap₃, -, hd₃, hc₃, hx₃⟩ := hc₂.dealloc (hten₂.held_of_live hevent)
  have howners : ∀ o, o ∈ t.owners ↔
      ((o ∈ s.owners ∧ o ≠ .buffer e) ∧ o ≠ .queue e) ∧ o ≠ .event e := by
    intro o
    rw [mem_owners, mem_owners]
    cases o with
    | stack h => simp [installed_congr halloc h]
    | _ => simp [hq]
  have hten₃ := hten₂.drop (n := .event e) hevent howners
  have hblock : ∀ o ∈ s.owners, t.block o = s.block o := fun o ho =>
    block_congr (fun h _ => congrFun hstack h) (fun e _ _ => DKernel.rest_eq hrest e _) ho
  have hheap' : t.heap = heap₃ := by
    refine hheap.trans (Eq.trans ?_ hd₃)
    refine congrArg (fun d : UmmHeap uc => uc.allocator.dealloc d e) (Eq.trans ?_ hd₂)
    exact congrArg (fun d : UmmHeap uc => uc.allocator.dealloc d _) hd₁
  refine ⟨⟨_, hheap' ▸ hc₃, hten₃.congr (fun _ => Iff.rfl) fun o ho => ?_, ?_⟩, fun o ho ho' => ?_⟩
  · exact hblock o ((howners o).mp ho).1.1.1
  · rw [hq]
    exact hnd.filter _
  · refine ⟨hblock o ho, fun x hx => ?_⟩
    have hheld := hten₃.held_of_live ho'
    rw [hheap']
    refine ((hx₁.mono fun g hg => ?_).trans ((hx₂.mono fun g hg => ?_).trans hx₃)) x ⟨_, hheld, hx⟩
    · exact List.mem_of_mem_filter (List.mem_of_mem_filter hg)
    · exact List.mem_of_mem_filter hg

/-- A byte that the owner of a block stores. -/
theorem Inv.store (hi : Inv s) {x : Nat} {v : UInt8} {r : DObs} (ho : Obeys s (.store x v))
    (hs : s.step (.store x v) = some (t, r)) : Inv t ∧ (∀ o, o ∈ t.owners ↔ o ∈ s.owners) ∧
      (∀ o, t.block o = s.block o) ∧ ∀ y, y ≠ x → t.heap.mem y = s.heap.mem y := by
  obtain ⟨held, hc, hten, hnd⟩ := hi
  obtain ⟨o, hlive, hown⟩ := ho
  obtain ⟨heap', q, hstep, hc', -⟩ := hc.step (c := .store x v) ⟨_, hten.held_of_live hlive, hown⟩
  obtain ⟨hlt, hstep⟩ := Option.ite_none_right_eq_some.mp hstep
  obtain ⟨hlt', hs⟩ := Option.ite_none_right_eq_some.mp hs
  cases hs
  simp only [Option.some.injEq, Prod.mk.injEq, UmmSystem.mk.injEq] at hstep
  obtain ⟨⟨rfl, -⟩, rfl⟩ := hstep
  exact ⟨⟨held, hc', hten, hnd⟩, fun _ => Iff.rfl, fun _ => rfl, fun y hy =>
    Function.update_of_ne hy _ _⟩

/-- A step of the kernel with its dynamic queues. -/
theorem Inv.dstep (hfit : Fits dc uc) (hi : Inv s) {a : DAction} {dk : DKernel (dc.umm uc)} {o : DObs}
    (ho : Obeys s (.kernel a)) (hdk : s.dk.step a = some (dk, o)) :
    Carries s ⟨dk, o.queues s.queues⟩ := by
  cases a with
  | kernel a =>
      simp only [DKernel.step, DKernel.stepKernel] at hdk
      split at hdk
      · cases hdk
      obtain ⟨⟨k, o⟩, hk, he⟩ := Option.map_eq_some_iff.mp hdk
      cases he
      exact hi.kernel hfit ho hk rfl rfl rfl
  | resume =>
      obtain ⟨hm, task, r, rfl⟩ := DKernel.memory_stepResume hdk
      exact hi.same hm rfl
  | call c =>
      by_cases hc : ∃ queueLength typeSize, c = .create queueLength typeSize
      · obtain ⟨queueLength, typeSize, rfl⟩ := hc
        obtain ⟨-, u, oc, hex, hend⟩ := dstep_call_inv hdk
        cases hex
        obtain ⟨r, hr, rfl, rfl⟩ | ⟨-, ⟨r, hr, -⟩ | ⟨hr, -⟩⟩ := hend
        · cases hr
          refine hi.create hfit (Nat.mod_lt _ (by decide))
            (DKernel.createsQueue s.dk queueLength typeSize) (fun e hr => ?_) (fun hr => ?_)
          · rw [hr]
            rfl
          · exact DObs.queues_of_not_created hr
        · cases hr
        · cases hr
      by_cases hd : ∃ e, c = .delete e
      · obtain ⟨e, rfl⟩ := hd
        obtain ⟨-, u, oc, hex, hend⟩ := dstep_call_inv hdk
        obtain ⟨⟨v, r⟩, hdel, he⟩ := Option.map_eq_some_iff.mp hex
        cases he
        obtain ⟨q, hr, rfl, rfl⟩ | ⟨-, ⟨q, hr, -⟩ | ⟨hr, -⟩⟩ := hend
        · cases hr
          cases e with
          | none => cases hdel
          | some e =>
              rcases DKernel.memory_delete hdel with ⟨hm, hr⟩ | ⟨hrest, hr, hm⟩
              · exact hi.same hm (DObs.queues_of_not_deleted hr)
              · exact hi.delete ho.1 hm hrest (DObs.queues_of_deleted hr)
        · cases hr
        · cases hr
      · have hc' := fun queueLength typeSize h => hc ⟨queueLength, typeSize, h⟩
        have hd' := fun e h => hd ⟨e, h⟩
        obtain ⟨hm, ⟨task, r, rfl⟩ | ⟨task, rfl⟩⟩ := DKernel.memory_call hc' hd' hdk
        · exact hi.same hm (DObs.queues_of_call hc' hd')
        · exact hi.same hm rfl

/-- No two owners share a byte. -/
theorem Inv.apart (hi : Inv s) {o o' : Owner} (ho : o ∈ s.owners) (ho' : o' ∈ s.owners) (hne : o ≠ o') :
    (s.block o).Apart (s.block o') := by
  obtain ⟨held, hc, hten, -⟩ := hi
  obtain ⟨n, hi⟩ := hc.inv
  have hne' : s.block o ≠ s.block o' := fun he => hne (hten.inj o o' ho ho' he)
  exact hi.apart.forall (hten.held_of_live ho) (hten.held_of_live ho') hne'

/-- The kernel finds in the heap what is there. -/
theorem Inv.load (hi : Inv s) : Inv ⟨s.load, s.queues⟩ := (hi.same rfl rfl).1

/-- Messages have been written in the buffers of queues. -/
theorem Inv.save (hi : Inv s) {mem : Bytes}
    (hbytes : ∀ x, mem x ≠ s.heap.mem x → ∃ e ∈ s.queues, (s.block (.buffer e)).Owns x) :
    Inv ⟨s.dk.setHeap (⟨mem⟩ : UmmHeap uc), s.queues⟩ := by
  obtain ⟨held, hc, hten, hnd⟩ := hi
  refine ⟨held, hc.write fun x hx => ?_, hten, hnd⟩
  obtain ⟨e, he, hown⟩ := hbytes x hx
  exact ⟨_, hten.held_of_live (o := .buffer e) (mem_owners.mpr he), hown⟩

/-- A post writes in the buffer of its queue and nowhere else. -/
theorem Inv.post (hfit : Fits dc uc) (hi : Inv s) {e : Option Nat} {pdata : List UInt8} {r : DObs}
    (ho : Obeys s (.kernel (.call (.post e pdata))))
    (hs : s.step (.kernel (.call (.post e pdata))) = some (t, r)) :
    Inv t ∧ (∀ o, t.block o = s.block o) ∧
      ∀ x, t.heap.mem x ≠ s.heap.mem x → ∃ k ∈ s.queues, e = some k ∧ (s.block (.buffer k)).Owns x := by
  obtain ⟨⟨dk, q⟩, hdk, he⟩ := Option.map_eq_some_iff.mp hs
  cases he
  have hi' := (hi.load.dstep hfit ho hdk).1
  obtain ⟨hm, hobs⟩ := DKernel.memory_call (c := .post e pdata) (fun _ _ => nofun) (fun _ => nofun) hdk
  have hheap : dk.kernel.heap = s.heap := congrArg (fun m => m.1.1) hm
  have hq : r.queues s.queues = s.queues := by
    obtain ⟨task, r, rfl⟩ | ⟨task, rfl⟩ := hobs <;> rfl
  have hblock : ∀ o, (⟨dk, r.queues s.queues⟩ : HeapClients (dc.umm uc)).block o = s.block o :=
    block_of_memory hm
  have hbytes : ∀ x, dk.bytes x ≠ s.heap.mem x →
      ∃ k ∈ s.queues, e = some k ∧ (s.block (.buffer k)).Owns x := by
    intro x hx
    obtain ⟨k, rfl, hstart, hend⟩ := DKernel.bytes_post hdk hx
    refine ⟨k, ho, rfl, hstart, hend.trans_le ?_⟩
    exact Nat.sub_le_iff_le_add'.mp (le_refl _)
  refine ⟨hi'.save fun x hx => ?_, hblock, hbytes⟩
  have hheap' : (⟨dk, r.queues s.queues⟩ : HeapClients (dc.umm uc)).heap = s.heap := hheap
  rw [hheap'] at hx
  obtain ⟨k, hk, -, hown⟩ := hbytes x hx
  exact ⟨k, show k ∈ r.queues s.queues from hq.symm ▸ hk, (hblock (.buffer k)).symm ▸ hown⟩

/-- **One step.** A block stays with its owner, and with what is in it where the step does not
write. -/
theorem Inv.step (hfit : Fits dc uc) (hi : Inv s) {a : ClientAction} {r : DObs} (ho : Obeys s a)
    (hs : s.step a = some (t, r)) :
    Inv t ∧ ∀ o ∈ s.owners, o ∈ t.owners → t.block o = s.block o ∧
      ∀ x, (s.block o).Owns x → ¬ a.Writes o x → t.heap.mem x = s.heap.mem x := by
  cases a with
  | store y v =>
      obtain ⟨hi', -, hblock, hmem⟩ := hi.store ho hs
      refine ⟨hi', fun o _ _ => ⟨hblock o, fun x _ hno => hmem x ?_⟩⟩
      rintro rfl
      exact hno rfl
  | kernel a =>
      by_cases hpost : ∃ e pdata, a = .call (.post e pdata)
      · obtain ⟨e, pdata, rfl⟩ := hpost
        obtain ⟨hi', hblock, hmem⟩ := hi.post hfit ho hs
        refine ⟨hi', fun o hlive _ => ⟨hblock o, fun x hx hno => ?_⟩⟩
        by_contra hne
        obtain ⟨k, hk, rfl, hown⟩ := hmem x hne
        have hapart := hi.apart hlive (mem_owners (o := .buffer k).mpr hk) fun h => hno h
        unfold Grant.Apart at hapart
        unfold Grant.Owns at hown hx
        omega
      · obtain ⟨⟨dk, q⟩, hdk, he⟩ := Option.map_eq_some_iff.mp hs
        cases he
        have hsave : HeapClients.save dk a = dk := by
          unfold HeapClients.save
          split
          · exact absurd ⟨_, _, rfl⟩ hpost
          · rfl
        rw [hsave]
        obtain ⟨hi', hkeeps⟩ := hi.load.dstep hfit ho hdk
        refine ⟨hi', fun o hlive hlive' => ?_⟩
        obtain ⟨hblock, hmem⟩ := hkeeps o hlive hlive'
        exact ⟨hblock, fun x hx _ => hmem x hx⟩

/-! ### Runs -/

theorem inv_init (dQueue : Nat → OSDQueue) (dEvent : Nat → BRTOSQueue (dc.umm uc).prioBits) :
    Inv (init (dc.umm uc) dQueue dEvent) := by
  have hno : ∀ o, o ∉ (init (dc.umm uc) dQueue dEvent).owners := by
    intro o ho
    rw [mem_owners] at ho
    cases o with
    | stack h => exact not_installed_init _ h ho.2
    | _ => exact List.not_mem_nil ho
  refine ⟨[], ⟨[], .nil⟩, ⟨List.nodup_nil, fun g => ?_, fun o _ ho => absurd ho (hno o)⟩, List.nodup_nil⟩
  exact iff_of_false List.not_mem_nil fun ⟨o, ho, _⟩ => hno o ho

theorem run_inv (hfit : Fits dc uc) {dQueue : Nat → OSDQueue}
    {dEvent : Nat → BRTOSQueue (dc.umm uc).prioBits} {tr : List (ClientAction × DObs)}
    (hr : Run step Obeys (init (dc.umm uc) dQueue dEvent) tr s) : Inv s := by
  refine hr.invariant (inv_init dQueue dEvent) fun s a t r hi ho hs => (hi.step hfit ho hs).1

theorem owners_nodup (hnd : s.queues.Nodup) : s.owners.Nodup := by
  rw [owners, List.nodup_append]
  refine ⟨?_, ?_, ?_⟩
  · split
    · refine List.Nodup.map (fun a b h => Owner.stack.inj h) ?_
      exact List.Nodup.filter _ List.nodup_range'
    · exact List.nodup_nil
  · refine List.nodup_flatMap.mpr ⟨fun e _ => by simp, hnd.imp fun {e k} hne => ?_⟩
    simp [Function.onFun, List.Disjoint, hne]
  · rintro o ho o' ho' rfl
    split at ho
    · obtain ⟨h, -, rfl⟩ := List.mem_map.mp ho
      simp at ho'
    · exact List.not_mem_nil ho

/-- The heap of the example configuration under the kernel of the example configuration. -/
def exampleClients : HeapClients ((messageConfig false).umm .example) :=
  init _ (fun _ => ⟨0, 0, 0, 0, 0, 0, 0⟩) fun _ => ⟨0, 0, 0, 0, 0⟩

theorem fits_example : Fits (messageConfig false) .example :=
  ⟨by decide, by decide, by decide, by decide⟩

end HeapClients

end Brtos
