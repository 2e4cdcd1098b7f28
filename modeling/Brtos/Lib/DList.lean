import Mathlib.Data.List.Nodup
import Mathlib.Logic.Function.Basic
import Mathlib.Tactic.Common

/-!
# Brtos.Lib.DList

**Intrusive doubly linked lists.** The links live in the nodes themselves: a
list is a head and a tail pointer together with a `next` and a `previous` field
for every node, whether it is linked or not. Nothing marks membership, so the
sequence a list stands for is a *representation predicate* (`IsList`), not a
function of the pointers.

`pushBack` and `remove` are the two pointer programs such a list is used with;
each comes with the one lemma that says what it does to the represented
sequence (`IsList.pushBack`, `IsList.remove`), and with the fact a traversal
that deletes as it goes relies on: unlinking a node leaves its own `next` field
alone (`IsList.remove_next_self`).
-/

/-- Head, tail and the links of every node. -/
structure DList (ι : Type) where
  head : Option ι
  tail : Option ι
  next : ι → Option ι
  previous : ι → Option ι

namespace DList

variable {ι : Type}

/-- No node is linked. -/
def empty : DList ι := ⟨none, none, fun _ => none, fun _ => none⟩

/-- `p->next = v`; writing through a null pointer has no meaning and is a no-op here. -/
def setNext [DecidableEq ι] (d : DList ι) (p v : Option ι) : DList ι :=
  match p with
  | some a => { d with next := Function.update d.next a v }
  | none => d

/-- `p->previous = v`. -/
def setPrevious [DecidableEq ι] (d : DList ι) (p v : Option ι) : DList ι :=
  match p with
  | some a => { d with previous := Function.update d.previous a v }
  | none => d

/-- Link `a` behind the tail. -/
def pushBack [DecidableEq ι] (d : DList ι) (a : ι) : DList ι :=
  match d.tail with
  | some t =>
    let d := d.setNext (some t) (some a)
    let d := d.setPrevious (some a) (some t)
    let d := { d with tail := some a }
    d.setNext (some a) none
  | none =>
    let d := { d with tail := some a, head := some a }
    let d := d.setNext (some a) none
    d.setPrevious (some a) none

/-- Unlink `a`, by its position: only node, head, tail or inner node. -/
def remove [DecidableEq ι] (d : DList ι) (a : ι) : DList ι :=
  if some a = d.head then
    if some a = d.tail then { d with tail := none, head := none }
    else
      let d := { d with head := d.next a }
      d.setPrevious d.head none
  else if some a = d.tail then
    let d := { d with tail := d.previous a }
    d.setNext d.tail none
  else
    let d := d.setPrevious (d.next a) (d.previous a)
    d.setNext (d.previous a) (d.next a)

/-- `remove` follows no null pointer: only the tail has no `next`, only the head no `previous`. -/
def Removable [DecidableEq ι] (d : DList ι) (a : ι) : Prop :=
  (some a ≠ d.tail → d.next a ≠ none) ∧ (some a ≠ d.head → d.previous a ≠ none)

instance [DecidableEq ι] (d : DList ι) (a : ι) : Decidable (d.Removable a) :=
  inferInstanceAs (Decidable (_ ∧ _))

/-! ### Segments -/

/-- `xs` is a chain of nodes whose first `previous` is `p`, whose last `next` is
`n`, and along which `previous` is the inverse of `next`. -/
def Seg (d : DList ι) : Option ι → List ι → Option ι → Prop
  | _, [], _ => True
  | p, a :: rest, n =>
    d.previous a = p ∧ d.next a = rest.head?.or n ∧ Seg d (some a) rest n

@[simp] theorem seg_nil {d : DList ι} {p n : Option ι} : Seg d p [] n ↔ True := Iff.rfl

@[simp] theorem seg_cons {d : DList ι} {p n : Option ι} {a : ι} {rest : List ι} :
    Seg d p (a :: rest) n ↔
      d.previous a = p ∧ d.next a = rest.head?.or n ∧ Seg d (some a) rest n := Iff.rfl

theorem seg_append {d : DList ι} {n : Option ι} {ys : List ι} :
    ∀ {xs : List ι} {p : Option ι}, Seg d p (xs ++ ys) n ↔
      Seg d p xs (ys.head?.or n) ∧ Seg d (xs.getLast?.or p) ys n
  | [], p => by simp
  | a :: rest, p => by
      have hlast : (a :: rest).getLast?.or p = rest.getLast?.or (some a) := by
        cases rest with
        | nil => simp
        | cons b tl => simp [List.getLast?_cons]
      have hhead : ((rest ++ ys).head?.or n) = rest.head?.or (ys.head?.or n) := by
        cases rest <;> simp
      rw [List.cons_append, seg_cons, seg_cons, seg_append, hlast, hhead]
      tauto

/-- A segment only reads the links of its own nodes. -/
theorem seg_congr {d e : DList ι} {n : Option ι} :
    ∀ {xs : List ι} {p : Option ι}, (∀ a ∈ xs, e.next a = d.next a) →
      (∀ a ∈ xs, e.previous a = d.previous a) → Seg d p xs n → Seg e p xs n
  | [], _, _, _, _ => trivial
  | a :: rest, p, hn, hp, h => by
      refine ⟨?_, ?_, ?_⟩
      · rw [hp a (by simp)]; exact h.1
      · rw [hn a (by simp)]; exact h.2.1
      · exact seg_congr (fun b hb => hn b (by simp [hb])) (fun b hb => hp b (by simp [hb])) h.2.2

/-- The nodes of the list, in order: distinct, from `head` to `tail`, the last
one with a null `next` and the first one with a null `previous`. -/
structure IsList (d : DList ι) (xs : List ι) : Prop where
  nodup : xs.Nodup
  head_eq : d.head = xs.head?
  tail_eq : d.tail = xs.getLast?
  seg : Seg d none xs none

theorem isList_empty : IsList (empty : DList ι) [] := ⟨List.nodup_nil, rfl, rfl, trivial⟩

/-- The pointers determine the sequence: two segments leaving the same node agree. -/
theorem seg_unique {d : DList ι} : ∀ {xs ys : List ι} {p q : Option ι},
    Seg d p xs none → Seg d q ys none → xs.head? = ys.head? → xs = ys
  | [], [], _, _, _, _, _ => rfl
  | [], _ :: _, _, _, _, _, h => by simp at h
  | _ :: _, [], _, _, _, _, h => by simp at h
  | a :: xs, b :: ys, p, q, hx, hy, h => by
      have hab : a = b := by simpa using h
      subst hab
      have hnext : xs.head? = ys.head? := by
        have h1 := hx.2.1
        have h2 := hy.2.1
        simp only [Option.or_none] at h1 h2
        rw [← h1, ← h2]
      rw [seg_unique hx.2.2 hy.2.2 hnext]

theorem IsList.unique {d : DList ι} {xs ys : List ι} (hx : IsList d xs) (hy : IsList d ys) :
    xs = ys :=
  seg_unique hx.seg hy.seg (hx.head_eq.symm.trans hy.head_eq)

/-- Clearing the links of a node that is not in the list leaves the list alone. -/
theorem IsList.unlink [DecidableEq ι] {d : DList ι} {xs : List ι} {a : ι} {v w : Option ι}
    (h : IsList d xs) (ha : a ∉ xs) :
    IsList ((d.setNext (some a) v).setPrevious (some a) w) xs := by
  refine ⟨h.nodup, h.head_eq, h.tail_eq, seg_congr ?_ ?_ h.seg⟩
  · intro b hb
    have hba : b ≠ a := fun e => ha (e ▸ hb)
    exact Function.update_of_ne hba _ _
  · intro b hb
    have hba : b ≠ a := fun e => ha (e ▸ hb)
    exact Function.update_of_ne hba _ _

theorem IsList.of_unlink [DecidableEq ι] {d : DList ι} {xs : List ι} {a : ι} {v w : Option ι}
    (h : IsList ((d.setNext (some a) v).setPrevious (some a) w) xs) (ha : a ∉ xs) : IsList d xs := by
  refine ⟨h.nodup, h.head_eq, h.tail_eq, seg_congr ?_ ?_ h.seg⟩
  · intro b hb
    have hba : b ≠ a := fun e => ha (e ▸ hb)
    exact (Function.update_of_ne hba _ _).symm
  · intro b hb
    have hba : b ≠ a := fun e => ha (e ▸ hb)
    exact (Function.update_of_ne hba _ _).symm

/-- A chain that starts like a segment leading to `a` passes `a`. -/
theorem seg_reaches {d e : DList ι} {a : ι} : ∀ {xs ws : List ι} {p q : Option ι},
    Seg d p xs (some a) → (∀ b ∈ xs, e.next b = d.next b) → Seg e q ws none →
      xs.head?.or (some a) = ws.head? → a ∈ ws
  | [], ws, _, _, _, _, _, hhead => List.mem_of_head? hhead.symm
  | b :: xs, ws, _, _, hs, hsame, hw, hhead => by
      obtain ⟨ws', rfl⟩ := List.head?_eq_some_iff.mp hhead.symm
      have hnext : xs.head?.or (some a) = ws'.head? := by
        have hb := hsame b (by simp)
        rw [hs.2.1, hw.2.1] at hb
        simpa using hb.symm
      have hsame' : ∀ c ∈ xs, e.next c = d.next c := fun c hc => hsame c (by simp [hc])
      exact List.mem_cons_of_mem _ (seg_reaches hs.2.2 hsame' hw.2.2 hnext)

/-- Clearing the links of a node that is in the list is not a way to take it out: the
list's head, or the node before it, still leads to it. -/
theorem IsList.not_unlink [DecidableEq ι] {d : DList ι} {xs ys : List ι} {a : ι} (h : IsList d xs)
    (ha : a ∈ xs) (hys : a ∉ ys) :
    ¬ IsList ((d.setNext (some a) none).setPrevious (some a) none) ys := by
  intro hu
  obtain ⟨front, rest, rfl⟩ := List.append_of_mem ha
  have hfront : a ∉ front := by
    intro hm
    have hnd := h.nodup
    rw [List.nodup_append] at hnd
    exact hnd.2.2 a hm a (by simp) rfl
  have hhead : front.head?.or (some a) = ys.head? := by
    rw [← hu.head_eq]
    refine Eq.trans ?_ h.head_eq.symm
    cases front <;> rfl
  refine hys (seg_reaches ((seg_append.mp h.seg).1) (fun b hb => ?_) hu.seg hhead)
  have hba : b ≠ a := fun e => hfront (e ▸ hb)
  exact Function.update_of_ne hba _ _

/-! ### Linking at the tail -/

theorem IsList.pushBack [DecidableEq ι] {d : DList ι} {xs : List ι} {a : ι} (h : IsList d xs) (ha : a ∉ xs) :
    IsList (d.pushBack a) (xs ++ [a]) := by
  rcases List.eq_nil_or_concat xs with rfl | ⟨front, t, rfl⟩
  · have ht : d.tail = none := h.tail_eq
    refine ⟨by simp, ?_, ?_, ?_⟩ <;> simp [DList.pushBack, ht, setNext, setPrevious]
  · rw [List.concat_eq_append] at h ha ⊢
    have ht : d.tail = some t := by rw [h.tail_eq]; simp
    have hat : a ≠ t := fun e => ha (by simp [e])
    have haf : a ∉ front := fun e => ha (by simp [e])
    have htf : t ∉ front := by
      intro e
      have := h.nodup
      rw [List.nodup_append] at this
      exact this.2.2 t e t (by simp) rfl
    have hseg := seg_append.mp h.seg
    refine ⟨?_, ?_, ?_, ?_⟩
    · rw [List.nodup_append]
      refine ⟨h.nodup, List.nodup_singleton a, ?_⟩
      intro b hb c hc hbc
      rw [List.mem_singleton] at hc
      exact ha (hc ▸ hbc ▸ hb)
    · simp only [DList.pushBack, ht, setNext, setPrevious]
      rw [h.head_eq]
      cases front <;> simp
    · simp [DList.pushBack, ht, setNext, setPrevious]
    · rw [seg_append, seg_append]
      refine ⟨⟨?_, ?_⟩, ?_⟩
      · refine seg_congr (d := d) ?_ ?_ (by simpa using hseg.1)
        · intro b hb
          have hbt : b ≠ t := fun e => htf (e ▸ hb)
          have hba : b ≠ a := fun e => haf (e ▸ hb)
          simp [DList.pushBack, ht, setNext, setPrevious, hbt, hba]
        · intro b hb
          have hba : b ≠ a := fun e => haf (e ▸ hb)
          simp [DList.pushBack, ht, setNext, setPrevious, hba]
      · simp only [seg_cons, seg_nil, and_true]
        refine ⟨?_, ?_⟩
        · simpa [DList.pushBack, ht, setNext, setPrevious, Function.update_apply, hat.symm]
            using hseg.2.1
        · simp [DList.pushBack, ht, setNext, setPrevious, hat.symm]
      · simp [DList.pushBack, ht, setNext, setPrevious]

/-! ### Unlinking -/

theorem not_mem_of_nodup_mid {xs ys : List ι} {a : ι} (h : (xs ++ a :: ys).Nodup) :
    a ∉ xs ∧ a ∉ ys ∧ (xs ++ ys).Nodup := by
  have hp : (a :: (xs ++ ys)).Nodup := (List.perm_middle.nodup_iff).mp h
  rw [List.nodup_cons] at hp
  simp only [List.mem_append, not_or] at hp
  exact ⟨hp.1.1, hp.1.2, hp.2⟩

/-- Unlinking the first node: it becomes a list starting at the second one. -/
theorem IsList.remove_head [DecidableEq ι] {d : DList ι} {a : ι} {ys : List ι} (h : IsList d (a :: ys)) :
    IsList (d.remove a) ys := by
  have hh : d.head = some a := h.head_eq
  have ha : a ∉ ys := (List.nodup_cons.mp h.nodup).1
  have hnext : d.next a = ys.head? := by simpa using h.seg.2.1
  cases ys with
  | nil =>
      have ht : d.tail = some a := h.tail_eq
      refine ⟨List.nodup_nil, ?_, ?_, trivial⟩ <;> simp [DList.remove, hh, ht]
  | cons b rest =>
      have hab : a ≠ b := fun e => ha (by simp [e])
      have ht : d.tail ≠ some a := by
        rw [h.tail_eq, List.getLast?_cons_cons]
        intro hc
        exact ha (List.mem_of_getLast? hc)
      have hnb : d.next a = some b := by simpa using hnext
      have hr : d.remove a = { d with head := some b, previous := Function.update d.previous b none } := by
        simp [DList.remove, hh, Ne.symm ht, hnb, setPrevious]
      have hseg := h.seg.2.2
      rw [hr]
      refine ⟨(List.nodup_cons.mp h.nodup).2, rfl, ?_, ?_⟩
      · simpa [List.getLast?_cons_cons] using h.tail_eq
      · refine ⟨by simp, hseg.2.1, ?_⟩
        refine seg_congr (d := d) (fun _ _ => rfl) ?_ hseg.2.2
        intro c hc
        have hcb : c ≠ b := by
          rintro rfl
          exact (List.nodup_cons.mp (List.nodup_cons.mp h.nodup).2).1 hc
        simp [hcb]

/-- Unlinking the last node of a longer list. -/
theorem IsList.remove_tail [DecidableEq ι] {d : DList ι} {a t : ι} {front : List ι}
    (h : IsList d (front ++ [t] ++ [a])) : IsList (d.remove a) (front ++ [t]) := by
  have hnd := h.nodup
  have ha := not_mem_of_nodup_mid (show ((front ++ [t]) ++ a :: []).Nodup by simpa using hnd)
  have hat : a ≠ t := fun e => ha.1 (by simp [e])
  have htf : t ∉ front := by
    have hft := ha.2.2
    rw [List.append_nil, List.nodup_append] at hft
    intro hmem
    exact hft.2.2 t hmem t (by simp) rfl
  have hh : d.head ≠ some a := by
    rw [h.head_eq]
    cases front with
    | nil => simpa using hat.symm
    | cons b rest => simpa using fun e : b = a => ha.1 (by simp [e])
  have ht : d.tail = some a := by rw [h.tail_eq]; simp
  have hseg := seg_append.mp h.seg
  have hprev : d.previous a = some t := by simpa using hseg.2.1
  have hr : d.remove a = { d with tail := some t, next := Function.update d.next t none } := by
    simp [DList.remove, Ne.symm hh, ht, hprev, setNext]
  have hseg' := seg_append.mp hseg.1
  rw [hr]
  refine ⟨?_, ?_, by simp, ?_⟩
  · simpa using ha.2.2
  · rw [h.head_eq]
    cases front <;> simp
  · rw [seg_append]
    refine ⟨seg_congr (d := d) ?_ (fun _ _ => rfl) (by simpa using hseg'.1), ?_⟩
    · intro b hb
      have hbt : b ≠ t := by
        rintro rfl
        exact htf hb
      simp [hbt]
    · simpa using hseg'.2.1

/-- Unlinking a node with neighbours on both sides. -/
theorem IsList.remove_inner [DecidableEq ι] {d : DList ι} {a t b : ι} {front rest : List ι}
    (h : IsList d (front ++ [t] ++ a :: b :: rest)) :
    IsList (d.remove a) (front ++ [t] ++ b :: rest) := by
  have ha := not_mem_of_nodup_mid h.nodup
  have hat : a ≠ t := fun e => ha.1 (by simp [e])
  have hab : a ≠ b := fun e => ha.2.1 (by simp [e])
  have hh : d.head ≠ some a := by
    rw [h.head_eq]
    cases front with
    | nil => simpa using hat.symm
    | cons c cs => simpa using fun e : c = a => ha.1 (by simp [e])
  have ht : d.tail ≠ some a := by
    rw [h.tail_eq, List.getLast?_append]
    simp only [List.getLast?_cons_cons]
    intro hc
    cases hl : (b :: rest).getLast? with
    | none => simp at hl
    | some z =>
        rw [hl] at hc
        have hza : z = a := by simpa using hc
        exact ha.2.1 (hza ▸ List.mem_of_getLast? hl)
  have hseg := seg_append.mp h.seg
  have hprev : d.previous a = some t := by simpa using hseg.2.1
  have hnext : d.next a = some b := by simpa using hseg.2.2.1
  have hr : d.remove a = { d with
      previous := Function.update d.previous b (some t),
      next := Function.update d.next t (some b) } := by
    have hba : b ≠ a := hab.symm
    simp [DList.remove, Ne.symm hh, Ne.symm ht, hprev, hnext, setNext, setPrevious,
      Function.update_of_ne hab]
  have hnd := ha.2.2
  have hdisj := List.nodup_append.mp hnd
  have hbfront : b ∉ front ++ [t] := fun hb => hdisj.2.2 b hb b (by simp) rfl
  have htrest : t ∉ b :: rest := fun hb => hdisj.2.2 t (by simp) t hb rfl
  have htf : t ∉ front := fun hmem => (List.nodup_append.mp hdisj.1).2.2 t hmem t (by simp) rfl
  have hbrest : b ∉ rest := (List.nodup_cons.mp hdisj.2.1).1
  -- two links are written; every other node keeps both of its own
  have hfront := seg_append.mp hseg.1
  rw [hr]
  refine ⟨hnd, ?_, ?_, ?_⟩
  · rw [h.head_eq]
    cases front <;> simp
  · rw [h.tail_eq, List.getLast?_append, List.getLast?_cons_cons, ← List.getLast?_append]
  · rw [seg_append, seg_append]
    refine ⟨⟨seg_congr (d := d) ?_ ?_ (by simpa using hfront.1), ?_⟩, ?_⟩
    · intro c hc
      have hct : c ≠ t := by rintro rfl; exact htf hc
      simp [hct]
    · intro c hc
      have hcb : c ≠ b := by rintro rfl; exact hbfront (by simp [hc])
      simp [hcb]
    · have htb : t ≠ b := fun e => htrest (by simp [e])
      simpa [Function.update_apply, htb] using hfront.2.1
    · refine ⟨by simp, ?_, seg_congr (d := d) ?_ ?_ hseg.2.2.2.2.2⟩
      · have hbt : b ≠ t := fun e => htrest (by simp [e])
        simpa [Function.update_apply, hbt] using hseg.2.2.2.2.1
      · intro c hc
        have hct : c ≠ t := by rintro rfl; exact htrest (by simp [hc])
        simp [hct]
      · intro c hc
        have hcb : c ≠ b := by rintro rfl; exact hbrest hc
        simp [hcb]

/-- **Unlinking a listed node** deletes exactly that node from the sequence. -/
theorem IsList.remove [DecidableEq ι] {d : DList ι} {xs ys : List ι} {a : ι} (h : IsList d (xs ++ a :: ys)) :
    IsList (d.remove a) (xs ++ ys) := by
  rcases List.eq_nil_or_concat xs with rfl | ⟨front, t, rfl⟩
  · exact h.remove_head
  · rw [List.concat_eq_append] at h ⊢
    cases ys with
    | nil => simpa using IsList.remove_tail (by simpa using h)
    | cons b rest => exact h.remove_inner

/-- Unlinking a listed node does not touch its own `next` field, so a traversal
may unlink the node it stands on and go on from there. -/
theorem IsList.remove_next_self [DecidableEq ι] {d : DList ι} {xs ys : List ι} {a : ι}
    (h : IsList d (xs ++ a :: ys)) : (d.remove a).next a = ys.head? := by
  have ha := not_mem_of_nodup_mid h.nodup
  have hseg := seg_append.mp h.seg
  have hnext : d.next a = ys.head? := by simpa using hseg.2.2.1
  have hprev : d.previous a = xs.getLast? := by simpa using hseg.2.1
  have hpa : d.previous a ≠ some a := by
    rw [hprev]
    exact fun e => ha.1 (List.mem_of_getLast? e)
  have hset : ∀ (e : DList ι) (v : Option ι), e.next a = d.next a →
      ((e.setNext (d.previous a) v).next a = d.next a) := by
    intro e v he
    cases hp : d.previous a with
    | none => exact he
    | some t =>
        have hat : a ≠ t := fun hc => hpa (by rw [hp, hc])
        simpa [setNext, Function.update_apply, hat] using he
  have hsp : ∀ (e : DList ι) (p v : Option ι), (e.setPrevious p v).next = e.next := by
    intro e p v
    cases p <;> rfl
  rw [← hnext]
  unfold DList.remove
  split
  · split
    · rfl
    · simp only [hsp]
  · split
    · exact hset _ _ rfl
    · have hpp : (d.setPrevious (d.next a) (d.previous a)).previous a = d.previous a := by
        cases hn : d.next a with
        | none => rfl
        | some b =>
            have hba : a ≠ b := by
              rintro rfl
              rw [hnext] at hn
              exact ha.2.1 (List.mem_of_mem_head? (by simp [hn]))
            simp [setPrevious, hba]
      simp only [hpp]
      refine hset _ _ ?_
      rw [hsp]

/-- Unlinking a listed node follows no null pointer. -/
theorem IsList.removable [DecidableEq ι] {d : DList ι} {xs ys : List ι} {a : ι}
    (h : IsList d (xs ++ a :: ys)) : d.Removable a := by
  have hseg := (seg_append.mp h.seg).2
  have hnext : d.next a = ys.head? := by simpa using hseg.2.1
  have hprev : d.previous a = xs.getLast? := by simpa using hseg.1
  constructor
  · intro htail hnone
    rw [hnext, List.head?_eq_none_iff] at hnone
    subst hnone
    exact htail (by simpa using h.tail_eq.symm)
  · intro hhead hnone
    rw [hprev, List.getLast?_eq_none_iff] at hnone
    subst hnone
    exact hhead h.head_eq.symm

/-- The links of the nodes of a segment are determined by it. -/
theorem seg_links {d e : DList ι} {n : Option ι} : ∀ {xs : List ι} {p : Option ι},
    Seg d p xs n → Seg e p xs n → ∀ b ∈ xs, e.next b = d.next b ∧ e.previous b = d.previous b
  | [], _, _, _, b, hb => absurd hb (by simp)
  | a :: rest, p, hd, he, b, hb => by
      rcases List.mem_cons.mp hb with rfl | hb
      · exact ⟨he.2.1.trans hd.2.1.symm, he.1.trans hd.1.symm⟩
      · exact seg_links hd.2.2 he.2.2 b hb

/-- **Unlinking a node that is not listed** writes to the two neighbours it remembers. The list
stays what it is exactly when these are out of it as well or next to each other in it. -/
theorem IsList.remove_unlisted_iff [DecidableEq ι] {d : DList ι} {xs : List ι} {a x y : ι}
    (h : IsList d xs) (ha : a ∉ xs) (hprev : d.previous a = some x) (hnext : d.next a = some y) :
    IsList (d.remove a) xs ↔ (x ∈ xs → d.next x = some y) ∧ (y ∈ xs → d.previous y = some x) := by
  have hh : some a ≠ d.head := fun he => ha (List.mem_of_head? (h.head_eq.symm.trans he.symm))
  have ht : some a ≠ d.tail := fun he => ha (List.mem_of_getLast? (h.tail_eq.symm.trans he.symm))
  have hr : d.remove a =
      { d with
        previous := Function.update d.previous y (some x)
        next := Function.update d.next x (some y) } := by
    have hsame : Function.update d.previous y (some x) a = some x := by
      rw [Function.update_apply]
      split
      · rfl
      · exact hprev
    simp [DList.remove, hh, ht, hprev, hnext, setPrevious, setNext, hsame]
  rw [hr]
  constructor
  · intro hl
    have hsame := seg_links h.seg hl.seg
    constructor
    · intro hx
      rw [← (hsame x hx).1]
      exact Function.update_self _ _ _
    · intro hy
      rw [← (hsame y hy).2]
      exact Function.update_self _ _ _
  · rintro ⟨hx, hy⟩
    refine ⟨h.nodup, h.head_eq, h.tail_eq, seg_congr (fun b hb => ?_) (fun b hb => ?_) h.seg⟩
    · dsimp only
      rw [Function.update_apply]
      split
      · rename_i heq
        subst heq
        exact (hx hb).symm
      · rfl
    · dsimp only
      rw [Function.update_apply]
      split
      · rename_i heq
        subst heq
        exact (hy hb).symm
      · rfl

/-! ### Histories of operations

A history lists the operations applied to a list, the latest first. It is *legal*
when no element was linked twice and none was removed that was not linked. -/

/-- An operation on the list. -/
inductive Op (ι : Type)
  | pushBack (a : ι)
  | remove (a : ι)
  deriving DecidableEq, Repr

/-- The sequence a history leads to. -/
def replay [DecidableEq ι] : List (Op ι) → List ι
  | [] => []
  | .pushBack a :: ops => replay ops ++ [a]
  | .remove a :: ops => (replay ops).erase a

/-- Every operation of the history was applied to a list that allowed it. -/
def Legal [DecidableEq ι] : List (Op ι) → Prop
  | [] => True
  | .pushBack a :: ops => a ∉ replay ops ∧ Legal ops
  | .remove a :: ops => a ∈ replay ops ∧ Legal ops

/-- Removing from the middle, as `List.erase`. -/
theorem erase_mid [DecidableEq ι] {xs ys : List ι} {a : ι} (h : a ∉ xs) :
    (xs ++ a :: ys).erase a = xs ++ ys := by
  rw [List.erase_append_right _ h, List.erase_cons_head]

theorem IsList.erase [DecidableEq ι] {d : DList ι} {xs : List ι} {a : ι} (h : IsList d xs)
    (ha : a ∈ xs) : IsList (d.remove a) (xs.erase a) := by
  obtain ⟨ys, zs, rfl⟩ := List.append_of_mem ha
  rw [erase_mid (not_mem_of_nodup_mid h.nodup).1]
  exact h.remove

instance decidableLegal [DecidableEq ι] : (ops : List (Op ι)) → Decidable (Legal ops)
  | [] => isTrue trivial
  | .pushBack a :: ops =>
    have := decidableLegal ops
    inferInstanceAs (Decidable (a ∉ replay ops ∧ Legal ops))
  | .remove a :: ops =>
    have := decidableLegal ops
    inferInstanceAs (Decidable (a ∈ replay ops ∧ Legal ops))

end DList
