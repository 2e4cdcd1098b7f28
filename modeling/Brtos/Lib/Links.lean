import Mathlib.Data.List.Chain
import Mathlib.Data.List.Nodup
import Mathlib.Tactic.Common

/-!
# Brtos.Lib.Links

**Doubly linked lists whose two ends are nodes.** A node's `next` and `prev` are fields of
whatever memory it lies in; `Links next prev xs` says that they lead along the list `xs` and
back. The first and the last node of `xs` are part of it, so that taking a node out
(`Links.unlink`) and putting one in (`Links.link`) are each one case, whatever the position.

The edits are stated for the fields after them, by the two places that changed and the others
that did not; what the memory is made of does not matter.
-/

variable {ι : Type*}

/-- Each node of the list leads to the one behind it and back. -/
def Links (next prev : ι → ι) (xs : List ι) : Prop := xs.IsChain fun a b => next a = b ∧ prev b = a

namespace Links

variable {next prev next' prev' : ι → ι} {xs ys : List ι} {a b c : ι}

theorem mid_iff : Links next prev (xs ++ a :: b :: ys) ↔
    Links next prev (xs ++ [a]) ∧ (next a = b ∧ prev b = a) ∧ Links next prev (b :: ys) :=
  List.isChain_append_cons_cons

theorem pair_iff : Links next prev [a, b] ↔ next a = b ∧ prev b = a := List.isChain_pair

/-- Only the links along the list matter: those from all but the last node, and those back from
all but the first. -/
theorem congr (h : Links next prev xs) (hn : ∀ x ∈ xs.dropLast, next' x = next x)
    (hp : ∀ x ∈ xs.tail, prev' x = prev x) : Links next' prev' xs := by
  induction xs with
  | nil => exact .nil
  | cons a ys ih =>
      cases ys with
      | nil => exact .singleton _
      | cons b ys =>
          obtain ⟨hab, hrest⟩ := List.isChain_cons_cons.mp h
          refine List.isChain_cons_cons.mpr ⟨⟨?_, ?_⟩, ih hrest ?_ ?_⟩
          · rw [hn a (by simp), hab.1]
          · rw [hp b (by simp), hab.2]
          · intro x hx
            exact hn x (by simp [hx])
          · intro x hx
            exact hp x (by simpa using Or.inr hx)

/-- The node between `a` and `b` is taken out. -/
theorem unlink (h : Links next prev (xs ++ a :: c :: b :: ys))
    (hnd : (xs ++ a :: c :: b :: ys).Nodup) (ha : next' a = b) (hb : prev' b = a)
    (hn : ∀ x, x ≠ a → x ≠ c → next' x = next x) (hp : ∀ x, x ≠ b → x ≠ c → prev' x = prev x) :
    Links next' prev' (xs ++ a :: b :: ys) := by
  obtain ⟨hpre, -, hrest⟩ := mid_iff.mp h
  obtain ⟨-, hpost⟩ := List.isChain_cons_cons.mp hrest
  simp only [List.nodup_append, List.nodup_cons, List.mem_cons, not_or] at hnd
  obtain ⟨-, ⟨⟨hac, hab, ha'⟩, ⟨hcb, hc'⟩, hb', -⟩, hdisj⟩ := hnd
  have hxa : ∀ x ∈ xs, x ≠ a := fun x hx => hdisj x hx a (Or.inl rfl)
  have hxc : ∀ x ∈ xs, x ≠ c := fun x hx => hdisj x hx c (Or.inr (Or.inl rfl))
  have hxb : ∀ x ∈ xs, x ≠ b := fun x hx => hdisj x hx b (Or.inr (Or.inr (Or.inl rfl)))
  refine mid_iff.mpr ⟨congr hpre ?_ ?_, ⟨ha, hb⟩, congr hpost ?_ ?_⟩
  · intro x hx
    rw [List.dropLast_concat] at hx
    exact hn x (hxa x hx) (hxc x hx)
  · intro x hx
    have hx' := List.mem_of_mem_tail hx
    rw [List.mem_append, List.mem_singleton] at hx'
    rcases hx' with hx' | rfl
    · exact hp x (hxb x hx') (hxc x hx')
    · exact hp x hab hac
  · intro x hx
    have hx' := List.dropLast_subset _ hx
    rw [List.mem_cons] at hx'
    rcases hx' with rfl | hx'
    · exact hn x (Ne.symm hab) (Ne.symm hcb)
    · exact hn x (fun e => ha' (e ▸ hx')) (fun e => hc' (e ▸ hx'))
  · intro x hx
    exact hp x (fun e => hb' (e ▸ hx)) (fun e => hc' (e ▸ hx))

/-- `c`, which is no node of the list, is put between `a` and `b`. -/
theorem link (h : Links next prev (xs ++ a :: b :: ys)) (hnd : (xs ++ a :: b :: ys).Nodup)
    (hc : c ∉ xs ++ a :: b :: ys) (ha : next' a = c) (hca : prev' c = a) (hcb : next' c = b)
    (hb : prev' b = c) (hn : ∀ x, x ≠ a → x ≠ c → next' x = next x)
    (hp : ∀ x, x ≠ b → x ≠ c → prev' x = prev x) : Links next' prev' (xs ++ a :: c :: b :: ys) := by
  obtain ⟨hpre, -, hpost⟩ := mid_iff.mp h
  simp only [List.nodup_append, List.nodup_cons, List.mem_cons, not_or] at hnd
  obtain ⟨-, ⟨⟨hab, ha'⟩, hb', -⟩, hdisj⟩ := hnd
  simp only [List.mem_append, List.mem_cons, not_or] at hc
  obtain ⟨hcx, hac, hbc, hcy⟩ := hc
  have hxa : ∀ x ∈ xs, x ≠ a := fun x hx => hdisj x hx a (Or.inl rfl)
  have hxb : ∀ x ∈ xs, x ≠ b := fun x hx => hdisj x hx b (Or.inr (Or.inl rfl))
  have hxc : ∀ x ∈ xs, x ≠ c := fun x hx e => hcx (e ▸ hx)
  have hyc : ∀ x ∈ ys, x ≠ c := fun x hx e => hcy (e ▸ hx)
  refine mid_iff.mpr ⟨congr hpre ?_ ?_, ⟨ha, hca⟩, List.isChain_cons_cons.mpr
    ⟨⟨hcb, hb⟩, congr hpost ?_ ?_⟩⟩
  · intro x hx
    rw [List.dropLast_concat] at hx
    exact hn x (hxa x hx) (hxc x hx)
  · intro x hx
    have hx' := List.mem_of_mem_tail hx
    rw [List.mem_append, List.mem_singleton] at hx'
    rcases hx' with hx' | rfl
    · exact hp x (hxb x hx') (hxc x hx')
    · exact hp x hab (Ne.symm hac)
  · intro x hx
    have hx' := List.dropLast_subset _ hx
    rw [List.mem_cons] at hx'
    rcases hx' with rfl | hx'
    · exact hn x (Ne.symm hab) (Ne.symm hbc)
    · exact hn x (fun e => ha' (e ▸ hx')) (hyc x hx')
  · intro x hx
    exact hp x (fun e => hb' (e ▸ hx)) (hyc x hx)

/-- The last node is exchanged for `c`. -/
theorem replaceLast (h : Links next prev (xs ++ [a, b])) (hnd : (xs ++ [a, b]).Nodup)
    (hc : c ∉ xs ++ [a]) (ha : next' a = c) (hca : prev' c = a)
    (hn : ∀ x, x ≠ a → x ≠ b → x ≠ c → next' x = next x)
    (hp : ∀ x, x ≠ b → x ≠ c → prev' x = prev x) : Links next' prev' (xs ++ [a, c]) := by
  obtain ⟨hpre, -, -⟩ := mid_iff.mp h
  simp only [List.nodup_append, List.nodup_cons, List.mem_cons, not_or] at hnd
  obtain ⟨-, ⟨⟨hab, -⟩, -⟩, hdisj⟩ := hnd
  simp only [List.mem_append, List.mem_singleton, not_or] at hc
  have hxb : ∀ x ∈ xs, x ≠ b := fun x hx => hdisj x hx b (Or.inr (Or.inl rfl))
  have hxc : ∀ x ∈ xs, x ≠ c := fun x hx e => hc.1 (e ▸ hx)
  refine mid_iff.mpr ⟨congr hpre ?_ ?_, ⟨ha, hca⟩, .singleton _⟩
  · intro x hx
    rw [List.dropLast_concat] at hx
    exact hn x (hdisj x hx a (Or.inl rfl)) (hxb x hx) (hxc x hx)
  · intro x hx
    have hx' := List.mem_of_mem_tail hx
    rw [List.mem_append, List.mem_singleton] at hx'
    rcases hx' with hx' | rfl
    · exact hp x (hxb x hx') (hxc x hx')
    · exact hp x hab (Ne.symm hc.2)

/-! ### Lists between two nodes that stay -/

section Ends

variable {zs : List ι} {s t : ι}

/-- A node between `s` and `t` has two neighbours, and without it they are neighbours. -/
theorem exists_neighbours [DecidableEq ι] (hc : c ∈ zs) (hnd : zs.Nodup) :
    ∃ xs a b ys, s :: (zs ++ [t]) = xs ++ a :: c :: b :: ys ∧
      s :: (zs.erase c ++ [t]) = xs ++ a :: b :: ys := by
  obtain ⟨us, vs, rfl⟩ := List.append_of_mem hc
  have hcu : c ∉ us := by
    rw [List.nodup_append] at hnd
    exact fun h => hnd.2.2 c h c List.mem_cons_self rfl
  have herase : (us ++ c :: vs).erase c = us ++ vs := by
    rw [List.erase_append_right _ hcu, List.erase_cons_head]
  obtain ⟨xs, a, hxa⟩ : ∃ xs a, s :: us = xs ++ [a] :=
    ⟨(s :: us).dropLast, (s :: us).getLast (by simp), (List.dropLast_append_getLast _).symm⟩
  obtain ⟨b, ys, hby⟩ : ∃ b ys, vs ++ [t] = b :: ys := by
    cases vs with
    | nil => exact ⟨t, [], rfl⟩
    | cons v vs => exact ⟨v, vs ++ [t], rfl⟩
  refine ⟨xs, a, b, ys, ?_, ?_⟩
  · calc s :: ((us ++ c :: vs) ++ [t]) = (s :: us) ++ c :: (vs ++ [t]) := by simp
      _ = xs ++ a :: c :: b :: ys := by rw [hxa, hby]; simp
  · calc s :: ((us ++ c :: vs).erase c ++ [t]) = (s :: us) ++ (vs ++ [t]) := by rw [herase]; simp
      _ = xs ++ a :: b :: ys := by rw [hxa, hby]; simp

/-- The node before the last one, whatever that is. -/
theorem exists_last (s : ι) (zs : List ι) : ∃ xs a, ∀ t, s :: (zs ++ [t]) = xs ++ [a, t] := by
  have hxa : s :: zs = (s :: zs).dropLast ++ [(s :: zs).getLast (by simp)] :=
    (List.dropLast_append_getLast _).symm
  refine ⟨(s :: zs).dropLast, (s :: zs).getLast (by simp), fun t => ?_⟩
  calc s :: (zs ++ [t]) = (s :: zs) ++ [t] := rfl
    _ = (s :: zs).dropLast ++ [(s :: zs).getLast (by simp), t] := by
      nth_rewrite 1 [hxa]
      simp

end Ends

end Links
