import Mathlib.Data.List.Basic
import Mathlib.Data.List.TakeWhile

/-!
# Brtos.Lib.Words

**Words between separators**, found in place: `starts` is where the words of a text begin, and
`cut` the text after the separator behind each word has been overwritten. Both read the text
once from the left and know of what they have read only whether it ended inside a word.

A text is best taken apart as separators, one word and the rest (`split`); `starts` and `cut`
follow that (`Split.starts_cons`, `Split.cut_eq`). `left` and `endsCut` say which separators `cut`
does not overwrite.
-/

namespace Words

variable {α : Type*} (sep : α → Bool) (blank : α)

/-- Overwrite each separator that ends a word. -/
def cut : Bool → List α → List α
  | _, [] => []
  | inWord, x :: xs =>
    if sep x then (if inWord then blank else x) :: cut false xs else x :: cut true xs

/-- Where the words begin; the text begins at `p`. -/
def starts : Bool → Nat → List α → List Nat
  | _, _, [] => []
  | inWord, p, x :: xs =>
    if sep x then starts false (p + 1) xs
    else if inWord then starts true (p + 1) xs
    else p :: starts true (p + 1) xs

/-- The separators that `cut` leaves. -/
def left : Bool → List α → List α
  | _, [] => []
  | inWord, x :: xs =>
    if sep x then (if inWord then left false xs else x :: left false xs) else left true xs

/-- The text ends with a separator that `cut` overwrites. -/
def endsCut : Bool → List α → Bool
  | _, [] => false
  | inWord, [x] => inWord && sep x
  | _, x :: y :: xs => endsCut (!sep x) (y :: xs)

/-- The first word. -/
def first (xs : List α) : List α := (xs.dropWhile sep).takeWhile fun x => !sep x

/-- The number of words. -/
def count (xs : List α) : Nat := (starts sep false 0 xs).length

variable {sep blank} {s w xs ys : List α} {p q : Nat} {x : α} {b : Bool}

@[simp] theorem length_cut : (cut sep blank b xs).length = xs.length := by
  induction xs generalizing b with
  | nil => rfl
  | cons x xs ih =>
      rw [cut]
      split <;> simp [ih]

theorem starts_seps (hs : ∀ x ∈ s, sep x = true) :
    starts sep false p (s ++ xs) = starts sep false (p + s.length) xs := by
  induction s generalizing p with
  | nil => rfl
  | cons x s ih =>
      rw [List.cons_append, starts, if_pos (hs x List.mem_cons_self),
        ih fun y hy => hs y (List.mem_cons_of_mem x hy), List.length_cons]
      congr 1
      omega

theorem cut_seps (hs : ∀ x ∈ s, sep x = true) :
    cut sep blank false (s ++ xs) = s ++ cut sep blank false xs := by
  induction s with
  | nil => rfl
  | cons x s ih =>
      rw [List.cons_append, cut, if_pos (hs x List.mem_cons_self),
        ih fun y hy => hs y (List.mem_cons_of_mem x hy)]
      rfl

theorem starts_inWord (hw : ∀ x ∈ w, sep x = false) :
    starts sep true p (w ++ xs) = starts sep true (p + w.length) xs := by
  induction w generalizing p with
  | nil => rfl
  | cons x w ih =>
      rw [List.cons_append, starts, if_neg (Bool.eq_false_iff.mp (hw x List.mem_cons_self)),
        if_pos rfl, ih fun y hy => hw y (List.mem_cons_of_mem x hy), List.length_cons]
      congr 1
      omega

theorem cut_inWord (hw : ∀ x ∈ w, sep x = false) :
    cut sep blank true (w ++ xs) = w ++ cut sep blank true xs := by
  induction w with
  | nil => rfl
  | cons x w ih =>
      rw [List.cons_append, cut, if_neg (Bool.eq_false_iff.mp (hw x List.mem_cons_self)),
        ih fun y hy => hw y (List.mem_cons_of_mem x hy)]
      rfl

theorem starts_word (hne : w ≠ []) (hw : ∀ x ∈ w, sep x = false) :
    starts sep false p (w ++ xs) = p :: starts sep true (p + w.length) xs := by
  obtain ⟨x, w, rfl⟩ := List.exists_cons_of_ne_nil hne
  rw [List.cons_append, starts, if_neg (Bool.eq_false_iff.mp (hw x List.mem_cons_self)),
    if_neg Bool.false_ne_true, starts_inWord fun y hy => hw y (List.mem_cons_of_mem x hy),
    List.length_cons]
  congr 2
  omega

theorem cut_word (hne : w ≠ []) (hw : ∀ x ∈ w, sep x = false) :
    cut sep blank false (w ++ xs) = w ++ cut sep blank true xs := by
  obtain ⟨x, w, rfl⟩ := List.exists_cons_of_ne_nil hne
  rw [List.cons_append, cut, if_neg (Bool.eq_false_iff.mp (hw x List.mem_cons_self)),
    cut_inWord fun y hy => hw y (List.mem_cons_of_mem x hy)]
  rfl

/-- Separators, a word, and what is behind it: a separator, or nothing. -/
structure Split (sep : α → Bool) (xs s w ys : List α) : Prop where
  eq : xs = s ++ (w ++ ys)
  seps : ∀ x ∈ s, sep x = true
  word : ∀ x ∈ w, sep x = false
  behind : ∀ y ∈ ys.head?, w ≠ [] ∧ sep y = true

theorem split (sep : α → Bool) (xs : List α) :
    Split sep xs (xs.takeWhile sep) (first sep xs)
      ((xs.dropWhile sep).dropWhile fun x => !sep x) where
  eq := by rw [first, List.takeWhile_append_dropWhile, List.takeWhile_append_dropWhile]
  seps x hx := List.mem_takeWhile_imp hx
  word x hx := by simpa using List.mem_takeWhile_imp hx
  behind := by
    intro y hy
    have hsep : sep y = true := by
      have hstop := List.head?_dropWhile_not (fun x => !sep x) (xs.dropWhile sep)
      rw [Option.mem_def.mp hy] at hstop
      simpa using hstop
    refine ⟨?_, hsep⟩
    -- what is left behind the separators begins with a word
    have hfirst := List.head?_dropWhile_not sep xs
    cases hrest : xs.dropWhile sep with
    | nil => simp [hrest] at hy
    | cons z zs =>
        rw [hrest] at hfirst
        have hz : sep z = false := by simpa using hfirst
        simp [first, hrest, hz]

namespace Split

theorem nil (h : Split sep xs s w ys) (hw : w = []) : ys = [] := by
  cases ys with
  | nil => rfl
  | cons y ys => exact absurd hw (h.behind y rfl).1

theorem eq_seps (h : Split sep xs s w ys) (hw : w = []) : xs = s := by
  rw [h.eq, hw, h.nil hw, List.append_nil, List.append_nil]

theorem starts_nil (h : Split sep xs s w ys) (hw : w = []) : starts sep false p xs = [] := by
  have hs : starts sep false p (s ++ []) = [] := starts_seps h.seps
  rwa [List.append_nil, ← h.eq_seps hw] at hs

theorem cut_nil (h : Split sep xs s w ys) (hw : w = []) : cut sep blank false xs = xs := by
  have hs : cut sep blank false (s ++ []) = s ++ [] := cut_seps h.seps
  rwa [List.append_nil, ← h.eq_seps hw] at hs

theorem starts_cons (h : Split sep xs s w ys) (hw : w ≠ []) : starts sep false p xs =
    (p + s.length) :: starts sep true (p + s.length + w.length) ys := by
  rw [h.eq, starts_seps h.seps, starts_word hw h.word]

theorem cut_eq (h : Split sep xs s w ys) (hw : w ≠ []) :
    cut sep blank false xs = s ++ (w ++ cut sep blank true ys) := by
  rw [h.eq, cut_seps h.seps, cut_word hw h.word]

end Split

end Words
