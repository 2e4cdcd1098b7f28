import Brtos.Terminal.Tokens

/-!
# Brtos.Terminal.History

**The copy of the last line.** After a command has been called the words of its line end in
NULs; the loop that copies the line to `last_term_in` shows these as spaces and stops at two
NULs (`copyLast_eq`). What is in `last_term_in` afterwards is a line again, of `cpi`
characters (`execute_remembers`).
-/

namespace Brtos

open Logged Words

variable {buf ys pre rest xs zs : List UInt8} {fuel p n : Nat}

/-- How a character of the line is kept. -/
def shown (c : UInt8) : UInt8 := if c = 0 then 0x20 else c

theorem shown_ne_zero {c : UInt8} : shown c ≠ 0 := by
  unfold shown
  split
  · decide
  · assumption

theorem zero_notMem_shown : 0 ∉ xs.map shown := fun h => by
  obtain ⟨c, -, hc⟩ := List.mem_map.mp h
  exact shown_ne_zero hc

/-- What stands before the first two adjacent NULs. -/
def untilNuls : List UInt8 → List UInt8
  | [] => []
  | x :: ys => if x = 0 ∧ ys.headD 0 = 0 then [] else x :: untilNuls ys

/-- The text ends where two NULs are known to be. -/
theorem length_untilNuls_le (h : ys.getD n 0 = 0) (h' : ys.getD (n + 1) 0 = 0) :
    (untilNuls ys).length ≤ n := by
  induction ys generalizing n with
  | nil => exact Nat.zero_le n
  | cons y ys ih =>
      rw [untilNuls]
      split
      · exact Nat.zero_le n
      · rename_i hgo
        cases n with
        | zero => exact absurd ⟨h, by cases ys <;> exact h'⟩ hgo
        | succ n => exact Nat.succ_le_succ (ih h h')

/-- The condition of the loop, read off what is left of the line. -/
theorem drop_cases (buf : List UInt8) (p : Nat) :
    (untilNuls (buf.drop p) = [] ∧ buf.getD p 0 = 0 ∧ buf.getD (p + 1) 0 = 0) ∨
    (untilNuls (buf.drop p) = buf.getD p 0 :: untilNuls (buf.drop (p + 1)) ∧
      (buf.getD p 0 ≠ 0 ∨ buf.getD (p + 1) 0 ≠ 0)) := by
  have hdrop : buf.drop (p + 1) = (buf.drop p).drop 1 := (List.drop_drop ..).symm
  have h0 : buf.getD p 0 = (buf.drop p).getD 0 0 := by simp
  have h1 : buf.getD (p + 1) 0 = (buf.drop p).getD 1 0 := by simp
  rw [hdrop, h0, h1]
  generalize buf.drop p = ys
  cases ys with
  | nil => exact .inl ⟨rfl, rfl, rfl⟩
  | cons y ys =>
      have hhead : (y :: ys).getD 1 0 = ys.headD 0 := by cases ys <;> rfl
      rw [hhead, untilNuls]
      by_cases hstop : y = 0 ∧ ys.headD 0 = 0
      · exact .inl ⟨if_pos hstop, hstop⟩
      · exact .inr ⟨if_neg hstop, not_and_or.mp hstop⟩

/-- **The copy**: from `p` on the cells of `last_term_in` are overwritten up to the two NULs. -/
theorem copyLast_eq (hfuel : (untilNuls (buf.drop pre.length)).length < fuel)
    (hroom : (untilNuls (buf.drop pre.length)).length ≤ rest.length) :
    (copyLast buf fuel (pre ++ rest) pre.length).value =
      (pre ++ ((untilNuls (buf.drop pre.length)).map shown ++
          rest.drop (untilNuls (buf.drop pre.length)).length),
        pre.length + (untilNuls (buf.drop pre.length)).length) := by
  induction fuel generalizing pre rest with
  | zero => cases hfuel
  | succ fuel ih =>
      rcases drop_cases buf pre.length with ⟨hnil, h0, h1⟩ | ⟨hcons, hgo⟩
      · rw [hnil]
        simp only [copyLast, value_bind, h0, h1, ne_eq, not_true_eq_false, or_self, if_false]
        rfl
      · have hlen : (pre ++ [shown (buf.getD pre.length 0)]).length = pre.length + 1 := by simp
        rw [hcons, List.length_cons] at hfuel hroom
        cases rest with
        | nil => cases hroom
        | cons r rest =>
            have hset : (pre ++ r :: rest).set pre.length (shown (buf.getD pre.length 0)) =
                (pre ++ [shown (buf.getD pre.length 0)]) ++ rest := by simp
            have hnext := @ih (pre ++ [shown (buf.getD pre.length 0)]) rest
            rw [hlen] at hnext
            rw [copyLast]
            simp only [value_bind, if_pos hgo]
            show (copyLast buf fuel ((pre ++ r :: rest).set pre.length
              (shown (buf.getD pre.length 0))) (pre.length + 1)).value = _
            rw [hset, hnext (Nat.lt_of_succ_lt_succ hfuel) (Nat.le_of_succ_le_succ hroom), hcons]
            simp [Nat.add_assoc, Nat.add_comm 1]

/-- The copy reads up to the second NUL, and writes what it keeps. -/
theorem copyLast_log {last : List UInt8} : (copyLast buf fuel last p).All fun a =>
    (∃ i, a = .termIn i ∧ i ≤ p + (untilNuls (buf.drop p)).length + 1) ∨
      ∃ i, a = .lastTermIn i ∧ i < p + (untilNuls (buf.drop p)).length := by
  induction fuel generalizing last p with
  | zero => exact all_pure _
  | succ fuel ih =>
      have hread : (note (.termIn p) () : Logged TermAccess Unit).All fun a =>
          (∃ i, a = .termIn i ∧ i ≤ p + (untilNuls (buf.drop p)).length + 1) ∨
            ∃ i, a = .lastTermIn i ∧ i < p + (untilNuls (buf.drop p)).length :=
        all_note.mpr (.inl ⟨p, rfl, by omega⟩)
      have hsecond : (noteIf (buf.getD p 0 = 0) (.termIn (p + 1))).All fun a =>
          (∃ i, a = .termIn i ∧ i ≤ p + (untilNuls (buf.drop p)).length + 1) ∨
            ∃ i, a = .lastTermIn i ∧ i < p + (untilNuls (buf.drop p)).length :=
        all_ite (fun _ => all_note.mpr (.inl ⟨p + 1, rfl, by omega⟩)) fun _ => all_pure _
      rw [copyLast]
      refine all_bind.mpr ⟨hread, all_bind.mpr ⟨hsecond, ?_⟩⟩
      rcases drop_cases buf p with ⟨-, h0, h1⟩ | ⟨hcons, hgo⟩
      · rw [if_neg fun h => h.elim (· h0) (· h1)]
        exact all_pure _
      · have hlen : p + (untilNuls (buf.drop p)).length =
            p + 1 + (untilNuls (buf.drop (p + 1))).length := by
          rw [hcons, List.length_cons]
          omega
        rw [if_pos hgo, hlen]
        exact all_bind.mpr ⟨all_note.mpr (.inr ⟨p, rfl, by omega⟩), ih⟩

/-! ### The line that is kept -/

/-- `last_term_in` holds the line `h`. -/
structure Terminal.Remembers (t : Terminal) (h : List UInt8) : Prop where
  holds : ∃ zs, Holds t.lastTermIn h zs
  cpi : t.cpi = h.length

variable {t : Terminal} {k : Commands} {arg : Nat}

/-- The copy, from the beginning of the buffers. -/
theorem copyLast_start {last : List UInt8} (hlast : last.length = termInputBufsize)
    (hlen : (untilNuls buf).length < termInputBufsize) :
    (copyLast buf (termInputBufsize + 1) last 0).value =
      ((untilNuls buf).map shown ++ last.drop (untilNuls buf).length, (untilNuls buf).length) := by
  have hcopy := @copyLast_eq buf [] last (termInputBufsize + 1)
  simp only [List.length_nil, List.drop_zero, List.nil_append, Nat.zero_add] at hcopy
  exact hcopy (Nat.lt_succ_of_lt hlen) (hlast ▸ hlen.le)

/-- What `terminal_process` leaves behind when it has called a command. -/
theorem execute_remembers (hlast : t.lastTermIn.length = termInputBufsize)
    (hlen : (untilNuls buf).length < termInputBufsize) :
    (t.execute k buf arg).value.1.Remembers ((untilNuls buf).map shown) := by
  have hvalue := copyLast_start hlast hlen
  have hset : ((untilNuls buf).map shown ++ t.lastTermIn.drop (untilNuls buf).length).set
      (untilNuls buf).length 0 =
      (untilNuls buf).map shown ++ 0 :: t.lastTermIn.drop ((untilNuls buf).length + 1) := by
    rw [List.drop_eq_getElem_cons (hlast ▸ hlen), List.set_append_right _ _ (by simp),
      List.length_map, Nat.sub_self]
    rfl
  refine ⟨⟨t.lastTermIn.drop ((untilNuls buf).length + 1), ⟨?_, zero_notMem_shown⟩, ?_⟩, ?_⟩
  all_goals simp only [Terminal.execute, value_bind, hvalue]
  · exact hset
  · show (List.set _ _ _).length = _
    simp [hlast, hlen.le]
  · exact (List.length_map shown).symm

end Brtos
