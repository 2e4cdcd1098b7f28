import Brtos.Terminal.Bounds

/-!
# Brtos.Terminal.Editing

**The line editor.** The reference (`Editor`) is a line, the last line that was executed, and
whether the up key has been half received. `terminal_input` keeps two counters for it:
`term_in_idx` is the length of the line, and `term_tmp_idx` counts what has been typed and
deleted and is at least as large (`Edits`).

The terminal follows the reference in every run of regular characters
(`terminal_follows_editor`). A character that is not regular finds one of the two counters, the
cells behind the cursor or the search for two NULs in a state that they do not provide for.
-/

namespace Brtos

open Logged Words

/-! ### The reference -/

/-- A line that is being edited, the last one that was executed, and whether the first
character of the up key has been received. -/
structure Editor where
  line : List UInt8
  history : Option (List UInt8)
  up : Bool

/-- A separator is shown as a space. -/
def shownSeparator (c : UInt8) : UInt8 := if isSeparator c then 0x20 else c

/-- A character that is appended to the line. -/
def Ordinary (c : UInt8) : Prop := c ≠ 8 ∧ c ≠ 0x7F ∧ c ≠ 10 ∧ c ≠ 13 ∧ c ≠ upKeyChar

instance {c : UInt8} : Decidable (Ordinary c) := inferInstanceAs (Decidable (_ ∧ _))

namespace Editor

/-- Before the first character. -/
def start : Editor := ⟨[], none, false⟩

/-- The line is executed if there is a word in it. -/
def enter (e : Editor) : Editor where
  line := []
  history :=
    if first isSeparator e.line = [] then e.history else some (e.line.map shownSeparator)
  up := false

/-- One character, and the line that is entered with it. -/
def step (e : Editor) (c : UInt8) : Editor × Option (List UInt8) :=
  if e.up then ({ e with line := e.history.getD e.line, up := false }, none)
  else if c = upKeyChar then ({ e with up := true }, none)
  else if c = 8 ∨ c = 0x7F then ({ e with line := e.line.dropLast }, none)
  else if c = 10 ∨ c = 13 then (e.enter, some e.line)
  else ({ e with line := e.line ++ [c] }, none)

section Step

variable {e : Editor} {c : UInt8}

theorem step_recall (hup : e.up = true) :
    e.step c = ({ e with line := e.history.getD e.line, up := false }, none) := if_pos hup

theorem step_up (hup : e.up = false) : e.step upKeyChar = ({ e with up := true }, none) := by
  simp [step, hup]

theorem step_delete (hup : e.up = false) (hc : c = 8 ∨ c = 0x7F) :
    e.step c = ({ e with line := e.line.dropLast }, none) := by
  have hne : c ≠ upKeyChar := by rcases hc with rfl | rfl <;> decide
  simp [step, hup, hne, hc]

theorem step_enter (hup : e.up = false) (hc : c = 10 ∨ c = 13) :
    e.step c = (e.enter, some e.line) := by
  have hne : c ≠ upKeyChar := by rcases hc with rfl | rfl <;> decide
  have hdel : ¬ (c = 8 ∨ c = 0x7F) := by rcases hc with rfl | rfl <;> decide
  simp only [step, hup, Bool.false_eq_true, if_false, if_neg hne, if_neg hdel, if_pos hc]

theorem step_append (hup : e.up = false) (hc : Ordinary c) :
    e.step c = ({ e with line := e.line ++ [c] }, none) := by
  obtain ⟨h8, hdel, hlf, hcr, hne⟩ := hc
  simp [step, hup, hne, h8, hdel, hlf, hcr]

end Step

/-- The reference after some characters. -/
def after (e : Editor) (cs : List UInt8) : Editor := cs.foldl (fun e c => (e.step c).1) e

/-- What is entered with each character. -/
def entered : Editor → List UInt8 → List (Option (List UInt8))
  | _, [] => []
  | e, c :: cs => (e.step c).2 :: entered (e.step c).1 cs

@[simp] theorem after_append (e : Editor) (cs : List UInt8) (c : UInt8) :
    e.after (cs ++ [c]) = ((e.after cs).step c).1 := by
  rw [after, List.foldl_append]
  rfl

@[simp] theorem entered_append (e : Editor) (cs : List UInt8) (c : UInt8) :
    e.entered (cs ++ [c]) = e.entered cs ++ [((e.after cs).step c).2] := by
  induction cs generalizing e with
  | nil => rfl
  | cons b cs ih => exact congrArg _ (ih (e.step b).1)

end Editor

/-- The string that is tokenised when the line is complete. -/
def TermShown.string (o : TermShown) : Option (List UInt8) :=
  o.line.map fun buf => buf.takeWhile (· ≠ 0)

variable {xs zs h : List UInt8} {t u : Terminal} {e e' : Editor} {c : UInt8} {k : Commands}
  {b : Bool}

/-! ### The copy of a line -/

theorem map_shown_cut (h0 : 0 ∉ xs) (hleft : ∀ s ∈ left isSeparator b xs, s = 0x20) :
    (cut isSeparator 0 b xs).map shown = xs.map shownSeparator := by
  induction xs generalizing b with
  | nil => rfl
  | cons x xs ih =>
      obtain ⟨hx, h0'⟩ := not_or.mp fun h => h0 (List.mem_cons.mpr h)
      have hxs : shown x = x := if_neg fun h => hx h.symm
      cases hsep : isSeparator x with
      | false =>
          simp only [cut, left, hsep, Bool.false_eq_true, if_false] at hleft ⊢
          rw [List.map_cons, List.map_cons, ih h0' hleft, hxs]
          simp [shownSeparator, hsep]
      | true =>
          cases b with
          | true =>
              simp only [cut, left, hsep, if_true] at hleft ⊢
              rw [List.map_cons, List.map_cons, ih h0' hleft]
              simp [shown, shownSeparator, hsep]
          | false =>
              simp only [cut, left, hsep, if_true, Bool.false_eq_true, if_false, List.mem_cons,
                forall_eq_or_imp] at hleft ⊢
              rw [List.map_cons, List.map_cons, ih h0' hleft.2, hxs]
              simp [shownSeparator, hleft.1]

/-- In a line that has been cut there are no two adjacent NULs, unless at its end. -/
theorem untilNuls_cut (h0 : 0 ∉ xs) (hend : endsCut isSeparator b xs = false)
    (hnext : zs.headD 0 = 0) :
    untilNuls (cut isSeparator 0 b xs ++ 0 :: zs) = cut isSeparator 0 b xs := by
  induction xs generalizing b with
  | nil =>
      show untilNuls (0 :: zs) = []
      rw [untilNuls, if_pos ⟨rfl, hnext⟩]
  | cons x xs ih =>
      obtain ⟨hx, h0'⟩ := not_or.mp fun h => h0 (List.mem_cons.mpr h)
      have hend' : endsCut isSeparator (!isSeparator x) xs = false := by
        cases xs with
        | nil => rfl
        | cons y ys => exact hend
      cases hsep : isSeparator x with
      | false =>
          rw [hsep, Bool.not_false] at hend'
          simp only [cut, hsep, Bool.false_eq_true, if_false, List.cons_append]
          rw [untilNuls, if_neg fun h => hx h.1.symm, ih h0' hend']
      | true =>
          rw [hsep, Bool.not_true] at hend'
          simp only [cut, hsep, if_true, List.cons_append]
          rw [untilNuls, if_neg ?_, ih h0' hend']
          rintro ⟨hcell, hhead⟩
          cases b with
          | false => exact hx hcell.symm
          | true =>
              -- behind the NUL of a word there is a character of the line
              cases xs with
              | nil =>
                  rw [endsCut, hsep] at hend
                  cases hend
              | cons y ys =>
                  have hy : y ≠ 0 := fun hy => h0' (hy ▸ List.mem_cons_self)
                  simp only [cut] at hhead
                  split at hhead
                  · exact hy hhead
                  · exact hy hhead
/-! ### The terminal and the reference -/

/-- A line that is executed and kept as it is: no character of it is a NUL, it has no more words
than `argv` has elements, and the search for two NULs ends behind it. -/
structure Plain (t : Terminal) : Prop where
  noNul : 0 ∉ t.termIn.take t.termInIdx
  words : count isSeparator (t.termIn.take t.termInIdx) ≤ termArgsMaxCount
  next : first isSeparator (t.termIn.take t.termInIdx) ≠ [] → t.termIn.getD (t.termInIdx + 1) 0 = 0
  spaces : first isSeparator (t.termIn.take t.termInIdx) ≠ [] →
    ∀ s ∈ left isSeparator false (t.termIn.take t.termInIdx), s = 0x20
  tail : first isSeparator (t.termIn.take t.termInIdx) ≠ [] →
    endsCut isSeparator false (t.termIn.take t.termInIdx) = false

/-- The characters that the terminal provides for. -/
structure Regular (t : Terminal) (c : UInt8) : Prop where
  /-- `term_tmp_idx` does not overflow. -/
  counter_lt : c ≠ 0x7F → c ≠ upKeyChar → t.received c ≠ 13 → t.termTmpIdx < 2 ^ 31 - 1
  counter_gt : c = 0x7F → -2 ^ 31 < t.termTmpIdx
  /-- The second character of the up key; without a last line nothing has been typed. -/
  upKey : t.discardChar ≠ 0 → c ≠ 0x7F ∧ c ≠ upKeyChar ∧
    (t.lastTermIn.getD 0 0 = 0 → t.termInIdx = 0)
  backspace : t.discardChar = 0 → c = 8 → t.termInIdx ≠ 0
  delete : t.discardChar = 0 → c = 0x7F → t.termInIdx = 0 → t.termTmpIdx ≤ 0
  enter : t.discardChar = 0 → c = 10 ∨ c = 13 → Plain t
  /-- There is room for the character, and for one more. -/
  room : t.discardChar = 0 → Ordinary c → t.termInIdx < termInputBufsize - 2

/-- The terminal stands for the reference `e`. -/
structure Edits (t : Terminal) (e : Editor) : Prop where
  inv : TermInv t
  line : t.termIn.take t.termInIdx = e.line
  counter : (t.termInIdx : Int) ≤ t.termTmpIdx ∨ t.termInIdx = 0
  counter_lt : t.termTmpIdx < 2 ^ 31
  up : t.discardChar = e.up.toNat
  history : t.Remembers (e.history.getD [])
  proper : e.history ≠ some []

namespace Edits

theorem start : Edits .start .start where
  inv := .start
  line := rfl
  counter := .inr rfl
  counter_lt := by decide
  up := rfl
  history := ⟨⟨List.replicate 31 0, ⟨rfl, List.not_mem_nil⟩, rfl⟩, rfl⟩
  proper h := by cases h

/-- The counter after a character that is neither `DEL` nor `CR`. -/
theorem counted_gt (he : Edits t e) (hdel : c ≠ 0x7F) (hcr : c ≠ 13)
    (hlt : t.termTmpIdx < 2 ^ 31 - 1) : (t.termInIdx : Int) < t.counted c := by
  have hcounter := he.counter
  rw [Terminal.counted, if_neg hdel]
  simp only [Terminal.count, hcr, ne_eq, not_false_eq_true, if_true, Terminal.int32]
  split <;> omega

/-- The counter after `DEL`. -/
theorem counted_delete (he : Edits t e) (hgt : -2 ^ 31 < t.termTmpIdx) :
    t.counted 0x7F = t.termTmpIdx - 1 := by
  have hlt := he.counter_lt
  rw [Terminal.counted, if_pos rfl, Terminal.int32]
  omega

theorem counted_lt : t.counted c < 2 ^ 31 := by
  have hwrap : ∀ x, Terminal.int32 x < 2 ^ 31 := by
    intro x
    rw [Terminal.int32]
    omega
  unfold Terminal.counted Terminal.count
  split
  · exact hwrap _
  · show (if _ then _ else _) < _
    split
    · split
      · exact hwrap _
      · decide
    · decide

theorem idx_lt (he : Edits t e) : t.termInIdx < t.termIn.length :=
  he.inv.idx_le.trans_lt (he.inv.ended.length ▸ by decide)

theorem length_history (he : Edits t e) : (e.history.getD []).length ≤ 30 := by
  obtain ⟨h, hr, hlen⟩ := he.inv.history
  rw [← he.history.cpi, hr.cpi]
  exact hlen

/-- The up key is half received in both or in neither. -/
theorem up_eq (he : Edits t e) : e.up = true ↔ t.discardChar ≠ 0 := by
  rw [he.up]
  cases e.up <;> simp

theorem up_false (he : Edits t e) (hd : t.discardChar = 0) : e.up = false := by
  rw [← Bool.not_eq_true, he.up_eq]
  exact fun hne => hne hd

/-- An edit of the line that leaves the history alone. -/
theorem change {line : List UInt8} (he : Edits t e) (hinv : TermInv u)
    (hlast : u.lastTermIn = t.lastTermIn) (hcpi : u.cpi = t.cpi) (hd : u.discardChar = 0)
    (hline : u.termIn.take u.termInIdx = line)
    (hcounter : (u.termInIdx : Int) ≤ u.termTmpIdx ∨ u.termInIdx = 0) (hlt : u.termTmpIdx < 2 ^ 31) :
    Edits u { e with line := line, up := false } :=
  ⟨hinv, hline, hcounter, hlt, hd, he.history.congr hlast hcpi, he.proper⟩

/-- One and the same edit, when the up key is not half received. -/
theorem edited (he : Edits t e) (hok : Regular t c) (hd : t.discardChar = 0) (hup : c ≠ upKeyChar)
    (hed : (t.counting c).Edited (e.history.getD []) c u false) :
    Edits u (e.step c).1 ∧ (e.step c).2 = none := by
  have hinv := (he.inv.counting c).edited (he.history.congr rfl rfl) he.length_history hed
  have hreceived : t.received c = c := if_neg fun h => h.2 hd
  have hcounted : (t.counting c).termTmpIdx = t.counted c := congrArg t.counted hreceived
  have hnew : (t.counting c).discardChar = 0 := by
    show (if c = 0x7F then t.discardChar else 0) = 0
    rw [hd, ite_self]
  have hno := he.up_false hd
  have hsame : ∀ line, ({ e with line := line } : Editor) = { e with line := line, up := false } :=
    fun line => by rw [hno]
  have hdelete : c = 0x7F → t.counted c = t.termTmpIdx - 1 := by
    rintro rfl
    exact he.counted_delete (hok.counter_gt rfl)
  have hgt : c ≠ 0x7F → c ≠ 13 → (t.termInIdx : Int) < t.counted c := fun h1 h2 =>
    he.counted_gt h1 h2 (hok.counter_lt h1 hup (by rwa [hreceived]))
  have hcounter := he.counter
  cases hed with
  | ignored htmp =>
      -- only `DEL` on an empty line counts below zero
      rw [hcounted] at htmp
      have hc : c = 0x7F := by
        by_contra hne
        by_cases hcr : c = 13
        · subst hcr
          have hzero : t.counted 13 = 0 := rfl
          omega
        · have := hgt hne hcr
          omega
      have hdel := hdelete hc
      have hzero : t.termInIdx = 0 := by omega
      rw [Editor.step_delete hno (.inr hc), hsame]
      refine ⟨he.change hinv rfl rfl hnew ?_ (.inr hzero) counted_lt, rfl⟩
      rw [← he.line]
      show t.termIn.take t.termInIdx = _
      simp [hzero]
  | erased htmp hc hpos =>
      have hpos : 0 < t.termInIdx := hpos
      rw [Editor.step_delete hno hc, hsame]
      refine ⟨he.change hinv rfl rfl hnew ?_ (.inl ?_) counted_lt, rfl⟩
      · show (t.termIn.set t.termInIdx 0).take (t.termInIdx - 1) = e.line.dropLast
        rw [← he.line, List.take_set_of_le (by omega), List.dropLast_take (by have := he.idx_lt; omega)]
      · show ((t.termInIdx - 1 : Nat) : Int) ≤ (t.counting c).termTmpIdx
        rw [hcounted]
        rcases hc with rfl | rfl
        · have := hgt (by decide) (by decide)
          omega
        · have := hdelete rfl
          omega
  | recalled _ hc => exact absurd hc hup
  | stored htmp hc _ hgo =>
      obtain ⟨hlf, hcr, -⟩ := not_or.mp hgo |>.imp_right not_or.mp
      rw [hcounted] at htmp
      have hbs : c ≠ 8 := fun h => hok.backspace hd h (hc (.inl h))
      have hdel : c ≠ 0x7F := fun h => by
        have := hok.delete hd h (hc (.inr h))
        have := hdelete h
        omega
      rw [Editor.step_append hno ⟨hbs, hdel, hlf, hcr, hup⟩, hsame]
      refine ⟨he.change hinv rfl rfl hnew ?_ (.inl ?_) counted_lt, rfl⟩
      · show (t.termIn.set t.termInIdx c).take (t.termInIdx + 1) = e.line ++ [c]
        rw [← he.line, List.take_succ_eq_append_getElem (by simpa using he.idx_lt),
          List.take_set_of_le le_rfl, List.getElem_set_self]
      · show ((t.termInIdx + 1 : Nat) : Int) ≤ (t.counting c).termTmpIdx
        rw [hcounted]
        have := hgt hdel hcr
        omega

/-- The up key is complete: the last line is recalled. -/
theorem recalled (he : Edits t e) (hok : Regular t c) (hd : t.discardChar ≠ 0)
    (hed : (t.counting c).Edited (e.history.getD []) upKeyChar u false) :
    Edits u (e.step c).1 ∧ (e.step c).2 = none := by
  have hinv := (he.inv.counting c).edited (he.history.congr rfl rfl) he.length_history hed
  obtain ⟨hdel, hup, hnone⟩ := hok.upKey hd
  have hreceived : t.received c = upKeyChar := if_pos ⟨hdel, hd⟩
  have hcounted : (t.counting c).termTmpIdx = t.counted upKeyChar := congrArg t.counted hreceived
  have hlt := hok.counter_lt hdel hup (by rw [hreceived]; decide)
  have hgt := he.counted_gt (c := upKeyChar) (by decide) (by decide) hlt
  have hnew : (t.counting c).discardChar = 0 := if_neg hdel
  rw [Editor.step_recall (he.up_eq.mpr hd)]
  cases hed with
  | ignored htmp =>
      rw [hcounted] at htmp
      omega
  | erased _ hc => exact absurd hc (by decide)
  | stored _ _ hne => exact absurd rfl hne
  | recalled _ _ =>
      have hlen := he.length_history
      obtain ⟨line, history, up⟩ := e
      refine ⟨?_, rfl⟩
      unfold Terminal.recalled at hinv ⊢
      cases history with
      | none =>
          -- nothing has been executed, and nothing has been typed
          have hzero : t.termInIdx = 0 := by
            refine hnone ?_
            obtain ⟨zs, hzs⟩ := he.history.holds
            rw [hzs.line.eq]
            rfl
          have hline : t.termIn.take t.termInIdx = line := he.line
          refine he.change hinv rfl rfl hnew ?_ (.inr rfl) counted_lt
          show [] = line
          rw [← hline, hzero]
          rfl
      | some h =>
          have hne : h ≠ [] := fun h0 => he.proper (congrArg some h0)
          have hlen : h.length ≤ 30 := hlen
          rw [Option.getD_some, if_neg hne] at hinv ⊢
          refine he.change hinv rfl rfl hnew ?_ (.inl ?_) ?_
          · show (h ++ _).take h.length = h
            exact List.take_left
          · exact Int.le_refl _
          · show (h.length : Int) < _
            omega

/-- The first character of the up key. -/
theorem upKey (he : Edits t e) (hd : t.discardChar = 0) :
    Edits { t with discardChar := 1 } (e.step upKeyChar).1 ∧ (e.step upKeyChar).2 = none := by
  have hinv : TermInv { t with discardChar := 1 } :=
    ⟨he.inv.ended, he.inv.idx_le, le_rfl, ⟨_, he.history.congr rfl rfl, he.length_history⟩⟩
  rw [Editor.step_up (he.up_false hd)]
  exact ⟨⟨hinv, he.line, he.counter, he.counter_lt, rfl, he.history.congr rfl rfl, he.proper⟩, rfl⟩

/-- What `terminal_process` leaves in `last_term_in`. -/
theorem process_remembers {history : Option (List UInt8)} (hh : Holds t.termIn xs zs)
    (hended : Ended t.termIn) (hr : t.Remembers (history.getD []))
    (hnext : first isSeparator xs ≠ [] → zs.headD 0 = 0)
    (hspaces : first isSeparator xs ≠ [] → ∀ s ∈ left isSeparator false xs, s = 0x20)
    (htail : first isSeparator xs ≠ [] → endsCut isSeparator false xs = false) :
    (t.terminalProcess k).value.1.Remembers
      ((if first isSeparator xs = [] then history else some (xs.map shownSeparator)).getD []) := by
  have hs := Words.split isSeparator xs
  rw [terminalProcess_eq hh]
  simp only [value_bind, Terminal.afterTokens]
  by_cases hw : first isSeparator xs = []
  · rw [if_pos hw, hs.starts_nil hw]
    exact hr.congr rfl rfl
  · have hcut := (hended.cut hh).length_untilNuls
    rw [if_neg hw, hs.starts_cons hw]
    have hkept := @execute_remembers _ t k (0 + (xs.takeWhile isSeparator).length)
      hr.holds.choose_spec.length (hcut.trans_lt (by decide))
    rw [untilNuls_cut hh.line.noNul (htail hw) (hnext hw),
      map_shown_cut hh.line.noNul (hspaces hw)] at hkept
    exact hkept

theorem process_counters (hh : Holds t.termIn xs zs) :
    (t.terminalProcess k).value.1.termTmpIdx = t.termTmpIdx ∧
      (t.terminalProcess k).value.1.discardChar = t.discardChar := by
  rw [terminalProcess_eq hh]
  simp only [value_bind, Terminal.afterTokens]
  split
  · exact ⟨rfl, rfl⟩
  · exact ⟨rfl, rfl⟩

/-- The line is entered. -/
theorem entered (he : Edits t e) (hd : t.discardChar = 0) (hc : c = 10 ∨ c = 13) (hp : Plain t)
    (hed : (t.counting c).Edited h c u true) :
    Edits (u.terminalProcess k).value.1 (e.step c).1 ∧
      (e.step c).2 = some (u.termIn.takeWhile (· ≠ 0)) := by
  obtain ⟨hin, hr, hnew, hlt⟩ : u.termIn = t.termIn.set t.termInIdx 0 ∧
      u.Remembers (e.history.getD []) ∧ u.discardChar = 0 ∧ u.termTmpIdx < 2 ^ 31 := by
    cases hed with
    | completed =>
        refine ⟨rfl, he.history.congr rfl rfl, ?_, counted_lt⟩
        show (if c = 0x7F then t.discardChar else 0) = 0
        rw [hd, ite_self]
  have hended : Ended u.termIn := hin ▸ he.inv.ended.set (.inr rfl)
  have hset : u.termIn = t.termIn.take t.termInIdx ++ 0 :: t.termIn.drop (t.termInIdx + 1) := by
    rw [hin, List.set_eq_take_append_cons_drop, if_pos he.idx_lt]
  have hh : Holds u.termIn (t.termIn.take t.termInIdx) (t.termIn.drop (t.termInIdx + 1)) :=
    ⟨⟨hset, hp.noNul⟩, hended.length⟩
  have hnext : first isSeparator (t.termIn.take t.termInIdx) ≠ [] →
      (t.termIn.drop (t.termInIdx + 1)).headD 0 = 0 := by
    intro hw
    rw [List.headD_eq_head?_getD, List.head?_drop, ← List.getD_eq_getElem?_getD]
    exact hp.next hw
  obtain ⟨hinv, hidx⟩ := process_inv (k := k) hended hh hr he.length_history (by omega)
  obtain ⟨htmp, hdiscard⟩ := process_counters (k := k) hh
  have hkept := process_remembers (k := k) hh hended hr hnext hp.spaces hp.tail
  rw [he.line] at hkept hset
  rw [Editor.step_enter (he.up_false hd) hc]
  refine ⟨⟨hinv, ?_, .inr hidx, htmp ▸ hlt, hdiscard.trans hnew, hkept, ?_⟩, ?_⟩
  · rw [hidx]
    rfl
  · show (if first isSeparator e.line = [] then e.history else some (e.line.map shownSeparator)) ≠ _
    split
    · exact he.proper
    · rename_i hw
      intro hnil
      have hline : e.line = [] := List.map_eq_nil_iff.mp (Option.some.inj hnil)
      exact hw (by rw [hline]; rfl)
  · have hno0 : ∀ x ∈ e.line, decide (x ≠ 0) = true := fun x hx =>
      decide_eq_true fun h0 => hp.noNul (he.line.symm ▸ h0 ▸ hx)
    rw [hset, takeWhile_append_stop hno0 (by decide)]

/-- A character that is not `CR` or `LF` does not complete the line. -/
theorem enter_of_completed (hok : Regular t c) (hd : t.discardChar = 0)
    (hed : (t.counting c).Edited h c u true) : c = 10 ∨ c = 13 := by
  cases hed with
  | completed _ hc hup hdone =>
      by_contra hno
      obtain ⟨hlf, hcr⟩ := not_or.mp hno
      have hfull : t.termInIdx = termInputBufsize - 2 := (hdone.resolve_left hlf).resolve_left hcr
      have hempty : c = 8 ∨ c = 0x7F → t.termInIdx = 0 := hc
      have hsize : termInputBufsize - 2 = 30 := rfl
      have hroom := hok.room hd ⟨fun h => by have := hempty (.inl h); omega,
        fun h => by have := hempty (.inr h); omega, hlf, hcr, hup⟩
      omega

/-- **Step lemma.** -/
theorem step (he : Edits t e) (hok : Regular t c) {o : TermShown} (hstep : t.step k c = some (u, o)) :
    o.string = (e.step c).2 ∧ Edits u (e.step c).1 := by
  by_cases hup : c = upKeyChar
  · subst hup
    have hd : t.discardChar = 0 := by
      by_contra hne
      exact (hok.upKey hne).2.1 rfl
    obtain ⟨rfl, rfl⟩ := step_unique (step_editing rfl) hstep
    obtain ⟨hedits, hnone⟩ := he.upKey hd
    exact ⟨hnone.symm, hedits⟩
  · have hsize : (e.history.getD []).length + 2 ≤ termInputBufsize :=
      Nat.add_le_add_right he.length_history 2
    have hed := Terminal.edit_edited (t := t.counting c) (c := t.received c) he.inv.ended.length
      (he.history.congr rfl rfl) hsize
    rw [← (Terminal.terminalInput_edit he.inv.discard_le hup).1] at hed
    cases hinput : (t.terminalInput c).value.2 with
    | false =>
        obtain ⟨rfl, rfl⟩ := step_unique (step_editing (k := k) hinput) hstep
        rw [hinput] at hed
        obtain ⟨hedits, hnone⟩ : Edits _ (e.step c).1 ∧ (e.step c).2 = none := by
          by_cases hd : t.discardChar = 0
          · have hreceived : t.received c = c := if_neg fun h => h.2 hd
            rw [hreceived] at hed
            exact he.edited hok hd hup hed
          · have hreceived : t.received c = upKeyChar := if_pos ⟨(hok.upKey hd).1, hd⟩
            rw [hreceived] at hed
            exact he.recalled hok hd hed
        exact ⟨hnone.symm, hedits⟩
    | true =>
        obtain ⟨rfl, rfl⟩ := step_unique (step_processing (k := k) hinput) hstep
        rw [hinput] at hed
        have hd : t.discardChar = 0 := by
          by_contra hd
          have hreceived : t.received c = upKeyChar := if_pos ⟨(hok.upKey hd).1, hd⟩
          exact hed.ne_upKeyChar hreceived
        have hreceived : t.received c = c := if_neg fun h => h.2 hd
        rw [hreceived] at hed
        have hc := enter_of_completed hok hd hed
        obtain ⟨hedits, hline⟩ := he.entered (k := k) hd hc (hok.enter hd hc) hed
        exact ⟨hline.symm, hedits⟩

end Edits

/-- **The line editor and its history.** In every run of characters that the terminal provides
for: what is tokenised with each of them is the line of the reference, and `last_term_in` is the
line that was executed last, with its separators shown as spaces. -/
theorem terminal_follows_editor {tr : List (UInt8 × TermShown)}
    (hrun : Run (Terminal.step k) Regular .start tr t) :
    (tr.map fun x => x.2.string) = Editor.start.entered (tr.map Prod.fst) ∧
      t.Remembers ((Editor.start.after (tr.map Prod.fst)).history.getD []) := by
  suffices h : (tr.map fun x => x.2.string) = Editor.start.entered (tr.map Prod.fst) ∧
      Edits t (Editor.start.after (tr.map Prod.fst)) from ⟨h.1, h.2.history⟩
  induction hrun with
  | nil => exact ⟨rfl, .start⟩
  | snoc _ hok hs ih =>
      obtain ⟨hentered, hedits⟩ := ih
      obtain ⟨hstring, hedits'⟩ := hedits.step hok hs
      simp only [List.map_append, List.map_cons, List.map_nil, Editor.entered_append,
        Editor.after_append, hentered, hstring]
      exact ⟨trivial, hedits'⟩

/-! ### Two runs -/

instance : Decidable (Plain t) :=
  letI : Decidable (∀ s ∈ left isSeparator false (t.termIn.take t.termInIdx), s = 0x20) :=
    List.decidableBAll _ _
  decidable_of_iff (0 ∉ t.termIn.take t.termInIdx ∧
    count isSeparator (t.termIn.take t.termInIdx) ≤ termArgsMaxCount ∧
    (first isSeparator (t.termIn.take t.termInIdx) ≠ [] → t.termIn.getD (t.termInIdx + 1) 0 = 0) ∧
    (first isSeparator (t.termIn.take t.termInIdx) ≠ [] →
      ∀ s ∈ left isSeparator false (t.termIn.take t.termInIdx), s = 0x20) ∧
    (first isSeparator (t.termIn.take t.termInIdx) ≠ [] →
      endsCut isSeparator false (t.termIn.take t.termInIdx) = false))
    ⟨fun ⟨h1, h2, h3, h4, h5⟩ => ⟨h1, h2, h3, h4, h5⟩, fun h => ⟨h.1, h.2, h.3, h.4, h.5⟩⟩

instance : Decidable (Regular t c) :=
  decidable_of_iff ((c ≠ 0x7F → c ≠ upKeyChar → t.received c ≠ 13 → t.termTmpIdx < 2 ^ 31 - 1) ∧
    (c = 0x7F → -2 ^ 31 < t.termTmpIdx) ∧
    (t.discardChar ≠ 0 → c ≠ 0x7F ∧ c ≠ upKeyChar ∧
      (t.lastTermIn.getD 0 0 = 0 → t.termInIdx = 0)) ∧
    (t.discardChar = 0 → c = 8 → t.termInIdx ≠ 0) ∧
    (t.discardChar = 0 → c = 0x7F → t.termInIdx = 0 → t.termTmpIdx ≤ 0) ∧
    (t.discardChar = 0 → c = 10 ∨ c = 13 → Plain t) ∧
    (t.discardChar = 0 → Ordinary c → t.termInIdx < termInputBufsize - 2))
    ⟨fun ⟨h1, h2, h3, h4, h5, h6, h7⟩ => ⟨h1, h2, h3, h4, h5, h6, h7⟩,
      fun h => ⟨h.1, h.2, h.3, h.4, h.5, h.6, h.7⟩⟩

/-- `a b`, the up key, `BS` and `c`. -/
def recallScript : List UInt8 := [97, 32, 98, 13, 224, 65, 8, 99, 13]

theorem terminal_follows_editor_recall :
    let tr := Run.traceOf (Terminal.step shellCommands) .start recallScript
    let t := Run.after (Terminal.step shellCommands) .start recallScript
    (tr.map fun x => x.2.string) = Editor.start.entered (tr.map Prod.fst) ∧
      t.Remembers ((Editor.start.after (tr.map Prod.fst)).history.getD []) := by
  intro tr t
  have hrun : Run (Terminal.step shellCommands) Regular .start tr t :=
    Run.of_admits (by decide +kernel)
  exact terminal_follows_editor hrun

/-- `BS` on an empty line is stored: what is tokenised is `BS` `a`. -/
theorem backspace_is_stored :
    let tr := Run.traceOf (Terminal.step shellCommands) .start [8, 97, 13]
    Run (Terminal.step shellCommands) (fun _ _ => True) .start tr
        (Run.after (Terminal.step shellCommands) .start [8, 97, 13]) ∧
      (tr.map fun x => x.2.string) = [none, none, some [8, 97]] ∧
      Editor.start.entered (tr.map Prod.fst) = [none, none, some [97]] := by
  exact ⟨Run.of_admits (by decide +kernel), by decide +kernel, by decide +kernel⟩

end Brtos
