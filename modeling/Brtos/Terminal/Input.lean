import Brtos.Terminal.History
import Mathlib.Data.List.GetD

/-!
# Brtos.Terminal.Input

**What `terminal_input` does with a character.** The second character of the up key is
taken for `UP_KEY_CHAR` (`received`), the character is counted (`counted`), and what is left
is one of five edits of the line (`Edited`). Everything about the buffers is read off this,
not off the branches of the function.
-/

namespace Brtos

open Logged

namespace Terminal

variable {t : Terminal} {c : UInt8} {h : List UInt8}

/-! ### Copying the last line -/

/-- A loop that copies one buffer to the front of another. -/
theorem foldl_set (src : List UInt8) {buf : List UInt8} {n : Nat} (hsrc : n ≤ src.length)
    (hbuf : n ≤ buf.length) :
    (List.range n).foldl (fun buf i => buf.set i (src.getD i 0)) buf = src.take n ++ buf.drop n := by
  induction n with
  | zero => rfl
  | succ n ih =>
      rw [List.range_succ, List.foldl_append, ih (by omega) (by omega)]
      show (src.take n ++ buf.drop n).set n (src.getD n 0) = _
      have htake : (src.take n).length = n := List.length_take_of_le (by omega)
      rw [List.set_append_right _ _ htake.le, htake, Nat.sub_self,
        List.drop_eq_getElem_cons (by omega), List.set_cons_zero,
        List.take_succ_eq_append_getElem hsrc, List.append_assoc,
        List.getD_eq_getElem _ _ hsrc]
      rfl

/-- The terminal after the up key, with `h` as the last line. -/
def recalled (t : Terminal) (h : List UInt8) : Terminal :=
  if h = [] then { t with termInIdx := 0 }
  else
    { t with
      termIn := h ++ 0 :: 0 :: t.termIn.drop (h.length + 2)
      termInIdx := h.length
      termTmpIdx := h.length }

theorem recallLine_value (hin : t.termIn.length = termInputBufsize) (hr : t.Remembers h)
    (hlen : h.length + 2 ≤ termInputBufsize) : t.recallLine.value = (t.recalled h, false) := by
  obtain ⟨zs, hlast⟩ := hr.holds
  have heq : t.lastTermIn = h ++ 0 :: zs := hlast.line.eq
  by_cases hempty : h = []
  · have hfirst : t.lastTermIn.getD 0 0 = 0 := by simp [heq, hempty]
    simp only [recallLine, value_bind, hfirst, ne_eq, not_true_eq_false, if_false, recalled, if_pos hempty]
    rfl
  · have hfirst : t.lastTermIn.getD 0 0 ≠ 0 := by
      obtain ⟨x, xs, rfl⟩ := List.exists_cons_of_ne_nil hempty
      rw [heq]
      exact fun h0 : x = 0 => hlast.line.noNul (h0 ▸ List.mem_cons_self)
    have hsrc : h.length + 1 ≤ t.lastTermIn.length := by
      rw [hlast.length]
      omega
    have hcopy : ((List.range (h.length + 1)).foldlM (fun buf i => do
        note (.lastTermIn i) ()
        note (.termIn i) (buf.set i (t.lastTermIn.getD i 0)) : List UInt8 → Nat → Logged TermAccess _)
        t.termIn).value = t.lastTermIn.take (h.length + 1) ++ t.termIn.drop (h.length + 1) :=
      (value_foldlM (fun _ _ => rfl) _ _).trans (foldl_set _ hsrc (by omega))
    have htake : t.lastTermIn.take (h.length + 1) = h ++ [0] := by
      rw [heq, List.take_length_add_append]
      rfl
    have hset : (h ++ [0] ++ t.termIn.drop (h.length + 1)).set (h.length + 1) 0 =
        h ++ 0 :: 0 :: t.termIn.drop (h.length + 2) := by
      have hlen' : (h ++ [0]).length = h.length + 1 := by simp
      rw [List.drop_eq_getElem_cons (by omega), List.set_append_right _ _ hlen'.le, hlen', Nat.sub_self,
        List.append_assoc]
      rfl
    simp only [recallLine, value_bind, if_pos hfirst, hr.cpi, hcopy, htake, recalled, if_neg hempty]
    rw [value_pure, hset]

/-! ### One character -/

/-- Storing a character: with `CR`, `LF` or the last but one cell the line is complete. -/
theorem store_value : (t.store c).value =
    if c = 10 ∨ c = 13 ∨ t.termInIdx = termInputBufsize - 2 then
      ({ t with termIn := t.termIn.set t.termInIdx 0, termInIdx := t.termInIdx + 1 }, true)
    else ({ t with termIn := t.termIn.set t.termInIdx c, termInIdx := t.termInIdx + 1 }, false) := by
  have hfull : t.termInIdx + 1 = termInputBufsize - 1 ↔ t.termInIdx = termInputBufsize - 2 := by
    unfold termInputBufsize
    omega
  simp only [store, value_bind, hfull]
  split
  · simp only [value_bind, value_pure, Nat.add_sub_cancel, List.set_set]
  · rfl

/-- What is done with a character that has been counted. -/
inductive Edited (t : Terminal) (h : List UInt8) (c : UInt8) : Terminal → Bool → Prop
  | ignored (htmp : t.termTmpIdx < 0) : Edited t h c t false
  | erased (htmp : 0 ≤ t.termTmpIdx) (hc : c = 8 ∨ c = 0x7F) (hidx : 0 < t.termInIdx) :
      Edited t h c { t with
        termIn := t.termIn.set t.termInIdx 0
        termInIdx := t.termInIdx - 1 } false
  | recalled (htmp : 0 ≤ t.termTmpIdx) (hc : c = upKeyChar) : Edited t h c (t.recalled h) false
  | stored (htmp : 0 ≤ t.termTmpIdx) (hc : c = 8 ∨ c = 0x7F → t.termInIdx = 0)
      (hup : c ≠ upKeyChar) (hgo : ¬ (c = 10 ∨ c = 13 ∨ t.termInIdx = termInputBufsize - 2)) :
      Edited t h c { t with
        termIn := t.termIn.set t.termInIdx c
        termInIdx := t.termInIdx + 1 } false
  | completed (htmp : 0 ≤ t.termTmpIdx) (hc : c = 8 ∨ c = 0x7F → t.termInIdx = 0)
      (hup : c ≠ upKeyChar) (hdone : c = 10 ∨ c = 13 ∨ t.termInIdx = termInputBufsize - 2) :
      Edited t h c { t with
        termIn := t.termIn.set t.termInIdx 0
        termInIdx := t.termInIdx + 1 } true

/-- The up key does not complete a line. -/
theorem Edited.ne_upKeyChar {u : Terminal} (he : Edited t h c u true) : c ≠ upKeyChar := by
  cases he with
  | completed _ _ hup => exact hup

theorem edit_edited (hin : t.termIn.length = termInputBufsize) (hr : t.Remembers h)
    (hlen : h.length + 2 ≤ termInputBufsize) :
    Edited t h c (t.edit c).value.1 (t.edit c).value.2 := by
  unfold edit
  by_cases htmp : 0 ≤ t.termTmpIdx
  · rw [if_pos htmp]
    by_cases hdel : (c = 8 ∨ c = 0x7F) ∧ 0 < t.termInIdx
    · rw [if_pos hdel]
      exact .erased htmp hdel.1 hdel.2
    · have hc : c = 8 ∨ c = 0x7F → t.termInIdx = 0 := fun hc => by
        by_contra hne
        exact hdel ⟨hc, Nat.pos_of_ne_zero hne⟩
      rw [if_neg hdel]
      by_cases hup : c = upKeyChar
      · rw [if_pos hup, recallLine_value hin hr hlen]
        exact .recalled htmp hup
      · rw [if_neg hup, store_value]
        split
        · rename_i hdone
          exact .completed htmp hc hup hdone
        · rename_i hgo
          exact .stored htmp hc hup hgo
  · rw [if_neg htmp]
    exact .ignored (by omega)

/-- The second character of the up key is taken for `UP_KEY_CHAR`, unless it is `DEL`. -/
def received (t : Terminal) (c : UInt8) : UInt8 :=
  if c ≠ 0x7F ∧ t.discardChar ≠ 0 then upKeyChar else c

/-- `term_tmp_idx` when the character has been counted. -/
def counted (t : Terminal) (c : UInt8) : Int :=
  if c = 0x7F then int32 (t.termTmpIdx - 1) else (t.count c).termTmpIdx

/-- The terminal when the character has been counted. -/
def counting (t : Terminal) (c : UInt8) : Terminal :=
  { t with
    discardChar := if c = 0x7F then t.discardChar else 0
    termTmpIdx := t.counted (t.received c) }

theorem terminalInput_up : t.terminalInput upKeyChar = pure ({ t with discardChar := 1 }, false) := rfl

/-- A character that is not `UP_KEY_CHAR` is counted and edits the line; besides that, it is
printed at most. -/
theorem terminalInput_edit (hd : t.discardChar ≤ 1) (hc : c ≠ upKeyChar) :
    (t.terminalInput c).value = ((t.counting c).edit (t.received c)).value ∧
      ∀ a ∈ (t.terminalInput c).log, (∃ x, a = .put x) ∨
        a ∈ ((t.counting c).edit (t.received c)).log := by
  by_cases hdel : c = 0x7F
  · subst hdel
    have hstate : t.counting 0x7F = { t with termTmpIdx := int32 (t.termTmpIdx - 1) } := rfl
    have hinput : t.terminalInput 0x7F = (do
        noteIf (0 ≤ int32 (t.termTmpIdx - 1)) (.put 0x7F)
        (t.counting 0x7F).edit (t.received 0x7F)) := rfl
    refine ⟨by rw [hinput, value_bind], fun a ha => ?_⟩
    rw [hinput, log_bind, List.mem_append] at ha
    rcases ha with ha | ha
    · unfold noteIf at ha
      split at ha
      · exact .inl ⟨0x7F, List.mem_singleton.mp ha⟩
      · cases ha
    · exact .inr ha
  · by_cases hzero : t.discardChar = 0
    · have hreceived : t.received c = c := if_neg fun h => h.2 hzero
      have hstate : t.counting c = t.count c := by
        rw [counting, hreceived, counted, if_neg hdel, if_neg hdel, ← hzero]
        rfl
      have hinput : t.terminalInput c = (do note (.put c) (); (t.count c).edit c) := by
        rw [terminalInput, if_pos hdel, if_pos hc, if_pos hzero]
      rw [hinput, hstate, hreceived]
      refine ⟨rfl, fun a ha => ?_⟩
      rcases List.mem_append.mp ha with ha | ha
      · exact .inl ⟨c, List.mem_singleton.mp ha⟩
      · exact .inr ha
    · have hone : t.discardChar - 1 = 0 := by omega
      have hreceived : t.received c = upKeyChar := if_pos ⟨hdel, hzero⟩
      have hinput : t.terminalInput c = ({ t with discardChar := 0 }.count upKeyChar).edit upKeyChar := by
        rw [terminalInput, if_pos hdel, if_pos hc, if_neg hzero]
        simp only [hone, if_true]
      have hstate : t.counting c = { t with discardChar := 0 }.count upKeyChar := by
        rw [counting, hreceived, if_neg hdel]
        rfl
      rw [hinput, hstate, hreceived]
      exact ⟨rfl, fun a ha => .inr ha⟩

end Terminal

end Brtos
