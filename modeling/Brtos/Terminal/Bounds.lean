import Brtos.Lib.Run
import Brtos.Terminal.Input

/-!
# Brtos.Terminal.Bounds

**The buffers of the terminal.** The last two cells of `term_in` are NUL between two
characters (`Ended`): what is typed stops before them, the deletions write NULs, and the
last line is short enough to be copied with both of its NULs. With them every scan of the line
ends in the buffer, the one for two NULs too, and so the history stays short (`TermInv.step`).

Nothing bounds the number of arguments: a line of more than six words is written beyond
the end of `argv` (`terminal_bounds_iff`).
-/

namespace Brtos

open Logged Words

/-- A buffer that ends in two NULs. -/
structure Ended (buf : List UInt8) : Prop where
  length : buf.length = termInputBufsize
  first : buf.getD 30 0 = 0
  second : buf.getD 31 0 = 0

variable {buf xs zs h : List UInt8} {t u : Terminal} {c : UInt8} {k : Commands}

namespace Ended

theorem set (he : Ended buf) {i : Nat} {x : UInt8} (hx : i < 30 ∨ x = 0) : Ended (buf.set i x) := by
  have hget : ∀ j, 30 ≤ j → buf.getD j 0 = 0 → (buf.set i x).getD j 0 = 0 := by
    intro j hj h0
    rw [List.getD_eq_getElem?_getD] at h0 ⊢
    by_cases hij : i = j
    · subst hij
      rw [List.getElem?_set_self']
      cases hb : buf[i]? with
      | none => rfl
      | some y => exact hx.resolve_left (by omega)
    · rwa [List.getElem?_set_ne hij]
  exact ⟨by rw [List.length_set, he.length], hget 30 le_rfl he.first, hget 31 (by omega) he.second⟩

theorem zeros : Ended (List.replicate termInputBufsize 0) := ⟨rfl, rfl, rfl⟩

/-- A line that was copied with its two NULs. -/
theorem recalled (he : Ended buf) (hlen : h.length ≤ 30) :
    Ended (h ++ 0 :: 0 :: buf.drop (h.length + 2)) := by
  have hcell : ∀ j, 30 ≤ j → buf.getD j 0 = 0 →
      (h ++ 0 :: 0 :: buf.drop (h.length + 2)).getD j 0 = 0 := by
    intro j hj h0
    rw [List.getD_append_right _ _ _ _ (hlen.trans hj)]
    obtain hj' | hj' | hj' : j - h.length = 0 ∨ j - h.length = 1 ∨ 2 ≤ j - h.length := by omega
    · rw [hj']
      rfl
    · rw [hj']
      rfl
    · obtain ⟨m, hm⟩ := Nat.exists_eq_add_of_le hj'
      have hjm : h.length + 2 + m = j := by omega
      rw [List.getD_eq_getElem?_getD] at h0 ⊢
      rw [hm, Nat.add_comm 2 m]
      show (buf.drop (h.length + 2))[m]?.getD 0 = 0
      rwa [List.getElem?_drop, hjm]
  refine ⟨?_, hcell 30 le_rfl he.first, hcell 31 (by omega) he.second⟩
  have hbuf : buf.length = 32 := he.length
  show _ = 32
  simp
  omega

/-- The line in such a buffer. -/
theorem holds (he : Ended buf) : ∃ zs, Holds buf (buf.takeWhile (· ≠ 0)) zs := by
  have hnul : 0 ∈ buf := by
    have hlen : 30 < buf.length := he.length ▸ by decide
    have h30 := he.first
    rw [List.getD_eq_getElem _ _ hlen] at h30
    exact h30 ▸ List.getElem_mem hlen
  have hrest : (buf.dropWhile (· ≠ 0)).head? = some 0 := by
    have hstop := List.head?_dropWhile_not (fun x : UInt8 => decide (x ≠ 0)) buf
    cases hd : buf.dropWhile (· ≠ 0) with
    | nil =>
        have hall := List.dropWhile_eq_nil_iff.mp hd 0 hnul
        simp at hall
    | cons y ys =>
        rw [hd] at hstop
        simpa using hstop
  obtain ⟨zs, hzs⟩ := List.head?_eq_some_iff.mp hrest
  refine ⟨zs, ⟨?_, fun h0 => by simpa using List.mem_takeWhile_imp h0⟩, he.length⟩
  rw [List.nil_append, ← hzs]
  exact List.takeWhile_append_dropWhile.symm

theorem length_le (he : Ended buf) (hh : Holds buf xs zs) : xs.length ≤ 30 := by
  by_contra hlong
  have hlt := hh.length_lt
  have heq : buf = xs ++ 0 :: zs := hh.line.eq
  have h30 : 30 < xs.length := by omega
  have hcell := he.first
  rw [heq, List.getD_append _ _ _ _ h30, List.getD_eq_getElem _ _ h30] at hcell
  exact hh.line.noNul (hcell ▸ List.getElem_mem h30)

/-- The two NULs are still there when `strtok` has cut the line. -/
theorem cut (he : Ended buf) (hh : Holds buf xs zs) : Ended (cut isSeparator 0 false xs ++ 0 :: zs) := by
  have heq : buf = xs ++ 0 :: zs := hh.line.eq
  have hlen := he.length_le hh
  have hcell : ∀ j, 30 ≤ j → buf.getD j 0 = 0 →
      (Words.cut isSeparator 0 false xs ++ 0 :: zs).getD j 0 = 0 := by
    intro j hj h0
    rw [heq, List.getD_append_right _ _ _ _ (hlen.trans hj)] at h0
    rwa [List.getD_append_right _ _ _ _ (by rw [length_cut]; exact hlen.trans hj), length_cut]
  refine ⟨?_, hcell 30 le_rfl he.first, hcell 31 (by omega) he.second⟩
  rw [← he.length, heq, List.length_append, List.length_append, length_cut]

end Ended

/-! ### The invariant -/

/-- The terminal between two characters. -/
structure TermInv (t : Terminal) : Prop where
  ended : Ended t.termIn
  idx_le : t.termInIdx ≤ 30
  discard_le : t.discardChar ≤ 1
  history : ∃ h, t.Remembers h ∧ h.length ≤ 30

theorem TermInv.start : TermInv .start where
  ended := .zeros
  idx_le := Nat.zero_le _
  discard_le := Nat.zero_le _
  history := ⟨[], ⟨⟨List.replicate 31 0, ⟨rfl, List.not_mem_nil⟩, rfl⟩, rfl⟩, Nat.zero_le _⟩

/-- An access within the two buffers, or a character that is printed. -/
def TermAccess.InBuffers : TermAccess → Prop
  | .termIn i => i < termInputBufsize
  | .lastTermIn i => i < termInputBufsize
  | .put _ => True
  | _ => False

/-- What is typed so far. -/
def Terminal.line (t : Terminal) : List UInt8 := (t.termIn.take t.termInIdx).takeWhile (· ≠ 0)

/-- The character completes the line: `CR`, `LF`, or one for the last cell. -/
def Terminal.Completes (t : Terminal) (c : UInt8) : Prop :=
  t.received c ≠ upKeyChar ∧ 0 ≤ t.counted c ∧ (c = 8 ∨ c = 0x7F → t.termInIdx = 0) ∧
    (c = 10 ∨ c = 13 ∨ t.termInIdx = termInputBufsize - 2)

/-- `u` is `t` with its line completed. -/
structure Ready (t u : Terminal) : Prop where
  termIn : u.termIn = t.termIn.set t.termInIdx 0
  lastTermIn : u.lastTermIn = t.lastTermIn
  cpi : u.cpi = t.cpi
  discard_le : u.discardChar ≤ 1

theorem Terminal.Remembers.congr (hr : t.Remembers h) (hlast : u.lastTermIn = t.lastTermIn)
    (hcpi : u.cpi = t.cpi) : u.Remembers h :=
  ⟨hlast ▸ hr.holds, hcpi.trans hr.cpi⟩

/-- An edit that does not complete the line. -/
theorem TermInv.edited (hi : TermInv t) (hr : t.Remembers h) (hlen : h.length ≤ 30)
    (he : t.Edited h c u false) : TermInv u := by
  have hsize : termInputBufsize - 2 = 30 := rfl
  have hidx := hi.idx_le
  cases he with
  | ignored => exact hi
  | erased =>
      have hle : t.termInIdx - 1 ≤ 30 := by omega
      exact ⟨hi.ended.set (.inr rfl), hle, hi.discard_le, ⟨h, hr.congr rfl rfl, hlen⟩⟩
  | recalled =>
      unfold Terminal.recalled
      split
      · exact ⟨hi.ended, Nat.zero_le _, hi.discard_le, ⟨h, hr.congr rfl rfl, hlen⟩⟩
      · exact ⟨hi.ended.recalled hlen, hlen, hi.discard_le, ⟨h, hr.congr rfl rfl, hlen⟩⟩
  | stored _ _ _ hgo =>
      have hlt : t.termInIdx < 30 := by omega
      exact ⟨hi.ended.set (.inl hlt), hlt, hi.discard_le, ⟨h, hr.congr rfl rfl, hlen⟩⟩

theorem TermInv.counting (hi : TermInv t) (c : UInt8) : TermInv (t.counting c) := by
  obtain ⟨h, hr, hlen⟩ := hi.history
  refine ⟨hi.ended, hi.idx_le, ?_, ⟨h, hr.congr rfl rfl, hlen⟩⟩
  show (if c = 0x7F then t.discardChar else 0) ≤ 1
  split
  · exact hi.discard_le
  · exact Nat.zero_le 1

/-- **One character**: either the terminal is again between two characters, or its line is
complete. -/
theorem TermInv.input (hi : TermInv t) (c : UInt8) :
    ((t.terminalInput c).value.2 = false ∧ ¬ t.Completes c ∧
      TermInv (t.terminalInput c).value.1) ∨
    ((t.terminalInput c).value.2 = true ∧ t.Completes c ∧ Ready t (t.terminalInput c).value.1) := by
  obtain ⟨h, hr, hlen⟩ := hi.history
  by_cases hup : c = upKeyChar
  · subst hup
    rw [Terminal.terminalInput_up]
    refine .inl ⟨rfl, fun hc => hc.1 ?_, hi.ended, hi.idx_le, le_rfl, ⟨h, hr.congr rfl rfl, hlen⟩⟩
    exact ite_self _
  · have hcounting := hi.counting c
    have hsize : h.length + 2 ≤ termInputBufsize := Nat.add_le_add_right hlen 2
    have hr' : (t.counting c).Remembers h := hr.congr rfl rfl
    have he := Terminal.edit_edited (c := t.received c) hcounting.ended.length hr' hsize
    rw [(Terminal.terminalInput_edit hi.discard_le hup).1]
    have hreceived : t.received c ≠ upKeyChar → t.received c = c := by
      unfold Terminal.received
      split
      · exact fun hne => absurd rfl hne
      · exact fun _ => rfl
    have hcounted : (t.counting c).termTmpIdx = t.counted (t.received c) := rfl
    generalize ((t.counting c).edit (t.received c)).value.1 = v at he ⊢
    generalize ((t.counting c).edit (t.received c)).value.2 = b at he ⊢
    cases b with
    | false =>
        refine .inl ⟨rfl, fun hc => ?_, hcounting.edited hr' hlen he⟩
        obtain ⟨hne, htmp, hdel, hdone⟩ := hc
        rw [hreceived hne] at he hcounted
        cases he with
        | ignored hneg => omega
        | erased _ hc hidx => exact absurd (hdel hc) hidx.ne'
        | recalled _ hc => exact hup hc
        | stored _ _ _ hgo => exact hgo hdone
    | true =>
        cases he with
        | completed htmp hdel hne hdone =>
            rw [hreceived hne] at hdel hdone hcounted
            refine .inr ⟨rfl, ⟨hne, hcounted ▸ htmp, hdel, hdone⟩, rfl, rfl, rfl, hcounting.discard_le⟩

/-! ### What is touched -/

theorem TermInv.recallLine_log (hi : TermInv t) : t.recallLine.All TermAccess.InBuffers := by
  obtain ⟨h, hr, hlen⟩ := hi.history
  have hcpi : t.cpi ≤ 30 := hr.cpi ▸ hlen
  have hcell : ∀ i ∈ List.range (t.cpi + 1), i < termInputBufsize := by
    intro i hmem
    have hlt := List.mem_range.mp hmem
    exact hlt.trans_le (Nat.le_succ_of_le (Nat.succ_le_succ hcpi))
  refine all_bind.mpr ⟨all_forM fun _ _ => all_note.mpr trivial, all_bind.mpr ⟨?_, ?_⟩⟩
  · exact all_note.mpr (show 0 < termInputBufsize by decide)
  · refine all_ite (fun _ => all_bind.mpr ⟨?_, all_bind.mpr ⟨?_, all_bind.mpr ⟨?_, all_pure _⟩⟩⟩)
      fun _ => all_pure _
    · exact all_forM fun i hmem =>
        all_bind.mpr ⟨all_note.mpr (hcell i hmem), all_note.mpr trivial⟩
    · refine all_foldlM (I := fun _ => True) trivial fun buf i hmem _ => ⟨?_, trivial⟩
      exact all_bind.mpr ⟨all_note.mpr (hcell i hmem), all_note.mpr (hcell i hmem)⟩
    · exact all_note.mpr (show t.cpi + 1 < termInputBufsize from Nat.succ_lt_succ (Nat.lt_succ_of_le hcpi))

theorem TermInv.edit_log (hi : TermInv t) (c : UInt8) : (t.edit c).All TermAccess.InBuffers := by
  have hidx : t.termInIdx < termInputBufsize := hi.idx_le.trans_lt (by decide)
  refine all_ite (fun _ => all_ite (fun _ => ?_) fun _ => all_ite (fun _ => hi.recallLine_log) fun _ => ?_)
    fun _ => all_pure _
  · exact all_bind.mpr ⟨all_note.mpr hidx, all_pure _⟩
  · refine all_bind.mpr ⟨all_note.mpr hidx, all_ite (fun _ => all_bind.mpr ⟨?_, all_pure _⟩) fun _ =>
      all_pure _⟩
    exact all_note.mpr (show t.termInIdx + 1 - 1 < termInputBufsize from hidx)

/-- `terminal_input` touches the two buffers. -/
theorem TermInv.input_log (hi : TermInv t) (c : UInt8) :
    (t.terminalInput c).All TermAccess.InBuffers := by
  by_cases hup : c = upKeyChar
  · subst hup
    exact all_pure _
  · intro a ha
    rcases (Terminal.terminalInput_edit hi.discard_le hup).2 a ha with ⟨x, rfl⟩ | ha
    · trivial
    · exact (hi.counting c).edit_log _ a ha

/-- The search for a command and its call read the table. -/
theorem dispatch_cmds {arg : CString} : (k.dispatch arg).All fun a => ∃ i, a = .cmds i := by
  have hsearch : ∀ fuel inf sup, (k.searchStatic arg fuel inf sup).All fun a => ∃ i, a = .cmds i := by
    intro fuel
    induction fuel with
    | zero => exact fun _ _ => all_pure _
    | succ fuel ih =>
        intro inf sup
        refine all_ite (fun _ => all_bind.mpr ⟨all_note.mpr ⟨_, rfl⟩, ?_⟩) fun _ => all_pure _
        refine all_ite (fun _ => ih _ _) fun _ => all_bind.mpr ⟨all_note.mpr ⟨_, rfl⟩, ?_⟩
        exact all_ite (fun _ => ih _ _) fun _ => all_pure _
  refine all_bind.mpr ⟨all_bind.mpr ⟨hsearch 256 _ _, ?_⟩, ?_⟩
  · split <;> exact all_pure _
  · split
    · exact all_pure _
    · exact all_ite (fun _ => all_note.mpr ⟨_, rfl⟩) fun _ => all_pure _

/-- `terminal_process` writes one element of `argv` for each word. -/
theorem process_argv_iff (hh : Holds t.termIn xs zs) {j : Nat} :
    .argv j ∈ (t.terminalProcess k).log ↔ j < count isSeparator xs := by
  have hread : .argv j ∉ (readTermIn 0 (t.termIn.takeWhile isBlank).length).log := fun hmem => by
    obtain ⟨i, hi, -⟩ := readTermIn_log _ hmem
    cases hi
  have hafter : .argv j ∉ (t.afterTokens k xs zs).log := fun hmem => by
    unfold Terminal.afterTokens at hmem
    split at hmem
    · cases hmem
    · rcases List.mem_append.mp hmem with hmem | hmem
      · obtain ⟨i, hi⟩ := dispatch_cmds _ hmem
        cases hi
      · rcases List.mem_append.mp hmem with hmem | hmem
        · rcases copyLast_log _ hmem with ⟨i, hi, -⟩ | ⟨i, hi, -⟩ <;> cases hi
        · simp at hmem
  rw [terminalProcess_eq hh, log_bind, log_bind, List.mem_append, List.mem_append]
  simp only [hread, hh.argv_iff, hafter, false_or, or_false]

/-- The text up to the two NULs leaves room for them. -/
theorem Ended.length_untilNuls (he : Ended buf) : (untilNuls buf).length ≤ 30 :=
  length_untilNuls_le he.first he.second

/-- The copy of the line stays within the two buffers. -/
theorem execute_log (he : Ended buf) (hlast : t.lastTermIn.length = termInputBufsize) {arg : Nat} :
    (t.execute k buf arg).All fun a => a.InBuffers ∨ ∃ i, a = .cmds i := by
  have hlen := he.length_untilNuls
  have hcpi := congrArg Prod.snd (copyLast_start hlast (hlen.trans_lt (by decide)))
  have hlt : (untilNuls buf).length + 1 < termInputBufsize := Nat.lt_succ_of_le (Nat.succ_le_succ hlen)
  refine all_bind.mpr ⟨fun a ha => .inr (dispatch_cmds a ha), all_bind.mpr ⟨fun a ha => .inl ?_, ?_⟩⟩
  · have htouch := copyLast_log a ha
    rw [List.drop_zero, Nat.zero_add] at htouch
    rcases htouch with ⟨i, rfl, hi⟩ | ⟨i, rfl, hi⟩
    · exact hi.trans_lt hlt
    · exact hi.trans (Nat.lt_of_succ_lt hlt)
  · refine all_bind.mpr ⟨all_note.mpr (.inl ?_), all_pure _⟩
    show (copyLast buf (termInputBufsize + 1) t.lastTermIn 0).value.2 < termInputBufsize
    rw [hcpi]
    exact Nat.lt_of_succ_lt hlt

/-- `terminal_process` stays within the two buffers. -/
theorem process_log (he : Ended t.termIn) (hh : Holds t.termIn xs zs)
    (hlast : t.lastTermIn.length = termInputBufsize) :
    (t.terminalProcess k).All fun a => a.InBuffers ∨ (∃ i, a = .cmds i) ∨ ∃ j, a = .argv j := by
  have hlt := hh.length_lt
  rw [terminalProcess_eq hh]
  refine all_bind.mpr ⟨fun a ha => .inl ?_, all_bind.mpr ⟨fun a ha => ?_, ?_⟩⟩
  · obtain ⟨i, rfl, hi⟩ := readTermIn_log a ha
    have hskip := @Holds.length_skip xs
    rw [hh.skip.1] at hi
    show i < termInputBufsize
    omega
  · rcases hh.log a ha with ⟨i, rfl, hi⟩ | ⟨j, rfl⟩
    · exact .inl (hi.trans_lt hlt)
    · exact .inr (.inr ⟨j, rfl⟩)
  · unfold Terminal.afterTokens
    split
    · exact all_pure _
    · intro a ha
      exact (execute_log (he.cut hh) hlast a ha).imp_right .inl

/-- After `terminal_process` the terminal is at the beginning of a line. -/
theorem process_inv (he : Ended t.termIn) (hh : Holds t.termIn xs zs) (hr : t.Remembers h)
    (hlen : h.length ≤ 30) (hd : t.discardChar ≤ 1) :
    TermInv (t.terminalProcess k).value.1 ∧ (t.terminalProcess k).value.1.termInIdx = 0 := by
  obtain ⟨hz, hlast⟩ := hr.holds
  rw [terminalProcess_eq hh]
  simp only [value_bind, Terminal.afterTokens]
  split
  · exact ⟨⟨.zeros, Nat.zero_le _, hd, ⟨h, hr.congr rfl rfl, hlen⟩⟩, rfl⟩
  · rename_i arg args _
    have hcut := (he.cut hh).length_untilNuls
    have hkept := @execute_remembers _ t k arg hlast.length (hcut.trans_lt (by decide))
    refine ⟨⟨.zeros, Nat.zero_le _, hd, ⟨_, hkept, ?_⟩⟩, rfl⟩
    rwa [List.length_map]

/-! ### Every step -/

/-- What a step promises of the buffers: what is touched is inside them, `term_in` ends in NUL
when it is processed, and then the cursor goes back to the beginning. -/
structure StepSafe (u : Terminal) (o : TermShown) : Prop where
  termIn : ∀ i, .termIn i ∈ o.accesses → i < termInputBufsize
  lastTermIn : ∀ i, .lastTermIn i ∈ o.accesses → i < termInputBufsize
  argv : ∀ i, .argv i ∈ o.accesses → i < termArgsMaxCount
  terminated : ∀ line, o.line = some line → 0 ∈ line
  rewound : o.line ≠ none → u.termInIdx = 0

/-- The next character does what `StepSafe` promises. -/
def Terminal.Safe (k : Commands) (t : Terminal) (c : UInt8) : Prop :=
  ∀ u o, t.step k c = some (u, o) → StepSafe u o

/-- The line that the character completes, if it completes one, has no more words than `argv`
has elements. -/
def Terminal.FitsArgv (t : Terminal) (c : UInt8) : Prop :=
  t.Completes c → Words.count isSeparator t.line ≤ termArgsMaxCount

/-- The line of a terminal whose line is complete. -/
theorem Ready.holds (hready : Ready t u) (hi : TermInv t) :
    Ended u.termIn ∧ ∃ zs, Holds u.termIn t.line zs := by
  have he : Ended u.termIn := hready.termIn ▸ hi.ended.set (.inr rfl)
  refine ⟨he, ?_⟩
  obtain ⟨zs, hzs⟩ := he.holds
  have hidx : t.termInIdx < t.termIn.length := hi.idx_le.trans_lt (hi.ended.length ▸ by decide)
  have hline : u.termIn.takeWhile (· ≠ 0) = t.line := by
    rw [hready.termIn, List.set_eq_take_append_cons_drop, if_pos hidx]
    exact takeWhile_nul (by decide)
  exact ⟨zs, hline ▸ hzs⟩

/-- A character that leaves the line incomplete. -/
theorem step_editing (hinput : (t.terminalInput c).value.2 = false) : t.step k c =
    some ((t.terminalInput c).value.1, ⟨(t.terminalInput c).log, none, none⟩) := by
  simp [Terminal.step, hinput]

/-- A character that completes the line. -/
theorem step_processing (hinput : (t.terminalInput c).value.2 = true) : t.step k c =
    some (((t.terminalInput c).value.1.terminalProcess k).value.1,
      ⟨(t.terminalInput c).log ++ ((t.terminalInput c).value.1.terminalProcess k).log,
        some (t.terminalInput c).value.1.termIn,
        ((t.terminalInput c).value.1.terminalProcess k).value.2⟩) := by
  simp [Terminal.step, hinput]

theorem step_total (t : Terminal) (c : UInt8) : ∃ q, t.step k c = some q := by
  cases hinput : (t.terminalInput c).value.2 with
  | false => exact ⟨_, step_editing hinput⟩
  | true => exact ⟨_, step_processing hinput⟩

theorem step_unique {v : Terminal} {o o' : TermShown} (h : t.step k c = some (v, o'))
    (h' : t.step k c = some (u, o)) : v = u ∧ o' = o :=
  Prod.mk.inj (Option.some.inj (h.symm.trans h'))

/-- **Step lemma.** The invariant is kept, and the step is safe unless the line has too many
words. -/
theorem TermInv.step (hi : TermInv t) {o : TermShown} (hstep : t.step k c = some (u, o)) :
    TermInv u ∧ (StepSafe u o ↔ t.FitsArgv c) := by
  have hlog := hi.input_log c
  rcases hi.input c with ⟨hinput, hno, hu⟩ | ⟨hinput, hdone, hready⟩
  · obtain ⟨rfl, rfl⟩ := step_unique (step_editing hinput) hstep
    refine ⟨hu, iff_of_true ?_ fun hc => absurd hc hno⟩
    exact ⟨fun i ha => hlog _ ha, fun i ha => hlog _ ha, fun i ha => (hlog _ ha).elim,
      fun _ hnone => (Option.some_ne_none _ hnone.symm).elim, fun hnone => absurd rfl hnone⟩
  · obtain ⟨rfl, rfl⟩ := step_unique (step_processing hinput) hstep
    obtain ⟨h, hr, hlen⟩ := hi.history
    obtain ⟨he, zs, hh⟩ := hready.holds hi
    have hr' := hr.congr hready.lastTermIn hready.cpi
    obtain ⟨hinv, hidx⟩ := process_inv (k := k) he hh hr' hlen hready.discard_le
    have hplog := process_log (k := k) he hh hr'.holds.choose_spec.length
    refine ⟨hinv, ?_⟩
    constructor
    · -- the element of `argv` for the seventh word
      intro hsafe _
      by_contra hmany
      have hwritten := (process_argv_iff (k := k) hh).mpr (not_le.mp hmany)
      exact absurd (hsafe.argv _ (List.mem_append_right _ hwritten)) (lt_irrefl _)
    · intro hfew
      constructor
      case termIn =>
        intro i ha
        rcases List.mem_append.mp ha with ha | ha
        · exact hlog _ ha
        · rcases hplog _ ha with hin | ⟨j, hj⟩ | ⟨j, hj⟩
          · exact hin
          · cases hj
          · cases hj
      case lastTermIn =>
        intro i ha
        rcases List.mem_append.mp ha with ha | ha
        · exact hlog _ ha
        · rcases hplog _ ha with hin | ⟨j, hj⟩ | ⟨j, hj⟩
          · exact hin
          · cases hj
          · cases hj
      case argv =>
        intro i ha
        rcases List.mem_append.mp ha with ha | ha
        · exact (hlog _ ha).elim
        · exact ((process_argv_iff hh).mp ha).trans_le (hfew hdone)
      case terminated =>
        intro line hline
        obtain rfl := Option.some.inj hline
        rw [hh.line.eq]
        simp
      case rewound => exact fun _ => hidx

theorem TermInv.safe_iff (hi : TermInv t) : t.Safe k c ↔ t.FitsArgv c := by
  obtain ⟨⟨u, o⟩, hstep⟩ := step_total (k := k) t c
  constructor
  · exact fun hsafe => (hi.step hstep).2.mp (hsafe u o hstep)
  · exact fun hfits u o hs => (hi.step hs).2.mpr hfits

/-- **The buffers of the terminal.** Whatever is typed, with any commands: no character touches
anything outside the buffers and outside `argv`, `term_in` ends in NUL whenever it is processed
and the cursor goes back, exactly when no line that is completed has more than six words. -/
theorem terminal_bounds_iff (k : Commands) (cs : List UInt8) :
    let tr := Run.traceOf (Terminal.step k) .start cs
    let t := Run.after (Terminal.step k) .start cs
    tr.map Prod.fst = cs ∧
      (Run (Terminal.step k) (Terminal.Safe k) .start tr t ↔
        Run (Terminal.step k) Terminal.FitsArgv .start tr t) := by
  refine ⟨Run.map_fst_traceOf step_total cs .start, ?_⟩
  refine Run.guard_iff TermInv.start ?_ ?_
  · exact fun t c hi => hi.safe_iff
  · exact fun t c u o hi hs => (hi.step hs).1

/-- The commands of `terminal_cfg.h`. -/
def shellCommands : Commands := ⟨commandTable, .empty⟩

/-- `a b c d e f g`. -/
def sevenWords : List UInt8 := [97, 32, 98, 32, 99, 32, 100, 32, 101, 32, 102, 32, 103]

/-- The seventh word is written beyond the end of `argv`. -/
theorem seven_words_overrun :
    let t := Run.after (Terminal.step shellCommands) .start sevenWords
    Run (Terminal.step shellCommands) (fun _ _ => True) .start
        (Run.traceOf (Terminal.step shellCommands) .start sevenWords) t ∧
      ∃ u o, t.step shellCommands 13 = some (u, o) ∧ .argv 6 ∈ o.accesses ∧ ¬ StepSafe u o := by
  refine ⟨Run.of_admits (by decide +kernel), _, _, step_processing (by decide +kernel),
    by decide +kernel, fun h => ?_⟩
  exact absurd (h.argv 6 (by decide +kernel)) (by decide)

instance : Decidable (t.Completes c) :=
  inferInstanceAs (Decidable (_ ∧ _ ∧ _ ∧ _))

instance : Decidable (t.FitsArgv c) :=
  inferInstanceAs (Decidable (_ → _))

/-- Six words are not too many. -/
theorem terminal_bounds_iff_six :
    let cs := sevenWords.take 11 ++ [13]
    Run (Terminal.step shellCommands) (Terminal.Safe shellCommands) .start
      (Run.traceOf (Terminal.step shellCommands) .start cs)
      (Run.after (Terminal.step shellCommands) .start cs) := by
  intro cs
  exact (terminal_bounds_iff shellCommands cs).2.mpr (Run.of_admits (by decide +kernel))

end Brtos
