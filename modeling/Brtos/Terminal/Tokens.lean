import Brtos.Lib.Words
import Brtos.Terminal.Model

/-!
# Brtos.Terminal.Tokens

**`strtok` on the line.** The calls of `strtok` in `terminal_process` read the line once from
the left: they return where its words begin and overwrite the separator behind each of them
(`tokenise_eq`). What they touch is the line and its NUL, and one element of `argv` for each
word (`tokenise_termIn_le`, `tokenise_argv_iff`).
-/

namespace Brtos

open Logged Words

variable {pre xs zs s w ys : List UInt8} {fuel argc p n : Nat}

theorem isSeparator_zero : isSeparator 0 = false := by decide

theorem log_readTermIn : (readTermIn p n).log = (List.range' p (n + 1)).map .termIn := by
  unfold readTermIn
  generalize List.range' p (n + 1) = is
  induction is with
  | nil => rfl
  | cons i is ih =>
      show [TermAccess.termIn i] ++ (is.forM fun i => note (.termIn i) ()).log = _
      rw [ih]
      rfl

theorem readTermIn_log : (readTermIn p n).All fun a => ∃ i, a = .termIn i ∧ i ≤ p + n := by
  intro a ha
  rw [log_readTermIn] at ha
  obtain ⟨i, hi, rfl⟩ := List.mem_map.mp ha
  exact ⟨i, rfl, Nat.le_of_lt_succ (List.mem_range'_1.mp hi).2⟩

theorem isArgChar_iff {c : UInt8} : isArgChar c = true ↔ c ≠ 0 ∧ isSeparator c = false := by
  simp [isArgChar]

/-- What stands in the way of `takeWhile` ends it. -/
theorem takeWhile_append_stop {f : UInt8 → Bool} {x : UInt8} (hs : ∀ y ∈ s, f y = true)
    (hx : f x = false) : (s ++ x :: zs).takeWhile f = s := by
  rw [List.takeWhile_append_of_pos hs, List.takeWhile_cons_of_neg (by simp [hx]), List.append_nil]

theorem takeWhile_nul {f : UInt8 → Bool} (h0 : f 0 = false) :
    (xs ++ 0 :: zs).takeWhile f = xs.takeWhile f := by
  induction xs with
  | nil => simp [h0]
  | cons x xs ih => simp only [List.cons_append, List.takeWhile_cons, ih]

/-- A line without NUL, its NUL, and what is behind it in the buffer. -/
structure LineAt (buf pre xs zs : List UInt8) : Prop where
  eq : buf = pre ++ (xs ++ 0 :: zs)
  noNul : 0 ∉ xs

namespace LineAt

variable {buf : List UInt8}

theorem drop (h : LineAt buf pre xs zs) : buf.drop pre.length = xs ++ 0 :: zs := by
  rw [h.eq, List.drop_left]

/-- The rest of a line is a line. -/
theorem rest (h : LineAt buf pre (s ++ ys) zs) : LineAt buf (pre ++ s) ys zs where
  eq := by rw [h.eq, List.append_assoc, List.append_assoc]
  noNul hmem := h.noNul (List.mem_append_right s hmem)

theorem skipped (h : LineAt buf pre xs zs) (hs : Split isSeparator xs s w ys) :
    (buf.drop pre.length).takeWhile isSeparator = s := by
  rw [h.drop, hs.eq]
  cases hw : w with
  | nil =>
      rw [hs.nil hw, List.append_nil, List.append_nil]
      exact takeWhile_append_stop hs.seps isSeparator_zero
  | cons c w' =>
      rw [List.cons_append, List.append_assoc, List.cons_append]
      exact takeWhile_append_stop hs.seps (hs.word c (hw ▸ List.mem_cons_self))

theorem word (h : LineAt buf pre xs zs) (hs : Split isSeparator xs s w ys) :
    (buf.drop (pre.length + s.length)).takeWhile isArgChar = w := by
  have hrest : LineAt buf (pre ++ s) (w ++ ys) zs := rest ⟨hs.eq ▸ h.eq, hs.eq ▸ h.noNul⟩
  have hw : ∀ c ∈ w, isArgChar c = true := by
    intro c hc
    refine isArgChar_iff.mpr ⟨?_, hs.word c hc⟩
    rintro rfl
    exact hrest.noNul (List.mem_append_left ys hc)
  rw [← List.length_append, hrest.drop, List.append_assoc]
  cases hys : ys with
  | nil => exact takeWhile_append_stop hw (by decide)
  | cons y ys' =>
      have hy : isSeparator y = true := (hs.behind y (by rw [hys]; rfl)).2
      exact takeWhile_append_stop hw (by simp [isArgChar, hy])

/-- The cell behind the word. -/
theorem stop (h : LineAt buf pre xs zs) (hs : Split isSeparator xs s w ys) :
    buf = (pre ++ s ++ w) ++ (ys ++ 0 :: zs) := by
  rw [h.eq, hs.eq]
  simp only [List.append_assoc]

end LineAt

/-- What `strtok` finds in a line that has been taken apart. -/
theorem strtok_none {buf : List UInt8} (h : LineAt buf pre xs zs)
    (hs : Split isSeparator xs s w ys) (hw : w = []) :
    (strtok buf pre.length).value = (buf, none) := by
  simp only [strtok, h.skipped hs, h.word hs, hw, List.length_nil, if_true, value_bind, value_pure]

/-- The last word ends at the NUL of the line. -/
theorem strtok_last {buf : List UInt8} (h : LineAt buf pre xs zs)
    (hs : Split isSeparator xs s w []) (hw : w ≠ []) :
    (strtok buf pre.length).value =
      (buf, some (pre.length + s.length, (pre ++ s ++ w).length)) := by
  have hlen : w.length ≠ 0 := fun h => hw (List.length_eq_zero_iff.mp h)
  have hnul : buf.getD (pre ++ s ++ w).length 0 = 0 := by
    rw [h.stop hs]
    simp
  have hadd : pre.length + s.length + w.length = (pre ++ s ++ w).length := by
    simp only [List.length_append]
  simp only [strtok, h.skipped hs, h.word hs, value_bind, if_neg hlen, hadd, hnul, if_true,
    value_pure]

/-- Behind another word there is a separator, which becomes a NUL. -/
theorem strtok_next {buf : List UInt8} {y : UInt8} (h : LineAt buf pre xs zs)
    (hs : Split isSeparator xs s w (y :: ys)) :
    (strtok buf pre.length).value =
      ((pre ++ s ++ w ++ [0]) ++ (ys ++ 0 :: zs),
        some (pre.length + s.length, (pre ++ s ++ w ++ [0]).length)) := by
  obtain ⟨hw, hy⟩ := hs.behind y rfl
  have hlen : w.length ≠ 0 := fun h => hw (List.length_eq_zero_iff.mp h)
  have hy0 : y ≠ 0 := fun h0 => by
    rw [h0, isSeparator_zero] at hy
    cases hy
  have hsep : buf.getD (pre ++ s ++ w).length 0 ≠ 0 := by
    rw [h.stop hs]
    simpa using hy0
  have hset : buf.set (pre ++ s ++ w).length 0 = (pre ++ s ++ w ++ [0]) ++ (ys ++ 0 :: zs) := by
    rw [h.stop hs]
    simp
  have hadd : pre.length + s.length + w.length = (pre ++ s ++ w).length := by
    simp only [List.length_append]
  simp only [strtok, h.skipped hs, h.word hs, value_bind, if_neg hlen, hadd, if_neg hsep,
    value_note, hset]
  rw [@List.length_append _ _ [0]]
  rfl

/-- What `strtok` touches is the line from where it begins to its NUL. -/
theorem strtok_log {buf : List UInt8} (h : LineAt buf pre xs zs) :
    (strtok buf pre.length).All fun a => ∃ i, a = .termIn i ∧ i ≤ pre.length + xs.length := by
  have hs := Words.split isSeparator xs
  generalize xs.takeWhile isSeparator = s at hs
  generalize first isSeparator xs = w at hs
  have hlen : s.length + w.length ≤ xs.length := by
    rw [hs.eq, List.length_append, List.length_append]
    omega
  have hread : (readTermIn pre.length (s.length + w.length)).All fun a =>
      ∃ i, a = .termIn i ∧ i ≤ pre.length + xs.length := by
    intro a ha
    obtain ⟨i, rfl, hi⟩ := readTermIn_log a ha
    exact ⟨i, rfl, by omega⟩
  simp only [strtok, h.skipped hs, h.word hs, all_bind]
  refine ⟨hread, ?_⟩
  split
  · exact all_pure _
  · split
    · exact all_pure _
    · exact all_note.mpr ⟨_, rfl, by omega⟩

/-- One turn of the loop: `strtok` returns the next word, and from `pre'` on the line is
still to be read. -/
structure Turn (buf pre xs zs buf' pre' xs' : List UInt8) (first : Nat) : Prop where
  value : (strtok buf pre.length).value = (buf', some (first, pre'.length))
  line : LineAt buf' pre' xs' zs
  shorter : xs'.length < xs.length
  ends : pre'.length + xs'.length = pre.length + xs.length
  starts : starts isSeparator false pre.length xs =
    first :: starts isSeparator false pre'.length xs'
  cut : pre ++ (cut isSeparator 0 false xs ++ 0 :: zs) =
    pre' ++ (cut isSeparator 0 false xs' ++ 0 :: zs)

/-- Either there is no word left, or a turn of the loop finds it. -/
theorem strtok_turn {buf : List UInt8} (h : LineAt buf pre xs zs) :
    ((strtok buf pre.length).value = (buf, none) ∧ cut isSeparator 0 false xs = xs ∧
      starts isSeparator false pre.length xs = []) ∨
    ∃ buf' pre' xs' first, Turn buf pre xs zs buf' pre' xs' first := by
  have hs := Words.split isSeparator xs
  generalize xs.takeWhile isSeparator = s at hs
  generalize first isSeparator xs = w at hs
  generalize (xs.dropWhile isSeparator).dropWhile (fun x => !isSeparator x) = ys at hs
  by_cases hw : w = []
  · exact .inl ⟨strtok_none h hs hw, hs.cut_nil hw, hs.starts_nil hw⟩
  right
  have hlen := congrArg List.length hs.eq
  rw [List.length_append, List.length_append] at hlen
  have hpos := List.length_pos_iff.mpr hw
  cases ys with
  | nil =>
      -- the next call stands at the NUL
      refine ⟨_, pre ++ s ++ w, [], _, strtok_last h hs hw, ⟨h.stop hs, List.not_mem_nil⟩, ?_, ?_, ?_, ?_⟩
      · rw [List.length_nil]
        omega
      · rw [List.length_append, List.length_append]
        omega
      · rw [hs.starts_cons hw]
        rfl
      · rw [hs.cut_eq hw]
        simp [Words.cut]
  | cons y ys =>
      have hy := (hs.behind y rfl).2
      have hno : 0 ∉ ys := fun hmem => h.noNul (by rw [hs.eq]; simp [hmem])
      rw [List.length_cons] at hlen
      refine ⟨_, pre ++ s ++ w ++ [0], ys, _, strtok_next h hs, ⟨rfl, hno⟩, by omega, ?_, ?_, ?_⟩
      · simp only [List.length_append, List.length_cons, List.length_nil]
        omega
      · rw [hs.starts_cons hw]
        simp [Words.starts, hy, Nat.add_assoc]
      · rw [hs.cut_eq hw]
        simp [Words.cut, hy]

/-- **The arguments** of a line: where its words begin. The separators behind the words have
become NULs. -/
theorem tokenise_eq {buf : List UInt8} (h : LineAt buf pre xs zs) (hfuel : xs.length < fuel) :
    (tokenise fuel buf pre.length argc).value =
      (pre ++ (cut isSeparator 0 false xs ++ 0 :: zs), starts isSeparator false pre.length xs) := by
  induction fuel generalizing buf pre xs argc with
  | zero => cases hfuel
  | succ fuel ih =>
      rcases strtok_turn h with ⟨hv, hcut, hstarts⟩ | ⟨buf', pre', xs', first, ht⟩
      · simp only [tokenise, value_bind, hv, value_pure, hcut, hstarts, ← h.eq]
      · have hfuel' : xs'.length < fuel := ht.shorter.trans_le (Nat.le_of_lt_succ hfuel)
        simp only [tokenise, value_bind, ht.value, value_pure, ih ht.line hfuel', ht.starts, ht.cut]

/-- The elements of `argv` that are written: one for each word. -/
theorem tokenise_argv_iff {buf : List UInt8} (h : LineAt buf pre xs zs) (hfuel : xs.length < fuel)
    (hargc : argc + xs.length < 256) {j : Nat} :
    .argv j ∈ (tokenise fuel buf pre.length argc).log ↔
      argc ≤ j ∧ j < argc + (starts isSeparator false pre.length xs).length := by
  induction fuel generalizing buf pre xs argc with
  | zero => cases hfuel
  | succ fuel ih =>
      have hstrtok : .argv j ∉ (strtok buf pre.length).log := fun hmem => by
        obtain ⟨i, hi, -⟩ := strtok_log h _ hmem
        cases hi
      rcases strtok_turn h with ⟨hv, -, hstarts⟩ | ⟨buf', pre', xs', first, ht⟩
      · simp only [tokenise, log_bind, hv, log_pure, hstarts, List.append_nil, hstrtok, false_iff,
          List.length_nil]
        omega
      · have hfuel' : xs'.length < fuel := ht.shorter.trans_le (Nat.le_of_lt_succ hfuel)
        have hmod : (argc + 1) % 256 = argc + 1 := Nat.mod_eq_of_lt (by have := ht.shorter; omega)
        have hnext := @ih pre' xs' (argc + 1) buf' ht.line hfuel' (by have := ht.shorter; omega)
        simp only [tokenise, log_bind, ht.value, log_pure, log_note, List.append_nil,
          List.mem_append, hstrtok, false_or, hmod, hnext, List.mem_singleton, ht.starts,
          List.length_cons, TermAccess.argv.injEq]
        omega

/-- The cells that are touched: those of the line, and its NUL. -/
theorem tokenise_log {buf : List UInt8} (h : LineAt buf pre xs zs) (hfuel : xs.length < fuel) :
    (tokenise fuel buf pre.length argc).All fun a =>
      (∃ i, a = .termIn i ∧ i ≤ pre.length + xs.length) ∨ ∃ j, a = .argv j := by
  induction fuel generalizing buf pre xs argc with
  | zero => cases hfuel
  | succ fuel ih =>
      have hstrtok : (strtok buf pre.length).All fun a =>
          (∃ i, a = .termIn i ∧ i ≤ pre.length + xs.length) ∨ ∃ j, a = .argv j :=
        fun a ha => .inl (strtok_log h a ha)
      rcases strtok_turn h with ⟨hv, -, -⟩ | ⟨buf', pre', xs', first, ht⟩
      · rw [tokenise, all_bind, hv]
        exact ⟨hstrtok, all_pure _⟩
      · have hfuel' : xs'.length < fuel := ht.shorter.trans_le (Nat.le_of_lt_succ hfuel)
        have hnext := @ih pre' xs' ((argc + 1) % 256) buf' ht.line hfuel'
        rw [ht.ends] at hnext
        rw [tokenise, all_bind, ht.value]
        refine ⟨hstrtok, all_bind.mpr ⟨all_note.mpr (.inr ⟨argc, rfl⟩), all_bind.mpr ⟨hnext, ?_⟩⟩⟩
        exact all_pure _

/-! ### The arguments of a command -/

/-- A buffer as `terminal_process` finds it: the line `xs`, its NUL, and the rest. -/
structure Holds (buf xs zs : List UInt8) : Prop where
  line : LineAt buf [] xs zs
  length : buf.length = termInputBufsize

namespace Holds

variable {buf : List UInt8}

theorem length_lt (h : Holds buf xs zs) : xs.length < termInputBufsize := by
  rw [← h.length, h.line.eq]
  simp

/-- The blanks that `terminal_process` skips before it calls `strtok`. -/
theorem skip (h : Holds buf xs zs) :
    buf.takeWhile isBlank = xs.takeWhile isBlank ∧
      LineAt buf (xs.takeWhile isBlank) (xs.dropWhile isBlank) zs := by
  constructor
  · have hbuf : buf = xs ++ 0 :: zs := h.line.eq
    rw [hbuf]
    exact takeWhile_nul (by decide)
  · have hwhole : LineAt buf [] (xs.takeWhile isBlank ++ xs.dropWhile isBlank) zs := by
      rw [List.takeWhile_append_dropWhile]
      exact h.line
    exact hwhole.rest

theorem isSeparator_of_blank : ∀ c ∈ xs.takeWhile isBlank, isSeparator c = true := by
  intro c hc
  have hb : isBlank c = true := List.mem_takeWhile_imp hc
  simp only [isBlank, isSeparator, Bool.or_eq_true] at hb ⊢
  exact .inl (.inl hb)

theorem length_skip : (xs.takeWhile isBlank).length + (xs.dropWhile isBlank).length = xs.length := by
  rw [← List.length_append, List.takeWhile_append_dropWhile]

/-- The blanks are separators in front of the first word. -/
theorem starts_skip : starts isSeparator false (xs.takeWhile isBlank).length
    (xs.dropWhile isBlank) = starts isSeparator false 0 xs := by
  have hstarts : starts isSeparator false 0 (xs.takeWhile isBlank ++ xs.dropWhile isBlank) = _ :=
    starts_seps isSeparator_of_blank
  rw [List.takeWhile_append_dropWhile, Nat.zero_add] at hstarts
  exact hstarts.symm

theorem cut_skip : xs.takeWhile isBlank ++ cut isSeparator 0 false (xs.dropWhile isBlank) =
    cut isSeparator 0 false xs := by
  have hcut : cut isSeparator 0 false (xs.takeWhile isBlank ++ xs.dropWhile isBlank) = _ :=
    cut_seps isSeparator_of_blank
  rw [List.takeWhile_append_dropWhile] at hcut
  exact hcut.symm

/-- **The arguments**, from where `terminal_process` begins to read. -/
theorem tokenise (h : Holds buf xs zs) :
    (tokenise (termInputBufsize + 1) buf (buf.takeWhile isBlank).length 0).value =
      (cut isSeparator 0 false xs ++ 0 :: zs, starts isSeparator false 0 xs) := by
  obtain ⟨htake, hline⟩ := h.skip
  have hlt := h.length_lt
  have hlen := @length_skip xs
  rw [htake, tokenise_eq hline (by omega), starts_skip, ← List.append_assoc, cut_skip]

/-- One element of `argv` is written for each word. -/
theorem argv_iff (h : Holds buf xs zs) {j : Nat} :
    .argv j ∈ (Brtos.tokenise (termInputBufsize + 1) buf (buf.takeWhile isBlank).length 0).log ↔
      j < count isSeparator xs := by
  obtain ⟨htake, hline⟩ := h.skip
  have hlt := h.length_lt
  have hlen := @length_skip xs
  have hsize : termInputBufsize = 32 := rfl
  rw [htake, tokenise_argv_iff hline (by omega) (by omega), starts_skip, count, Nat.zero_add]
  exact and_iff_right (Nat.zero_le j)

/-- The cells that are touched: those of the line, and its NUL. -/
theorem log (h : Holds buf xs zs) :
    (Brtos.tokenise (termInputBufsize + 1) buf (buf.takeWhile isBlank).length 0).All fun a =>
      (∃ i, a = .termIn i ∧ i ≤ xs.length) ∨ ∃ j, a = .argv j := by
  obtain ⟨htake, hline⟩ := h.skip
  have hlt := h.length_lt
  have hlen := @length_skip xs
  have hlog : (Brtos.tokenise (termInputBufsize + 1) buf _ 0).All _ :=
    tokenise_log hline (by omega)
  rwa [hlen, ← htake] at hlog

/-- The first argument is the first word. -/
theorem stringAt_first (h : Holds buf xs zs) {a : Nat} {as : List Nat}
    (hstarts : starts isSeparator false 0 xs = a :: as) :
    (stringAt (cut isSeparator 0 false xs ++ 0 :: zs) a).chars = first isSeparator xs := by
  have hs := Words.split isSeparator xs
  generalize xs.takeWhile isSeparator = s at hs
  have hw : first isSeparator xs ≠ [] := fun hw => by
    rw [hs.starts_nil hw] at hstarts
    cases hstarts
  rw [hs.starts_cons hw, Nat.zero_add] at hstarts
  obtain rfl : s.length = a := (List.cons.inj hstarts).1
  have hword : ∀ c ∈ first isSeparator xs, (decide (c ≠ 0)) = true := by
    intro c hc
    refine decide_eq_true ?_
    rintro rfl
    exact h.line.noNul (hs.eq ▸ List.mem_append_right _ (List.mem_append_left _ hc))
  rw [hs.cut_eq hw]
  show (((s ++ (_ ++ _) ++ 0 :: zs).drop s.length).takeWhile _) = _
  rw [List.append_assoc, List.drop_left, List.append_assoc]
  -- behind the word there is a NUL, its own or that of the line
  cases hys : (xs.dropWhile isSeparator).dropWhile fun x => !isSeparator x with
  | nil => exact takeWhile_append_stop hword (by decide)
  | cons y ys =>
      have hy := (hs.behind y (by rw [hys]; rfl)).2
      simp only [cut, hy, if_true, List.cons_append]
      exact takeWhile_append_stop hword (by decide)

end Holds

/-! ### `terminal_process` -/

/-- What `terminal_process` does once the line has been cut into words. -/
def Terminal.afterTokens (k : Commands) (t : Terminal) (xs zs : List UInt8) :
    Logged TermAccess (Terminal × Option Called) :=
  match starts isSeparator false 0 xs with
  | [] => pure (t.flush, none)
  | arg :: _ => t.execute k (cut isSeparator 0 false xs ++ 0 :: zs) arg

variable {t : Terminal} {k : Commands}

theorem terminalProcess_eq (h : Holds t.termIn xs zs) : t.terminalProcess k = (do
    readTermIn 0 (t.termIn.takeWhile isBlank).length
    let _ ← tokenise (termInputBufsize + 1) t.termIn (t.termIn.takeWhile isBlank).length 0
    t.afterTokens k xs zs) := by
  have hvalue := h.tokenise
  unfold Terminal.terminalProcess Terminal.afterTokens
  dsimp only
  generalize Brtos.tokenise (termInputBufsize + 1) t.termIn _ 0 = x at hvalue ⊢
  obtain ⟨log, value⟩ := x
  obtain rfl : value = _ := hvalue
  cases starts isSeparator false 0 xs with
  | nil => rfl
  | cons arg args => rfl

end Brtos
