import Brtos.Lib.BinarySearch
import Brtos.Terminal.History
import Mathlib.Data.List.Induction

/-!
# Brtos.Terminal.Lookup

**Which command a line calls.** The static commands stand in a table in the order of `strcmp`,
the others in a list to which `terminal_add_cmd` appends. `search_cmd` looks a name up in both
and returns one number for either: an index of the table, or the place in the list counted on
from the end of the table.

The binary search is right for every table of up to 127 names (`searchStatic_eq`). But the
number is a `uint8_t`, and from the place on where it reaches 256 another command is called
(`command_lookup_iff`).
-/

namespace Brtos

open Logged SList Words

variable {k : Commands} {d : CmdList} {c : CString} {adds : List (Nat × CString)}

/-- The commands that have been added one by one: the handlers and their names. -/
def CmdList.addAll (adds : List (Nat × CString)) : Option CmdList :=
  adds.foldlM (fun d x => d.terminalAddCmd x.1 x.2) .empty

/-- The command with this name: the static one, or the first that was added, or the first
of the table. -/
def commandNamed (cmds : List CString) (adds : List (Nat × CString)) (c : CString) : Called :=
  match cmds.findIdx? (· = c) with
  | some i => .static i
  | none =>
    match adds.find? (·.2 = c) with
    | some x => .dynamic x.1
    | none => .static 0

/-- A table of static commands, as `terminal_cfg.h` asks for it. An empty one does not compile:
its enumeration has no member. -/
structure StaticTable (cmds : List CString) : Prop where
  nonempty : 0 < cmds.length
  length_le : cmds.length ≤ 127
  ascending : cmds.Pairwise fun s t => s.strcmp t < 0

/-! ### The list -/

/-- The list of the commands that have been added. -/
structure Listed (d : CmdList) (adds : List (Nat × CString)) : Prop where
  chain : Chain d.next d.head (adds.map Prod.fst)
  names : ∀ x ∈ adds, (d.record x.1).cmdName = x.2
  added : d.added = adds.length

namespace Listed

theorem empty : Listed .empty [] := ⟨rfl, fun _ hx => absurd hx List.not_mem_nil, rfl⟩

/-- The links after a record has been linked behind `p` and filled. -/
theorem next_append (d : CmdList) (p handler n : Nat) (name : CString) :
    CmdList.next ⟨d.head, Function.update (Function.update d.record p
        { d.record p with next := some handler }) handler ⟨name, none⟩, n⟩ =
      Function.update (Function.update d.next p (some handler)) handler none := by
  funext h
  by_cases hh : h = handler
  · subst hh
    simp [CmdList.next]
  · by_cases hp : h = p
    · subst hp
      simp [CmdList.next, hh]
    · simp [CmdList.next, hh, hp]

/-- `terminal_add_cmd` finds the end and appends. -/
theorem terminalAddCmd (h : Listed d adds) {handler : Nat} {name : CString}
    (hnd : (adds.map Prod.fst).Nodup) (hnew : handler ∉ adds.map Prod.fst) :
    ∃ d', d.terminalAddCmd handler name = some d' ∧ Listed d' (adds ++ [(handler, name)]) := by
  cases adds with
  | nil =>
      have hhead : d.head = none := h.chain
      refine ⟨⟨some handler, Function.update d.record handler ⟨name, none⟩, d.added + 1⟩, ?_, ?_⟩
      · rw [CmdList.terminalAddCmd, hhead]
      · refine ⟨⟨rfl, ?_⟩, ?_, congrArg (· + 1) h.added⟩
        · simp [CmdList.next, Chain]
        · intro x hx
          obtain rfl := List.mem_singleton.mp hx
          simp
  | cons x adds =>
      have hchain := h.chain
      have hhead : d.head = some x.1 := hchain.1
      have hfuel : (adds.map Prod.fst).length < d.added + 1 := by
        rw [h.added, List.length_map, List.length_cons]
        omega
      obtain ⟨p, hp⟩ : ∃ p, ((x :: adds).map Prod.fst).getLast? = some p :=
        ⟨_, List.getLast?_eq_some_getLast (List.cons_ne_nil _ _)⟩
      have hlast : last d.next (d.added + 1) x.1 = some p := by
        have hends : Chain d.next (some x.1) (x.1 :: adds.map Prod.fst) := ⟨rfl, hchain.2⟩
        rw [hends.last_eq hfuel]
        exact hp
      refine ⟨⟨d.head, Function.update (Function.update d.record p
        { d.record p with next := some handler }) handler ⟨name, none⟩, d.added + 1⟩, ?_, ?_⟩
      · rw [CmdList.terminalAddCmd, hhead]
        simp only [hlast, Option.map_some]
      · refine ⟨?_, ?_, ?_⟩
        · rw [next_append, List.map_append]
          exact hchain.append hnd hnew hp
        · intro y hy
          rcases List.mem_append.mp hy with hy | hy
          · have hne : y.1 ≠ handler := fun heq =>
              hnew (heq ▸ List.mem_map_of_mem hy)
            have hname := h.names y hy
            by_cases hyp : y.1 = p
            · simp only [hyp] at hne hname ⊢
              simpa [hne] using hname
            · simpa [hne, hyp] using hname
          · obtain rfl := List.mem_singleton.mp hy
            simp
        · rw [List.length_append, h.added]
          rfl

end Listed

/-- Any number of distinct handlers can be added. -/
theorem CmdList.addAll_listed (hnd : (adds.map Prod.fst).Nodup) :
    ∃ d, CmdList.addAll adds = some d ∧ Listed d adds := by
  induction adds using List.reverseRecOn with
  | nil => exact ⟨.empty, rfl, .empty⟩
  | append_singleton adds x ih =>
      rw [List.map_append, List.nodup_append] at hnd
      obtain ⟨hnd, -, hdisj⟩ := hnd
      obtain ⟨d, hd, hlisted⟩ := ih hnd
      have hnew : x.1 ∉ adds.map Prod.fst := fun hmem =>
        hdisj x.1 hmem x.1 (List.mem_singleton.mpr rfl) rfl
      obtain ⟨d', hd', hlisted'⟩ := hlisted.terminalAddCmd hnd hnew
      refine ⟨d', ?_, hlisted'⟩
      rw [CmdList.addAll] at hd ⊢
      rw [List.foldlM_append, hd]
      simpa using hd'

/-! ### The table -/

theorem int8_eq {x : Int} (h1 : -128 ≤ x) (h2 : x ≤ 127) : int8 x = x := by
  unfold int8
  omega

/-- With indices below 128 no conversion loses anything: `search_cmd` is a binary search, and
reads the entries that it looks at. -/
theorem searchStatic_eq {fuel : Nat} {inf sup : Int} (h0 : 0 ≤ inf) (hsup : sup ≤ 126)
    (hle : inf ≤ sup + 1) (hfuel : sup + 1 - inf < fuel) :
    (k.searchStatic c fuel inf sup).value = some (binarySearch (k.compare c) inf sup).value ∧
      (k.searchStatic c fuel inf sup).All fun a =>
        ∃ i ∈ (binarySearch (k.compare c) inf sup).log, a = .cmds i := by
  induction fuel generalizing inf sup with
  | zero => omega
  | succ fuel ih =>
      rw [Commands.searchStatic, binarySearch]
      by_cases hgo : inf ≤ sup
      · have hm : int8 ((inf + sup) / 2) = (inf + sup) / 2 := int8_eq (by omega) (by omega)
        simp only [if_pos hgo, hm]
        split
        · rename_i hneg
          rw [int8_eq (by omega) (by omega)]
          obtain ⟨hvalue, hlog⟩ := @ih ((inf + sup) / 2 + 1) sup (by omega) hsup (by omega) (by omega)
          refine ⟨hvalue, all_bind.mpr ⟨all_note.mpr ⟨_, List.mem_cons_self, rfl⟩, fun a ha => ?_⟩⟩
          obtain ⟨i, hi, rfl⟩ := hlog a ha
          exact ⟨i, List.mem_cons_of_mem _ hi, rfl⟩
        · split
          · rename_i hpos
            rw [int8_eq (by omega) (by omega)]
            obtain ⟨hvalue, hlog⟩ := @ih inf ((inf + sup) / 2 - 1) h0 (by omega) (by omega) (by omega)
            refine ⟨hvalue, all_bind.mpr ⟨all_note.mpr ⟨_, List.mem_cons_self, rfl⟩,
              all_bind.mpr ⟨all_note.mpr ⟨_, List.mem_cons_self, rfl⟩, fun a ha => ?_⟩⟩⟩
            obtain ⟨i, hi, rfl⟩ := hlog a ha
            exact ⟨i, List.mem_cons_of_mem _ hi, rfl⟩
          · refine ⟨rfl, all_bind.mpr ⟨all_note.mpr ⟨_, List.mem_cons_self, rfl⟩,
              all_bind.mpr ⟨all_note.mpr ⟨_, List.mem_cons_self, rfl⟩, all_pure _⟩⟩⟩
      · rw [if_neg hgo, if_neg hgo]
        exact ⟨rfl, all_pure _⟩

namespace StaticTable

variable {cmds : List CString}

theorem compare_eq (d : CmdList) {i : Nat} (hi : i < cmds.length) :
    Commands.compare ⟨cmds, d⟩ c i = cmds[i].strcmp c := by
  simp [Commands.compare, hi]

/-- In the order of the table the names before one that is not too late are too early. -/
theorem ascends (h : StaticTable cmds) (d : CmdList) :
    Ascends (Commands.compare ⟨cmds, d⟩ c) 0 (cmds.length - 1 : Int) := by
  intro i j hi hij hj hle
  obtain ⟨i, rfl⟩ := Int.eq_ofNat_of_zero_le hi
  obtain ⟨j, rfl⟩ := Int.eq_ofNat_of_zero_le (hi.trans hij.le)
  have hjlen : j < cmds.length := by omega
  have hilen : i < cmds.length := by omega
  have hlt := List.pairwise_iff_getElem.mp h.ascending i j hilen hjlen (by omega)
  rw [compare_eq d hjlen] at hle
  rw [compare_eq d hilen]
  rcases hle.lt_or_eq with hneg | hzero
  · exact CString.strcmp_trans hlt hneg
  · rwa [← CString.strcmp_eq_zero.mp hzero]

/-- What the binary search finds in a table: the index of the name. -/
theorem search (h : StaticTable cmds) (d : CmdList) :
    (binarySearch (Commands.compare ⟨cmds, d⟩ c) 0 (cmds.length - 1 : Int)).value =
      (cmds.findIdx? (· = c)).map fun i : Nat => (i : Int) := by
  have hasc := h.ascends (c := c) d
  cases hf : cmds.findIdx? (· = c) with
  | none =>
      have hno := List.findIdx?_eq_none_iff.mp hf
      cases hv : (binarySearch (Commands.compare ⟨cmds, d⟩ c) 0 (cmds.length - 1 : Int)).value with
      | none => rfl
      | some m =>
          obtain ⟨h1, h2, hzero⟩ := binarySearch_sound hv
          obtain ⟨m, rfl⟩ := Int.eq_ofNat_of_zero_le h1
          have hm : m < cmds.length := by omega
          rw [compare_eq d hm, CString.strcmp_eq_zero] at hzero
          exact absurd (hno _ (List.getElem_mem hm)) (by simp [hzero])
  | some i =>
      obtain ⟨hi, hname, -⟩ := List.findIdx?_eq_some_iff_getElem.mp hf
      have hname := of_decide_eq_true hname
      show _ = some (i : Int)
      refine (binarySearch_eq_some hasc).mpr ⟨by omega, by omega, ?_⟩
      rw [compare_eq d hi, CString.strcmp_eq_zero]
      exact hname

end StaticTable

/-- The search along the list counts the records, modulo 256. -/
theorem searchDynamic_eq {p : Option Nat} {fuel idx : Nat}
    (hchain : Chain d.next p (adds.map Prod.fst))
    (hnames : ∀ x ∈ adds, (d.record x.1).cmdName = x.2) (hfuel : adds.length < fuel)
    (hidx : idx < 256) : d.searchDynamic c fuel p idx =
      some ((adds.findIdx? (·.2 = c)).map fun j => (idx + j) % 256) := by
  induction adds generalizing p fuel idx with
  | nil =>
      obtain rfl : p = none := hchain
      cases fuel <;> rfl
  | cons x adds ih =>
      obtain ⟨rfl, hnext⟩ := hchain
      obtain ⟨fuel, rfl⟩ := Nat.exists_eq_add_one.mpr (Nat.zero_lt_of_lt hfuel)
      rw [CmdList.searchDynamic, hnames x List.mem_cons_self, List.findIdx?_cons]
      by_cases hx : x.2 = c
      · simp [hx, CString.strcmp_eq_zero, Nat.mod_eq_of_lt hidx]
      · have hrest := ih hnext (fun y hy => hnames y (List.mem_cons_of_mem x hy))
          (Nat.lt_of_succ_lt_succ hfuel) (Nat.mod_lt (idx + 1) (by decide))
        have hcount : ∀ j, ((idx + 1) % 256 + j) % 256 = (idx + (j + 1)) % 256 := fun j => by omega
        simp [hx, CString.strcmp_eq_zero, hrest, hcount, Function.comp_def]

/-! ### `search_cmd` -/

/-- The number of a command: its index in the table, or its place in the list counted on from
the end of the table, as a `uint8_t`. -/
def commandNumber (cmds : List CString) (adds : List (Nat × CString)) (c : CString) : Nat :=
  match cmds.findIdx? (· = c) with
  | some i => i
  | none => ((adds.findIdx? (·.2 = c)).map fun j => (cmds.length + j) % 256).getD 0

section Search

variable {cmds : List CString}

/-- The binary search ends, and looks at entries of the table only. -/
theorem StaticTable.searchStatic (hs : StaticTable cmds) (d : CmdList) (c : CString) :
    (Commands.searchStatic ⟨cmds, d⟩ c 256 0 (int8 (cmds.length - 1))).value =
        some ((cmds.findIdx? (· = c)).map fun i : Nat => (i : Int)) ∧
      (Commands.searchStatic ⟨cmds, d⟩ c 256 0 (int8 (cmds.length - 1))).All fun a =>
        ∃ i : Int, a = .cmds i ∧ 0 ≤ i ∧ i < cmds.length := by
  have hpos := hs.nonempty
  have hle := hs.length_le
  rw [int8_eq (by omega) (by omega)]
  obtain ⟨hvalue, hlog⟩ := @searchStatic_eq ⟨cmds, d⟩ c 256 0 (cmds.length - 1 : Int) le_rfl
    (by omega) (by omega) (by omega)
  refine ⟨hvalue.trans (congrArg some (hs.search d)), fun a ha => ?_⟩
  obtain ⟨i, hi, rfl⟩ := hlog a ha
  obtain ⟨h0, h1⟩ := all_binarySearch i hi
  exact ⟨i, rfl, h0, by omega⟩

theorem searchCmd_value (hs : StaticTable cmds) (hl : Listed d adds) :
    (Commands.searchCmd ⟨cmds, d⟩ c).value = some (commandNumber cmds adds c) := by
  have hpos := hs.nonempty
  have hle := hs.length_le
  have hdyn : d.searchDynamic c (d.added + 1) d.head (cmds.length % 256) =
      some ((adds.findIdx? (·.2 = c)).map fun j => (cmds.length % 256 + j) % 256) :=
    searchDynamic_eq hl.chain hl.names (by rw [hl.added]; omega) (Nat.mod_lt _ (by decide))
  have hmod : cmds.length % 256 = cmds.length := Nat.mod_eq_of_lt (by omega)
  simp only [Commands.searchCmd, Commands.numberOfCommands, value_bind,
    (hs.searchStatic d c).1, commandNumber]
  cases hf : cmds.findIdx? (· = c) with
  | some i =>
      have hi := (List.findIdx?_eq_some_iff_getElem.mp hf).1
      show some ((i : Int) % 256).toNat = some i
      congr 1
      omega
  | none =>
      rw [hmod] at hdyn
      simp only [Option.map_none, value_pure, hmod, hdyn, Option.map_some]

theorem searchCmd_log (hs : StaticTable cmds) : (Commands.searchCmd ⟨cmds, d⟩ c).All fun a =>
    ∃ i : Int, a = .cmds i ∧ 0 ≤ i ∧ i < cmds.length := by
  refine all_bind.mpr ⟨(hs.searchStatic d c).2, ?_⟩
  split <;> exact all_pure _

theorem select_eq (cmds : List CString) (d : CmdList) (n : Nat) : Commands.select ⟨cmds, d⟩ n =
    if n < cmds.length then note (.cmds n) (some (.static n))
    else pure ((advance d.next (n - cmds.length) d.head).map .dynamic) := rfl

/-- The command that is called, by its number. -/
theorem dispatch_value (hs : StaticTable cmds) (hl : Listed d adds) :
    (Commands.dispatch ⟨cmds, d⟩ c).value =
      if commandNumber cmds adds c < cmds.length then some (.static (commandNumber cmds adds c))
      else (adds[commandNumber cmds adds c - cmds.length]?).map fun x => .dynamic x.1 := by
  simp only [Commands.dispatch, value_bind, searchCmd_value hs hl, select_eq]
  by_cases hlt : commandNumber cmds adds c < cmds.length
  · rw [if_pos hlt, if_pos hlt]
    rfl
  · rw [if_neg hlt, if_neg hlt, value_pure, hl.chain.advance_eq, List.getElem?_map, Option.map_map]
    rfl

theorem dispatch_log (hs : StaticTable cmds) (hl : Listed d adds) :
    (Commands.dispatch ⟨cmds, d⟩ c).All fun a =>
      ∃ i : Int, a = .cmds i ∧ 0 ≤ i ∧ i < cmds.length := by
  refine all_bind.mpr ⟨searchCmd_log hs, ?_⟩
  rw [searchCmd_value hs hl]
  show (Commands.select ⟨cmds, d⟩ _).All _
  rw [select_eq]
  refine all_ite (fun hlt => all_note.mpr ⟨_, rfl, by omega, ?_⟩) fun _ => all_pure _
  exact Int.ofNat_lt.mpr hlt

/-- The number leads to the right command unless it passes the end of its type. -/
theorem dispatch_eq_iff (hs : StaticTable cmds) (hl : Listed d adds)
    (hnd : (adds.map Prod.fst).Nodup) :
    (Commands.dispatch ⟨cmds, d⟩ c).value = some (commandNamed cmds adds c) ↔
      c ∈ cmds ∨ ∀ j, adds.findIdx? (·.2 = c) = some j → cmds.length + j < 256 := by
  rw [dispatch_value hs hl]
  unfold commandNamed commandNumber
  cases hf : cmds.findIdx? (· = c) with
  | some i =>
      obtain ⟨hi, hname, -⟩ := List.findIdx?_eq_some_iff_getElem.mp hf
      have hmem : c ∈ cmds := of_decide_eq_true hname ▸ List.getElem_mem hi
      simp [hi, hmem]
  | none =>
      have hmem : c ∉ cmds := fun hmem => by
        simpa using List.findIdx?_eq_none_iff.mp hf c hmem
      rw [List.find?_eq_bind_findIdx?_getElem?]
      cases hg : adds.findIdx? (·.2 = c) with
      | none => simp [hmem, hs.nonempty]
      | some j =>
          obtain ⟨hj, -⟩ := List.findIdx?_eq_some_iff_getElem.mp hg
          simp only [Option.map_some, Option.getD_some, Option.bind_some, hmem, false_or,
            List.getElem?_eq_getElem hj, Option.some.injEq, forall_eq']
          constructor
          · -- the number is taken modulo 256, and the handlers are distinct
            intro h
            by_contra hover
            split at h
            · cases h
            · obtain ⟨x, hx, hxj⟩ := Option.map_eq_some_iff.mp h
              obtain ⟨hlt, rfl⟩ := List.getElem?_eq_some_iff.mp hx
              have hsame : (adds.map Prod.fst)[(cmds.length + j) % 256 - cmds.length]? =
                  (adds.map Prod.fst)[j]? := by
                rw [List.getElem?_map, List.getElem?_map, hx, List.getElem?_eq_getElem hj]
                exact congrArg some (Called.dynamic.inj hxj)
              have heq := (List.getElem?_inj (by simpa using hlt) hnd).mp hsame
              omega
          · intro hlt
            rw [Nat.mod_eq_of_lt hlt, if_neg (by omega), Nat.add_sub_cancel_left,
              List.getElem?_eq_getElem hj]
            rfl

/-- The number of a command that was added, while it fits its type. -/
theorem searchCmd_reaches (hs : StaticTable cmds) (hl : Listed d adds) (hc : c ∉ cmds) {j : Nat}
    (hj : adds.findIdx? (·.2 = c) = some j) (hlt : cmds.length + j < 256) :
    (Commands.searchCmd ⟨cmds, d⟩ c).value = some (cmds.length + j) ∧
      advance d.next j d.head = adds[j]?.map Prod.fst := by
  have hno : cmds.findIdx? (· = c) = none := by
    refine List.findIdx?_eq_none_iff.mpr fun x hx => decide_eq_false ?_
    rintro rfl
    exact hc hx
  refine ⟨?_, ?_⟩
  · rw [searchCmd_value hs hl]
    simp [commandNumber, hno, hj, Nat.mod_eq_of_lt hlt]
  · rw [hl.chain.advance_eq, List.getElem?_map]

end Search

/-! ### `terminal_process` -/

section Process

variable {t : Terminal} {xs zs : List UInt8}

/-- `c` is the first word of the line. -/
def Terminal.FirstWord (t : Terminal) (c : CString) : Prop :=
  ∃ xs zs, Holds t.termIn xs zs ∧ first isSeparator xs = c.chars ∧ c.chars ≠ []

/-- When there is a word, a command is called. -/
theorem terminalProcess_word (k : Commands) (h : Holds t.termIn xs zs)
    (hc : first isSeparator xs = c.chars) (hne : c.chars ≠ []) :
    ∃ a, t.afterTokens k xs zs = t.execute k (cut isSeparator 0 false xs ++ 0 :: zs) a ∧
      stringAt (cut isSeparator 0 false xs ++ 0 :: zs) a = c := by
  have hs := (Words.split isSeparator xs).starts_cons (p := 0) (hc ▸ hne)
  refine ⟨_, ?_, CString.ext ((h.stringAt_first hs).trans hc)⟩
  rw [Terminal.afterTokens, hs]

theorem terminalProcess_called (k : Commands) (hw : t.FirstWord c) :
    (t.terminalProcess k).value.2 = (k.dispatch c).value := by
  obtain ⟨xs, zs, h, hc, hne⟩ := hw
  obtain ⟨a, hexec, hstring⟩ := terminalProcess_word k h hc hne
  rw [terminalProcess_eq h]
  simp only [value_bind, hexec, Terminal.execute, hstring]
  rfl

/-- The table is read by `search_cmd` and by the call only. -/
theorem terminalProcess_cmds (k : Commands) (hw : t.FirstWord c) {i : Int}
    (hi : .cmds i ∈ (t.terminalProcess k).log) : .cmds i ∈ (k.dispatch c).log := by
  obtain ⟨xs, zs, h, hc, hne⟩ := hw
  obtain ⟨a, hexec, hstring⟩ := terminalProcess_word k h hc hne
  have hread : .cmds i ∉ (readTermIn 0 (t.termIn.takeWhile isBlank).length).log := fun hmem => by
    obtain ⟨j, hj, -⟩ := readTermIn_log _ hmem
    cases hj
  have htok : .cmds i ∉
      (tokenise (termInputBufsize + 1) t.termIn (t.termIn.takeWhile isBlank).length 0).log :=
    fun hmem => by
      rcases h.log _ hmem with ⟨j, hj, -⟩ | ⟨j, hj⟩ <;> cases hj
  have hcopy : ∀ buf last, .cmds i ∉ (copyLast buf (termInputBufsize + 1) last 0).log :=
    fun buf last hmem => by
      rcases copyLast_log _ hmem with ⟨j, hj, -⟩ | ⟨j, hj, -⟩ <;> cases hj
  rw [terminalProcess_eq h] at hi
  simp only [log_bind, hexec, Terminal.execute, hstring, List.mem_append, hread, htok, hcopy,
    false_or, log_note, log_pure, List.append_nil, List.mem_singleton] at hi
  simpa using hi

end Process

/-- What a lookup promises of the first word `c` of the line. -/
structure LooksUp (k : Commands) (adds : List (Nat × CString)) (t : Terminal) (c : CString) :
    Prop where
  calls : (t.terminalProcess k).value.2 = some (commandNamed k.cmds adds c)
  /-- The binary search ends. -/
  ends : (k.searchStatic c 256 0 (int8 (k.numberOfCommands - 1))).value ≠ none
  inTable : ∀ i : Int, .cmds i ∈ (t.terminalProcess k).log → 0 ≤ i ∧ i < k.numberOfCommands
  /-- The number of a command that was added leads back to its record. -/
  reaches : c ∉ k.cmds → ∀ x, adds.find? (·.2 = c) = some x →
    ∃ n, (k.searchCmd c).value = some (k.numberOfCommands + n) ∧
      advance k.dynamic.next n k.dynamic.head = some x.1

theorem looksUp_iff {cmds : List CString} {t : Terminal} (hs : StaticTable cmds)
    (hl : Listed d adds) (hnd : (adds.map Prod.fst).Nodup) (hw : t.FirstWord c) :
    LooksUp ⟨cmds, d⟩ adds t c ↔
      c ∈ cmds ∨ ∀ j, adds.findIdx? (·.2 = c) = some j → cmds.length + j < 256 := by
  rw [← dispatch_eq_iff hs hl hnd]
  constructor
  · intro h
    rw [← terminalProcess_called _ hw]
    exact h.calls
  · intro h
    constructor
    case calls =>
      rw [terminalProcess_called _ hw]
      exact h
    case ends =>
      intro hnone
      cases (hs.searchStatic d c).1.symm.trans hnone
    case inTable =>
      intro i hi
      obtain ⟨i', heq, hi'⟩ := dispatch_log hs hl _ (terminalProcess_cmds _ hw hi)
      cases heq
      exact hi'
    case reaches =>
      intro hc x hx
      rw [List.find?_eq_bind_findIdx?_getElem?] at hx
      obtain ⟨j, hj, hxj⟩ := Option.bind_eq_some_iff.mp hx
      have hlt := ((dispatch_eq_iff hs hl hnd).mp h).resolve_left hc j hj
      obtain ⟨hnumber, hreach⟩ := searchCmd_reaches hs hl hc hj hlt
      exact ⟨j, hnumber, hreach.trans (by rw [hxj]; rfl)⟩

/-- **Command lookup.** For every table in the order of `strcmp`, every list of commands that
have been added and every first word of a line: the command of that name is called, the search
stays within the table and the number it returns leads to the record, exactly when the name is
in the table or the number of its first record fits `uint8_t`. -/
theorem command_lookup_iff {cmds : List CString} (hs : StaticTable cmds)
    (hnd : (adds.map Prod.fst).Nodup) : ∃ d, CmdList.addAll adds = some d ∧
      ∀ (t : Terminal) (c : CString), t.FirstWord c → (LooksUp ⟨cmds, d⟩ adds t c ↔
        c ∈ cmds ∨ ∀ j, adds.findIdx? (·.2 = c) = some j → cmds.length + j < 256) := by
  obtain ⟨d, hadd, hl⟩ := CmdList.addAll_listed hnd
  exact ⟨d, hadd, fun t c hw => looksUp_iff hs hl hnd hw⟩

theorem staticTable_commandTable : StaticTable commandTable where
  nonempty := by decide
  length_le := by decide
  ascending := by decide

/-- The command `b`. -/
def nameB : CString := ⟨[98], by decide⟩

/-- The terminal after `b` and `CR`. -/
def lineB : Terminal := ((Terminal.start.terminalInput 98).value.1.terminalInput 13).value.1

theorem lineB_firstWord : lineB.FirstWord nameB :=
  ⟨[98], List.replicate 30 0, ⟨⟨by decide, by decide⟩, by decide⟩, by decide, by decide⟩

/-- `n` commands are added; only the last one is `b`. -/
def lastIsB (n : Nat) : List (Nat × CString) :=
  (List.range n).map fun i => (i, if i + 1 = n then nameB else ⟨[97], by decide⟩)

theorem nodup_lastIsB (n : Nat) : ((lastIsB n).map Prod.fst).Nodup := by
  have hfst : (lastIsB n).map Prod.fst = List.range n := by simp [lastIsB, Function.comp_def]
  rw [hfst]
  exact List.nodup_range

/-- With 4 static commands the 253rd that is added has the number 256, and `help` is called. -/
theorem command_number_wraps : ∃ d, CmdList.addAll (lastIsB 253) = some d ∧
    (lineB.terminalProcess ⟨commandTable, d⟩).value.2 = some (.static 0) ∧
      commandNamed commandTable (lastIsB 253) nameB = .dynamic 252 ∧
      ¬ LooksUp ⟨commandTable, d⟩ (lastIsB 253) lineB nameB := by
  obtain ⟨d, hadd, hl⟩ := CmdList.addAll_listed (nodup_lastIsB 253)
  have hstatic : (lineB.terminalProcess ⟨commandTable, d⟩).value.2 = some (.static 0) := by
    have hnumber : commandNumber commandTable (lastIsB 253) nameB = 0 := by decide +kernel
    rw [terminalProcess_called _ lineB_firstWord, dispatch_value staticTable_commandTable hl, hnumber]
    rfl
  have hnamed : commandNamed commandTable (lastIsB 253) nameB = .dynamic 252 := by decide +kernel
  refine ⟨d, hadd, hstatic, hnamed, fun h => ?_⟩
  cases (hstatic.symm.trans h.calls).trans (congrArg some hnamed)

/-- With 252 of them the last one is called. -/
theorem command_lookup_iff_252 : ∃ d, CmdList.addAll (lastIsB 252) = some d ∧
    LooksUp ⟨commandTable, d⟩ (lastIsB 252) lineB nameB := by
  obtain ⟨d, hadd, hiff⟩ := command_lookup_iff staticTable_commandTable (nodup_lastIsB 252)
  have hfirst : (lastIsB 252).findIdx? (·.2 = nameB) = some 251 := by decide +kernel
  refine ⟨d, hadd, (hiff lineB nameB lineB_firstWord).mpr (.inr fun j hj => ?_)⟩
  cases hfirst.symm.trans hj
  decide

end Brtos
