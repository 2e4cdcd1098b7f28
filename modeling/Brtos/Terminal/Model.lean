import Brtos.Lib.CString
import Brtos.Lib.Logged
import Brtos.Lib.SList
import Mathlib.Algebra.Group.Int.Defs
import Mathlib.Data.List.TakeWhile

/-!
# Brtos.Terminal.Model

The **terminal** (`terminal.c`): `terminal_input` takes one character after the other and
edits the line in `term_in`; when the line is complete, `terminal_process` cuts it into
arguments, looks the first one up and calls the command. The line is kept in
`last_term_in`, where the up key finds it.

Both functions note every element of the buffers, of `argv` and of `cmds` that they touch, and
`terminal_input` the characters that it prints. A buffer is the list of its cells; a cell outside is read as `0` and written
without effect, and is in the notes like the others. The commands are called with their
arguments and leave the terminal alone; so does the function that `terminal_set_input` installs,
which is given every character first and is left out.
-/

namespace Brtos

open Logged

/-- `TERM_INPUT_BUFSIZE`. -/
def termInputBufsize : Nat := 32

/-- `UP_KEY_CHAR`, `(char)-32`. -/
def upKeyChar : UInt8 := 224

/-- `CHARS_TO_DISCARD`. -/
def charsToDiscard : Nat := 1

/-- `TERM_ARGS_MAX_COUNT`. -/
def termArgsMaxCount : Nat := 6

/-- What is noted: an element of an array that is read or written, of `argv` one that is
written, and a character that is printed. -/
inductive TermAccess
  | termIn (i : Nat)
  | lastTermIn (i : Nat)
  | argv (i : Nat)
  | cmds (i : Int)
  | put (c : UInt8)
  deriving DecidableEq, Repr

/-- Note one item, if `c` holds. -/
def noteIf (c : Prop) [Decidable c] (a : TermAccess) : Logged TermAccess Unit :=
  if c then note a () else pure ()

/-! ### Commands -/

/-- `dcmd_t`, without its description. -/
structure DCmd where
  cmdName : CString
  next : Option Nat

/-- The dynamic commands: `cmd_head` and the records, by their addresses. `added` counts the
calls of `terminal_add_cmd`; it bounds the walks along `next`. -/
structure CmdList where
  head : Option Nat
  record : Nat → DCmd
  added : Nat

/-- Nothing has been added. -/
def CmdList.empty : CmdList := ⟨none, fun _ => ⟨⟨[], by decide⟩, none⟩, 0⟩

/-- The link of a record. -/
def CmdList.next (d : CmdList) (h : Nat) : Option Nat := (d.record h).next

/-- `terminal_add_cmd`; `none` when the walk to the last record does not end. -/
def CmdList.terminalAddCmd (d : CmdList) (handler : Nat) (name : CString) : Option CmdList :=
  let fill := fun record : Nat → DCmd => Function.update record handler ⟨name, none⟩
  match d.head with
  | none => some { head := some handler, record := fill d.record, added := d.added + 1 }
  | some h =>
    (SList.last d.next (d.added + 1) h).map fun p =>
      { d with
        record := fill (Function.update d.record p { d.record p with next := some handler })
        added := d.added + 1 }

/-- The value of an expression, converted to `int8_t`. -/
def int8 (x : Int) : Int := (x + 128) % 256 - 128

/-- The commands of a terminal: `cmds[].cmd_name`, and the list from `cmd_head`. -/
structure Commands where
  cmds : List CString
  dynamic : CmdList

/-- `COMMAND_TABLE`: `help`, `runst`, `top`, `ver`. -/
def commandTable : List CString :=
  [⟨[104, 101, 108, 112], by decide⟩, ⟨[114, 117, 110, 115, 116], by decide⟩,
    ⟨[116, 111, 112], by decide⟩, ⟨[118, 101, 114], by decide⟩]

/-- `NUMBER_OF_COMMANDS`. -/
def Commands.numberOfCommands (k : Commands) : Nat := k.cmds.length

/-- `STRCMP(cmds[i].cmd_name, c)`. -/
def Commands.compare (k : Commands) (c : CString) (i : Int) : Int :=
  (k.cmds.getD i.toNat ⟨[], by decide⟩).strcmp c

/-- The binary search of `search_cmd`; `none` when the fuel is used up. -/
def Commands.searchStatic (k : Commands) (c : CString) :
    Nat → Int → Int → Logged TermAccess (Option (Option Int))
  | 0, _, _ => pure none
  | fuel + 1, inf, sup =>
    if inf ≤ sup then do
      let meio := int8 ((inf + sup) / 2)
      note (.cmds meio) ()
      if k.compare c meio < 0 then k.searchStatic c fuel (int8 (meio + 1)) sup
      else do
        note (.cmds meio) ()
        if 0 < k.compare c meio then k.searchStatic c fuel inf (int8 (meio - 1))
        else pure (some (some meio))
    else pure (some none)

/-- The search of `search_cmd` among the dynamic commands; `idx` is a `uint8_t`. -/
def CmdList.searchDynamic (d : CmdList) (c : CString) : Nat → Option Nat → Nat → Option (Option Nat)
  | _, none, _ => some none
  | 0, some _, _ => none
  | fuel + 1, some p, idx =>
    if (d.record p).cmdName.strcmp c = 0 then some (some idx)
    else d.searchDynamic c fuel (d.next p) ((idx + 1) % 256)

/-- `search_cmd`. -/
def Commands.searchCmd (k : Commands) (c : CString) : Logged TermAccess (Option Nat) := do
  let found ← k.searchStatic c 256 0 (int8 (k.numberOfCommands - 1))
  match found with
  | none => pure none
  | some (some meio) => pure (some (meio % 256).toNat)
  | some none =>
    pure <| (k.dynamic.searchDynamic c (k.dynamic.added + 1) k.dynamic.head
      (k.numberOfCommands % 256)).map fun idx => idx.getD 0

/-- A command that is called: a static one by its index, a dynamic one by its record. -/
inductive Called
  | static (i : Nat)
  | dynamic (handler : Nat)
  deriving DecidableEq, Repr

/-- What `terminal_process` does with the index `search_cmd` returns; `none` where it
follows a `NULL`. -/
def Commands.select (k : Commands) (c : Nat) : Logged TermAccess (Option Called) :=
  if c < k.numberOfCommands then note (.cmds c) (some (.static c))
  else pure ((SList.advance k.dynamic.next (c - k.numberOfCommands) k.dynamic.head).map .dynamic)

/-- The call of the command `arg`. -/
def Commands.dispatch (k : Commands) (arg : CString) : Logged TermAccess (Option Called) := do
  let c ← k.searchCmd arg
  match c with
  | none => pure none
  | some c => k.select c

/-! ### The line -/

/-- The variables of `terminal.c`. -/
structure Terminal where
  termInIdx : Nat
  termTmpIdx : Int
  discardChar : Nat
  cpi : Nat
  termIn : List UInt8
  lastTermIn : List UInt8

namespace Terminal

/-- Before the first character. -/
def start : Terminal where
  termInIdx := 0
  termTmpIdx := 0
  discardChar := 0
  cpi := 0
  termIn := List.replicate termInputBufsize 0
  lastTermIn := List.replicate termInputBufsize 0

/-- A computed value, stored in an `int`. -/
def int32 (x : Int) : Int := (x + 2 ^ 31) % 2 ^ 32 - 2 ^ 31

/-- What `terminal_input` does to `term_tmp_idx` for a character that is not `DEL`. -/
def count (t : Terminal) (c : UInt8) : Terminal :=
  { t with
    termTmpIdx :=
      if c ≠ 13 then if 0 ≤ t.termTmpIdx then int32 (t.termTmpIdx + 1) else 1 else 0 }

/-- The up key: the line is erased and, if there is one, the last line copied. The counters go
up to `cpi + 1` and come back by one. -/
def recallLine (t : Terminal) : Logged TermAccess (Terminal × Bool) := do
  (List.range t.termInIdx).forM fun _ => note (.put 0x7F) ()
  note (.lastTermIn 0) ()
  if t.lastTermIn.getD 0 0 ≠ 0 then
    (List.range (t.cpi + 1)).forM fun i => do
      note (.lastTermIn i) ()
      note (.put (t.lastTermIn.getD i 0)) ()
    let termIn ← (List.range (t.cpi + 1)).foldlM (fun buf i => do
      note (.lastTermIn i) ()
      note (.termIn i) (buf.set i (t.lastTermIn.getD i 0))) t.termIn
    note (.termIn (t.cpi + 1)) ()
    pure ({ t with
      termIn := termIn.set (t.cpi + 1) 0
      termInIdx := t.cpi
      termTmpIdx := t.cpi }, false)
  else pure ({ t with termInIdx := 0 }, false)

/-- A character is stored; the line may be complete with it. -/
def store (t : Terminal) (c : UInt8) : Logged TermAccess (Terminal × Bool) := do
  note (.termIn t.termInIdx) ()
  let t := { t with termIn := t.termIn.set t.termInIdx c, termInIdx := t.termInIdx + 1 }
  if c = 10 ∨ c = 13 ∨ t.termInIdx = termInputBufsize - 1 then
    note (.termIn (t.termInIdx - 1)) ()
    pure ({ t with termIn := t.termIn.set (t.termInIdx - 1) 0 }, true)
  else pure (t, false)

/-- The second half of `terminal_input`. -/
def edit (t : Terminal) (c : UInt8) : Logged TermAccess (Terminal × Bool) :=
  if 0 ≤ t.termTmpIdx then
    if (c = 8 ∨ c = 0x7F) ∧ 0 < t.termInIdx then do
      note (.termIn t.termInIdx) ()
      pure ({ t with
        termIn := t.termIn.set t.termInIdx 0
        termInIdx := t.termInIdx - 1 }, false)
    else if c = upKeyChar then t.recallLine
    else t.store c
  else pure (t, false)

/-- `terminal_input`, and what it returns. -/
def terminalInput (t : Terminal) (c : UInt8) : Logged TermAccess (Terminal × Bool) :=
  if c ≠ 0x7F then
    if c ≠ upKeyChar then
      if t.discardChar = 0 then do
        note (.put c) ()
        (t.count c).edit c
      else
        let t := { t with discardChar := t.discardChar - 1 }
        if t.discardChar = 0 then (t.count upKeyChar).edit upKeyChar
        else pure (t, false)
    else pure ({ t with discardChar := charsToDiscard }, false)
  else do
    let t := { t with termTmpIdx := int32 (t.termTmpIdx - 1) }
    noteIf (0 ≤ t.termTmpIdx) (.put c)
    t.edit c

end Terminal

/-! ### The command -/

/-- A separator of `strtok`: space, tab, `CR` or `LF`. -/
def isSeparator (c : UInt8) : Bool := c = 32 || c = 9 || c = 13 || c = 10

/-- A character that `terminal_process` skips at the beginning of the line. -/
def isBlank (c : UInt8) : Bool := c = 32 || c = 9

/-- A character of an argument. -/
def isArgChar (c : UInt8) : Bool := c ≠ 0 && !isSeparator c

/-- Read the cells `p`, ..., `p + n`. -/
def readTermIn (p n : Nat) : Logged TermAccess Unit :=
  (List.range' p (n + 1)).forM fun i => note (.termIn i) ()

/-- `strtok`, from the cell `p` on: where the argument begins, and where the next call goes on.
The separator behind it becomes a NUL. -/
def strtok (buf : List UInt8) (p : Nat) : Logged TermAccess (List UInt8 × Option (Nat × Nat)) := do
  let skipped := ((buf.drop p).takeWhile isSeparator).length
  let length := ((buf.drop (p + skipped)).takeWhile isArgChar).length
  let stop := p + skipped + length
  readTermIn p (skipped + length)
  if length = 0 then pure (buf, none)
  else if buf.getD stop 0 = 0 then pure (buf, some (p + skipped, stop))
  else note (.termIn stop) (buf.set stop 0, some (p + skipped, stop + 1))

/-- The loop that fills `argv`; `argc` is a `uint8_t`. -/
def tokenise : Nat → List UInt8 → Nat → Nat → Logged TermAccess (List UInt8 × List Nat)
  | 0, buf, _, _ => pure (buf, [])
  | fuel + 1, buf, p, argc => do
    let (buf, arg) ← strtok buf p
    match arg with
    | none => pure (buf, [])
    | some (first, next) =>
      note (.argv argc) ()
      let (buf, args) ← tokenise fuel buf next ((argc + 1) % 256)
      pure (buf, first :: args)

/-- The string in `term_in` from the cell `p` on. -/
def stringAt (buf : List UInt8) (p : Nat) : CString where
  chars := (buf.drop p).takeWhile (· ≠ 0)
  noNul h := by simpa using List.mem_takeWhile_imp h

/-- The loop that copies the line to `last_term_in`, up to two NULs. -/
def copyLast (buf : List UInt8) :
    Nat → List UInt8 → Nat → Logged TermAccess (List UInt8 × Nat)
  | 0, last, cpi => pure (last, cpi)
  | fuel + 1, last, cpi => do
    note (.termIn cpi) ()
    noteIf (buf.getD cpi 0 = 0) (.termIn (cpi + 1))
    if buf.getD cpi 0 ≠ 0 ∨ buf.getD (cpi + 1) 0 ≠ 0 then
      note (.lastTermIn cpi) ()
      copyLast buf fuel (last.set cpi (if buf.getD cpi 0 = 0 then 0x20 else buf.getD cpi 0))
        (cpi + 1)
    else pure (last, cpi)

/-- `TERM_FLUSH(term_in)`, and the cursor goes back to the beginning. -/
def Terminal.flush (t : Terminal) : Terminal :=
  { t with termIn := List.replicate termInputBufsize 0, termInIdx := 0 }

/-- What `terminal_process` does when there is an argument, the string from the cell `arg` on:
the command is called, and the line is copied. -/
def Terminal.execute (k : Commands) (t : Terminal) (termIn : List UInt8) (arg : Nat) :
    Logged TermAccess (Terminal × Option Called) := do
  let called ← k.dispatch (stringAt termIn arg)
  let (last, cpi) ← copyLast termIn (termInputBufsize + 1) t.lastTermIn 0
  note (.lastTermIn cpi) ()
  pure ({ t with cpi := cpi, lastTermIn := last.set cpi 0 }.flush, called)

/-- `terminal_process`, and the command it calls. -/
def Terminal.terminalProcess (k : Commands) (t : Terminal) :
    Logged TermAccess (Terminal × Option Called) := do
  let idxStart := (t.termIn.takeWhile isBlank).length
  readTermIn 0 idxStart
  let (termIn, argv) ← tokenise (termInputBufsize + 1) t.termIn idxStart 0
  match argv with
  | [] => pure (t.flush, none)
  | arg :: _ => t.execute k termIn arg

/-- What a character shows: what was touched, `term_in` when `terminal_process` is entered, and
the command that is called. -/
structure TermShown where
  accesses : List TermAccess
  line : Option (List UInt8)
  called : Option Called
  deriving DecidableEq, Repr

/-- A character arrives; if `terminal_input` returns 1, `terminal_process` is called. -/
def Terminal.step (k : Commands) (t : Terminal) (c : UInt8) : Option (Terminal × TermShown) :=
  let x := t.terminalInput c
  if x.value.2 then
    let y := x.value.1.terminalProcess k
    some (y.value.1, ⟨x.log ++ y.log, some x.value.1.termIn, y.value.2⟩)
  else some (x.value.1, ⟨x.log, none, none⟩)

end Brtos
