import Mathlib.Data.List.Basic
import Mathlib.Order.Basic

/-!
# Brtos.Lib.CString

**Strings that end in NUL.** A `CString` is what stands before the terminator, so that it
has no NUL of its own. `charAt` reads one character of it: the terminator is its last, and
what a program reads beyond that is whatever lies there.

`strcmp` and `strncmp` have the sign of the first difference. `strcmp` orders the strings as
lists of unsigned characters (`strcmp_neg`), and `strncmp` is `0` when the first `n`
characters agree, the terminator among them (`strncmp_eq_zero`).
-/

/-- The characters of a string, before its NUL. -/
@[ext] structure CString where
  chars : List UInt8
  noNul : 0 ∉ chars
  deriving DecidableEq

namespace CString

variable {s t u : CString} {as bs : List UInt8} {n k : Nat}

/-- `strlen`. -/
def strlen (s : CString) : Nat := s.chars.length

/-- `s[k]`; beyond the terminator it is `rest` that is read. -/
def charAt (s : CString) (rest : Nat → UInt8) (k : Nat) : UInt8 :=
  if h : k < s.chars.length then s.chars[k]
  else if k = s.chars.length then 0 else rest (k - (s.chars.length + 1))

/-- The first difference of two sequences of characters, each followed by a NUL. -/
def diff : List UInt8 → List UInt8 → Int
  | [], [] => 0
  | [], b :: _ => -b.toNat
  | a :: _, [] => a.toNat
  | a :: as, b :: bs => if a = b then diff as bs else a.toNat - b.toNat

/-- `strcmp`. -/
def strcmp (s t : CString) : Int := diff s.chars t.chars

/-- `strncmp`. -/
def strncmp (s t : CString) (n : Nat) : Int := diff (s.chars.take n) (t.chars.take n)

theorem toNat_ne_zero {a : UInt8} (h : a ≠ 0) : a.toNat ≠ 0 := fun h0 =>
  h (UInt8.toNat_inj.mp h0)

theorem diff_eq_zero (ha : 0 ∉ as) (hb : 0 ∉ bs) : diff as bs = 0 ↔ as = bs := by
  induction as generalizing bs with
  | nil =>
      cases bs with
      | nil => simp [diff]
      | cons b bs =>
          have hb0 := toNat_ne_zero fun h : b = 0 => hb (h ▸ List.mem_cons_self)
          simpa [diff] using hb0
  | cons a as ih =>
      cases bs with
      | nil =>
          have ha0 := toNat_ne_zero fun h : a = 0 => ha (h ▸ List.mem_cons_self)
          simpa [diff] using ha0
      | cons b bs =>
          rw [List.cons.injEq]
          by_cases hab : a = b
          · rw [diff, if_pos hab, and_iff_right hab]
            exact ih (fun h => ha (List.mem_cons_of_mem a h)) fun h => hb (List.mem_cons_of_mem b h)
          · have hne : a.toNat ≠ b.toNat := fun h => hab (UInt8.toNat_inj.mp h)
            rw [diff, if_neg hab]
            refine iff_of_false ?_ fun h => hab h.1
            omega

/-- The order of `strcmp` is that of the lists of unsigned characters. -/
theorem diff_neg (ha : 0 ∉ as) (hb : 0 ∉ bs) :
    diff as bs < 0 ↔ as.map UInt8.toNat < bs.map UInt8.toNat := by
  induction as generalizing bs with
  | nil =>
      cases bs with
      | nil => simp [diff]
      | cons b bs =>
          have hb0 := toNat_ne_zero fun h : b = 0 => hb (h ▸ List.mem_cons_self)
          simp [diff]
          omega
  | cons a as ih =>
      cases bs with
      | nil => simp [diff]
      | cons b bs =>
          rw [List.map_cons, List.map_cons, List.cons_lt_cons_iff, diff]
          by_cases hab : a = b
          · rw [if_pos hab, ih (fun h => ha (List.mem_cons_of_mem a h)) fun h =>
              hb (List.mem_cons_of_mem b h)]
            simp [hab]
          · have hne : a.toNat ≠ b.toNat := fun h => hab (UInt8.toNat_inj.mp h)
            rw [if_neg hab]
            omega

theorem strcmp_eq_zero : strcmp s t = 0 ↔ s = t :=
  (diff_eq_zero s.noNul t.noNul).trans CString.ext_iff.symm

theorem strcmp_neg : strcmp s t < 0 ↔ s.chars.map UInt8.toNat < t.chars.map UInt8.toNat :=
  diff_neg s.noNul t.noNul

theorem strcmp_trans (h : strcmp s t < 0) (h' : strcmp t u < 0) : strcmp s u < 0 :=
  strcmp_neg.mpr (List.lt_trans (strcmp_neg.mp h) (strcmp_neg.mp h'))

theorem strncmp_eq_zero : strncmp s t n = 0 ↔ s.chars.take n = t.chars.take n :=
  diff_eq_zero (fun h => s.noNul (List.mem_of_mem_take h)) fun h =>
    t.noNul (List.mem_of_mem_take h)

end CString
