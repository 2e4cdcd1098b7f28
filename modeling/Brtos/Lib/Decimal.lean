import Mathlib.Data.Nat.Digits.Lemmas

/-!
# Brtos.Lib.Decimal

**Decimal numerals** in ASCII. `numeral n` has no leading zeros and is read back by `value`
(`value_numeral`), so that it determines `n`; with one more digit it gets one character
longer (`numeral_append`), and below `10 ^ k` it has at most `k` (`length_numeral_le`).

`signed` puts a minus sign in front of the numeral of a negative number, and `readSigned`
reads that back. `field w cs` is `cs` at the right end of `w` columns.
-/

namespace Decimal

variable {n d k w : Nat} {cs : List UInt8}

/-- The character of a digit. -/
def digit (d : Nat) : UInt8 := UInt8.ofNat (48 + d)

def isDigit (c : UInt8) : Bool := 48 ≤ c && c ≤ 57

/-- Decimal digits, the most significant first. -/
def numeral (n : Nat) : List UInt8 :=
  if n = 0 then [digit 0] else ((Nat.digits 10 n).map digit).reverse

/-- The number a numeral stands for. -/
def value (cs : List UInt8) : Nat := cs.foldl (fun n c => 10 * n + (c.toNat - 48)) 0

/-- A number with its sign. -/
def signed (z : Int) : List UInt8 := (if z < 0 then [45] else []) ++ numeral z.natAbs

/-- The number a numeral with a sign stands for. -/
def readSigned : List UInt8 → Int
  | 45 :: cs => -(value cs : Int)
  | cs => value cs

/-- A text at the right end of `w` columns. -/
def field (w : Nat) (cs : List UInt8) : List UInt8 := List.replicate (w - cs.length) 32 ++ cs

theorem toNat_digit (hd : d < 10) : (digit d).toNat = 48 + d := by
  rw [digit, UInt8.toNat_ofNat']
  omega

theorem digit_inj {d' : Nat} (hd : d < 10) (hd' : d' < 10) (h : digit d = digit d') : d = d' := by
  have := congrArg UInt8.toNat h
  rw [toNat_digit hd, toNat_digit hd'] at this
  omega

theorem value_append_digit (hd : d < 10) : value (cs ++ [digit d]) = 10 * value cs + d := by
  rw [value, List.foldl_append]
  simp only [List.foldl_cons, List.foldl_nil, toNat_digit hd]
  exact congrArg _ (Nat.add_sub_cancel_left ..)

theorem numeral_of_lt (hd : d < 10) : numeral d = [digit d] := by
  rw [numeral]
  split
  · rename_i h
    rw [h]
  · rename_i h
    rw [Nat.digits_of_lt 10 d h hd]
    rfl

/-- One more digit. -/
theorem numeral_append (hn : n ≠ 0) (hd : d < 10) :
    numeral (10 * n + d) = numeral n ++ [digit d] := by
  rw [numeral, numeral, if_neg (by omega), if_neg hn, Nat.add_comm,
    Nat.digits_add 10 (by omega) d n hd (Or.inr hn), List.map_cons, List.reverse_cons]

/-- **Round trip.** -/
theorem value_numeral (n : Nat) : value (numeral n) = n := by
  induction n using Nat.strong_induction_on with
  | _ n ih =>
      by_cases hlt : n < 10
      · rw [numeral_of_lt hlt, ← List.nil_append [digit n], value_append_digit hlt]
        exact Nat.zero_add n
      · have hdiv : n / 10 < n := by omega
        have hsplit : numeral n = numeral (n / 10) ++ [digit (n % 10)] := by
          rw [← numeral_append (by omega) (Nat.mod_lt n (by omega)), Nat.div_add_mod]
        rw [hsplit, value_append_digit (Nat.mod_lt n (by omega)), ih _ hdiv, Nat.div_add_mod]

theorem length_numeral_le (hk : 0 < k) (h : n < 10 ^ k) : (numeral n).length ≤ k := by
  rw [numeral]
  split
  · exact hk
  · rw [List.length_reverse, List.length_map]
    exact (Nat.digits_length_le_iff (by omega) n).mpr h

theorem isDigit_digit (hd : d < 10) : isDigit (digit d) = true := by
  rw [isDigit, Bool.and_eq_true, decide_eq_true_eq, decide_eq_true_eq, UInt8.le_iff_toNat_le,
    UInt8.le_iff_toNat_le, toNat_digit hd]
  exact ⟨Nat.le_add_right 48 d, by show 48 + d ≤ 57; omega⟩

/-- Only digits occur. -/
theorem isDigit_of_mem {c : UInt8} (hc : c ∈ numeral n) : isDigit c = true := by
  rw [numeral] at hc
  split at hc
  · rw [List.mem_singleton.mp hc]
    exact isDigit_digit (by omega)
  · obtain ⟨d, hd, rfl⟩ := List.mem_map.mp (List.mem_reverse.mp hc)
    exact isDigit_digit (Nat.digits_lt_base (by omega) hd)

theorem zero_notMem_numeral : 0 ∉ numeral n :=
  fun h => absurd (isDigit_of_mem h) (by decide)

theorem zero_notMem_signed (z : Int) : 0 ∉ signed z := by
  rw [signed]
  split
  · simpa using zero_notMem_numeral
  · simpa using zero_notMem_numeral

/-- **Round trip of numbers with a sign.** -/
theorem readSigned_signed (z : Int) : readSigned (signed z) = z := by
  rw [signed]
  split
  · rename_i h
    have hread : readSigned ([45] ++ numeral z.natAbs) = -(value (numeral z.natAbs) : Int) := rfl
    rw [hread, value_numeral]
    omega
  · rename_i h
    -- a digit is no minus sign
    have hread : readSigned (numeral z.natAbs) = value (numeral z.natAbs) := by
      unfold readSigned
      split
      · rename_i heq
        exact absurd (isDigit_of_mem (heq ▸ List.mem_cons_self)) (by decide)
      · rfl
    rw [List.nil_append, hread, value_numeral]
    omega

theorem length_field (h : cs.length ≤ w) : (field w cs).length = w := by
  rw [field, List.length_append, List.length_replicate]
  omega

/-- A character that is no digit ends a numeral. -/
theorem numeral_append_inj {m : Nat} {c c' : UInt8} {xs ys : List UInt8}
    (hc : isDigit c = false) (hc' : isDigit c' = false)
    (h : numeral n ++ c :: xs = numeral m ++ c' :: ys) : n = m ∧ c = c' ∧ xs = ys := by
  have hstop : ∀ {n : Nat} {c : UInt8} {xs : List UInt8}, isDigit c = false →
      (numeral n ++ c :: xs).takeWhile isDigit = numeral n := by
    intro n c xs hc
    rw [List.takeWhile_append_of_pos fun c hc => isDigit_of_mem hc,
      List.takeWhile_cons_of_neg (by simp [hc]), List.append_nil]
  have hnum : numeral n = numeral m := by
    calc numeral n
        = (numeral n ++ c :: xs).takeWhile isDigit := (hstop hc).symm
      _ = numeral m := by rw [h, hstop hc']
  refine ⟨?_, List.cons.injEq .. ▸ List.append_cancel_left (hnum ▸ h)⟩
  rw [← value_numeral n, hnum, value_numeral]

end Decimal
