import Brtos.Lib.CString
import Brtos.Lib.Decimal

/-!
# Brtos.Info.Text

**The texts of `OSInfo.c`.** Its functions write one text from `string` on, piece by piece
(`mem_cpy`), and end it with a NUL; here they return what they write. Numbers go through
`PrintDecimal`, which fills seven characters of a buffer from the right and returns where
the number begins. It does not ask how long the buffer is.
-/

namespace Brtos

open Decimal

/-- A text of the source. -/
def ascii (s : String) : List UInt8 := s.toList.map Char.toUInt8

/-- What `mem_cpy` copies from `src`: up to the first NUL. -/
def memCpy (src : List UInt8) : List UInt8 := src.takeWhile (· ≠ 0)

/-- The digits of `PrintDecimal`, from `buff[i]` to the left; where it stops is where the
sign goes. `backup` is unsigned. -/
def printDigits : Nat → Int16 → List UInt8 → List UInt8 × Nat
  | 0, _, buff => (buff, 0)
  | i + 1, val, buff =>
    let backup := val.toUInt16
    let val := val / 10
    let buff := buff.set (i + 1) (UInt8.ofInt (backup.toNat - val.toInt * 10 + 48))
    if val = 0 then (buff, i) else printDigits i val buff

/-- `PrintDecimal`: the buffer afterwards, and the returned pointer as an index of it. `buff[6]` is
written, so a shorter buffer is overrun. -/
def printDecimal (val : Int16) (buff : List UInt8) : Option (List UInt8 × Nat) :=
  if 6 < buff.length then
    let buff := List.replicate 6 32 ++ 0 :: buff.drop 7
    let (val, s) := if val < 0 then (-val, 45) else (val, 32)
    let (buff, i) := printDigits 5 val buff
    some (buff.set i s, if s = 45 then i else i + 1)
  else none

/-- `mem_cpy(string, PrintDecimal(val, str))`: what is copied, and `str` afterwards. -/
def decimalText (val : Int16) (str : List UInt8) : Option (List UInt8 × List UInt8) :=
  (printDecimal val str).map fun (buff, i) => (memCpy (buff.drop i), buff)

theorem set_replicate_append {a x : UInt8} {rest : List UInt8} (k : Nat) :
    (List.replicate (k + 1) a ++ rest).set k x = List.replicate k a ++ x :: rest := by
  rw [List.replicate_succ', List.append_assoc, List.set_append_right _ _ (by simp)]
  simp

/-- One round of the loop. -/
theorem printDigits_digit {v : Int16} {n : Nat} (hv : v.toInt = n) :
    (v / 10).toInt = (n / 10 : Nat) ∧
      UInt8.ofInt (v.toUInt16.toNat - (v / 10).toInt * 10 + 48) = digit (n % 10) := by
  have hdiv : (v / 10).toInt = (n / 10 : Nat) := by
    rw [Int16.toInt_div_of_ne_right v 10 (by decide), hv]
    rfl
  have hle : 0 ≤ v := by
    rw [Int16.le_iff_toInt_le, hv]
    exact Int.natCast_nonneg n
  have hbackup : v.toUInt16.toNat = n := by
    rw [Int16.toNat_toUInt16_of_le hle, Int16.toNatClampNeg, hv]
    rfl
  refine ⟨hdiv, ?_⟩
  have hchar : (n : Int) - (n / 10 : Nat) * 10 + 48 = (48 + n % 10 : Nat) := by omega
  have hmod : ((48 + n % 10 : Nat) : Int) % 2 ^ 8 = (48 + n % 10 : Nat) := by omega
  rw [hdiv, hbackup, hchar, UInt8.ofInt, hmod]
  rfl

/-- **The loop.** It leaves the numeral, right-aligned in front of what was there, and the
index in front of it. -/
theorem printDigits_eq {rest : List UInt8} : ∀ {i n : Nat} {v : Int16}, 0 < i → n < 10 ^ i →
    v.toInt = n → printDigits i v (List.replicate (i + 1) 32 ++ rest) =
      (List.replicate (i + 1 - (numeral n).length) 32 ++ (numeral n ++ rest),
        i - (numeral n).length)
  | i + 1, n, v, _, hn, hv => by
      obtain ⟨hdiv, hchar⟩ := printDigits_digit hv
      rw [Nat.pow_succ] at hn
      rw [printDigits, hchar, set_replicate_append]
      by_cases hlt : n < 10
      · have h0 : v / 10 = 0 := by
          rw [← Int16.toInt_inj, hdiv, Nat.div_eq_of_lt hlt]
          rfl
        rw [if_pos h0, numeral_of_lt hlt, Nat.mod_eq_of_lt hlt]
        rfl
      · have h0 : v / 10 ≠ 0 := by
          intro h0
          rw [h0, Int16.toInt_zero] at hdiv
          omega
        have hi : 0 < i := by
          by_contra hi
          have : i = 0 := by omega
          subst this
          omega
        have hsplit : numeral n = numeral (n / 10) ++ [digit (n % 10)] := by
          rw [← numeral_append (by omega) (Nat.mod_lt n (by omega)), Nat.div_add_mod]
        rw [if_neg h0, printDigits_eq hi (by omega) hdiv, hsplit, List.length_append,
          List.append_assoc]
        simp only [List.length_singleton, List.singleton_append, Nat.add_sub_add_right]

theorem length_signed_le (v : Int16) :
    (signed v.toInt).length ≤ 6 ∧ (numeral v.toInt.natAbs).length ≤ 5 := by
  have h1 := v.toInt_lt
  have h2 := v.le_toInt
  have hlen : (numeral v.toInt.natAbs).length ≤ 5 := length_numeral_le (by omega) (by omega)
  refine ⟨?_, hlen⟩
  rw [signed, List.length_append]
  split <;> simp <;> omega

/-- What `PrintDecimal` leaves: the number at the right end of six columns, and a NUL. -/
theorem printDecimal_eq {v : Int16} (hv : v ≠ Int16.minValue) {buff : List UInt8}
    (hlen : 6 < buff.length) : printDecimal v buff =
      some (field 6 (signed v.toInt) ++ 0 :: buff.drop 7, 6 - (signed v.toInt).length) := by
  have hnum := (length_signed_le v).2
  have hmin : v.toInt ≠ -2 ^ 15 := fun h => hv (Int16.toInt_inj.mp h)
  have hlow := v.le_toInt
  have hhigh := v.toInt_lt
  have hloop : ∀ {w : Int16}, w.toInt = (v.toInt.natAbs : Nat) →
      printDigits 5 w (List.replicate 6 32 ++ 0 :: buff.drop 7) =
        (List.replicate (5 - (numeral v.toInt.natAbs).length + 1) 32 ++
          (numeral v.toInt.natAbs ++ 0 :: buff.drop 7), 5 - (numeral v.toInt.natAbs).length) := by
    intro w hw
    rw [printDigits_eq (i := 5) (by omega) (by omega) hw]
    congr 3
    omega
  rw [printDecimal, if_pos hlen]
  by_cases hneg : v < 0
  · have hz : v.toInt < 0 := by
      rw [Int16.lt_iff_toInt_lt] at hneg
      simpa using hneg
    have hw : (-v).toInt = (v.toInt.natAbs : Nat) := by
      rw [Int16.toInt_neg, Int.bmod_eq_of_le (by omega) (by omega)]
      omega
    simp only [if_pos hneg, hloop hw, set_replicate_append, if_true]
    have hpad : 6 - (45 :: numeral v.toInt.natAbs).length =
        5 - (numeral v.toInt.natAbs).length := by
      rw [List.length_cons]
      omega
    rw [field, signed, if_pos hz, List.singleton_append, hpad, List.append_assoc, List.cons_append]
  · have hz : ¬ v.toInt < 0 := by
      rw [Int16.lt_iff_toInt_lt] at hneg
      simpa using hneg
    have hw : v.toInt = (v.toInt.natAbs : Nat) := by omega
    have hne : (32 : UInt8) ≠ 45 := by decide
    simp only [if_neg hneg, hloop hw, set_replicate_append, if_neg hne]
    have hpad : 6 - (numeral v.toInt.natAbs).length =
        5 - (numeral v.toInt.natAbs).length + 1 := by omega
    rw [field, signed, if_neg hz, List.nil_append, hpad, List.replicate_succ', List.append_assoc,
      List.append_assoc, List.singleton_append]

/-- What is copied from the returned pointer is the number. -/
theorem memCpy_drop_field {z : Int} (rest : List UInt8) :
    memCpy ((field 6 (signed z) ++ 0 :: rest).drop (6 - (signed z).length)) = signed z := by
  rw [field, List.append_assoc, List.drop_left' (List.length_replicate ..), memCpy,
    List.takeWhile_append_of_pos, List.takeWhile_cons_of_neg (by simp), List.append_nil]
  intro c hc
  exact decide_eq_true fun h0 => zero_notMem_signed _ (h0 ▸ hc)

theorem decimalText_ofNat {n : Nat} (str : List UInt8) (h : n < 2 ^ 15) (hlen : 6 < str.length) :
    ∃ str', decimalText (Int16.ofNat n) str = some (numeral n, str') ∧ str'.length = str.length := by
  have hv : (Int16.ofNat n).toInt = n := Int16.toInt_ofNat_of_lt h
  have hne : Int16.ofNat n ≠ Int16.minValue := by
    intro heq
    rw [heq] at hv
    exact absurd hv (by simp)
  have hsigned : signed (Int16.ofNat n).toInt = numeral n := by
    rw [hv, signed, if_neg (by omega), List.nil_append, Int.natAbs_natCast]
  refine ⟨field 6 (signed (Int16.ofNat n).toInt) ++ 0 :: str.drop 7, ?_, ?_⟩
  · rw [decimalText, printDecimal_eq hne hlen, Option.map_some]
    dsimp only
    rw [memCpy_drop_field, hsigned]
  · have hwidth := length_field (length_signed_le (Int16.ofNat n)).1
    rw [List.length_append, hwidth, List.length_cons, List.length_drop]
    omega

/-- With a buffer of six characters or less `PrintDecimal` writes behind it. -/
theorem printDecimal_eq_none (v : Int16) {buff : List UInt8} (hlen : ¬ 6 < buff.length) :
    printDecimal v buff = none := if_neg hlen

/-- **`PrintDecimal` prints the number**, at the right end of six columns and with a NUL behind
it, and returns where it begins, exactly when the buffer has seven characters and the number is
not -32768, whose negative is no `int16_t`. -/
theorem print_decimal_iff (v : Int16) (buff : List UInt8) :
    (∃ out i, printDecimal v buff = some (out, i) ∧
        out = field 6 (signed v.toInt) ++ 0 :: buff.drop 7 ∧
        memCpy (out.drop i) = signed v.toInt ∧ readSigned (memCpy (out.drop i)) = v.toInt) ↔
      6 < buff.length ∧ v ≠ Int16.minValue := by
  constructor
  · rintro ⟨out, i, hprint, rfl, -, -⟩
    have hlen : 6 < buff.length := by
      by_contra hlen
      rw [printDecimal_eq_none v hlen] at hprint
      cases hprint
    refine ⟨hlen, ?_⟩
    rintro rfl
    rw [printDecimal, if_pos hlen] at hprint
    generalize buff.drop 7 = rest at hprint
    -- the loop divides a negative number
    have hout : some ([45, 45, 46, 41, 42, 40] ++ 0 :: rest, 0) =
        some (field 6 (signed Int16.minValue.toInt) ++ 0 :: rest, i) := hprint
    obtain ⟨heq, -⟩ := Prod.mk.inj (Option.some.inj hout)
    exact absurd (List.append_cancel_right heq) (by decide)
  · rintro ⟨hlen, hv⟩
    refine ⟨_, _, printDecimal_eq hv hlen, rfl, memCpy_drop_field _, ?_⟩
    rw [memCpy_drop_field, readSigned_signed]

end Brtos
