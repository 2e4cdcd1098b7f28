import Mathlib.Tactic.Common

/-!
# Brtos.Lib.Bytes

**Byte-addressed memory with halfwords.** A memory is a function from addresses to bytes. A
halfword lies in two consecutive bytes, in the order of the target (`Endian`), and is read and
written as a number. What a store does to a later load is said once, for the halfword stored
(`load16_store16`) and for one that shares no byte with it (`load16_store16_of_disjoint`), so
that nothing above looks at bytes; `copy` and `fill` are `memcpy` and `memset`.
-/

/-- A memory of bytes. -/
abbrev Bytes := Nat → UInt8

/-- The order of the two bytes of a halfword. -/
inductive Endian
  | little | big
  deriving DecidableEq, Repr

namespace Endian

/-- Where the low byte of the halfword at `a` lies. -/
def low : Endian → Nat → Nat
  | little, a => a
  | big, a => a + 1

/-- Where its high byte lies. -/
def high : Endian → Nat → Nat
  | little, a => a + 1
  | big, a => a

theorem low_high (e : Endian) (a : Nat) :
    (e.low a = a ∧ e.high a = a + 1) ∨ (e.low a = a + 1 ∧ e.high a = a) := by
  cases e
  · exact Or.inl ⟨rfl, rfl⟩
  · exact Or.inr ⟨rfl, rfl⟩

end Endian

namespace Bytes

/-- The halfword at `a`. -/
def load16 (e : Endian) (m : Bytes) (a : Nat) : Nat := 256 * (m (e.high a)).toNat + (m (e.low a)).toNat

/-- `v`, reduced to a halfword, is put at `a`. -/
def store16 (e : Endian) (m : Bytes) (a v : Nat) : Bytes := fun x =>
  if x = e.high a then .ofNat (v / 256 % 256) else if x = e.low a then .ofNat (v % 256) else m x

/-- `n` bytes are copied from `src` to `dst`. -/
def copy (m : Bytes) (dst src n : Nat) : Bytes := fun x =>
  if dst ≤ x ∧ x < dst + n then m (src + (x - dst)) else m x

/-- `n` bytes from `a` on are set to `v`. -/
def fill (m : Bytes) (a n : Nat) (v : UInt8) : Bytes := fun x =>
  if a ≤ x ∧ x < a + n then v else m x

variable {e : Endian} {m m' : Bytes} {a b v x : Nat}

/-- A halfword is read from its two bytes. -/
theorem load16_congr (h0 : m' a = m b) (h1 : m' (a + 1) = m (b + 1)) :
    load16 e m' a = load16 e m b := by
  cases e <;> simp only [load16, Endian.low, Endian.high, h0, h1]

theorem store16_of_ne (h0 : x ≠ a) (h1 : x ≠ a + 1) : store16 e m a v x = m x := by
  unfold store16
  rcases e.low_high a with ⟨hl, hh⟩ | ⟨hl, hh⟩ <;> rw [hl, hh]
  · rw [if_neg h1, if_neg h0]
  · rw [if_neg h0, if_neg h1]

theorem load16_store16 : load16 e (store16 e m a v) a = v % 65536 := by
  have hne : e.low a ≠ e.high a := by
    rcases e.low_high a with ⟨hl, hh⟩ | ⟨hl, hh⟩ <;> omega
  have hhigh : (store16 e m a v (e.high a)).toNat = v / 256 % 256 := by
    simp [store16]
  have hlow : (store16 e m a v (e.low a)).toNat = v % 256 := by
    simp [store16, hne]
  rw [load16, hhigh, hlow]
  omega

theorem load16_store16_of_disjoint (h : b + 1 < a ∨ a + 1 < b) :
    load16 e (store16 e m a v) b = load16 e m b :=
  load16_congr (store16_of_ne (by omega) (by omega)) (store16_of_ne (by omega) (by omega))

theorem copy_of_mem {dst src n : Nat} (hx : x < n) : copy m dst src n (dst + x) = m (src + x) := by
  unfold copy
  rw [if_pos ⟨by omega, by omega⟩, Nat.add_sub_cancel_left]

theorem copy_of_notMem {dst src n : Nat} (h : x < dst ∨ dst + n ≤ x) :
    copy m dst src n x = m x := if_neg (by omega)

theorem load16_copy_of_mem {dst src n : Nat} (hx : x + 1 < n) :
    load16 e (copy m dst src n) (dst + x) = load16 e m (src + x) :=
  load16_congr (copy_of_mem (by omega)) (copy_of_mem hx)

theorem load16_copy_of_disjoint {dst src n : Nat} (h : b + 1 < dst ∨ dst + n ≤ b) :
    load16 e (copy m dst src n) b = load16 e m b :=
  load16_congr (copy_of_notMem (by omega)) (copy_of_notMem (by omega))

theorem fill_of_mem {n : Nat} {c : UInt8} (h : a ≤ x) (h' : x < a + n) : fill m a n c x = c :=
  if_pos ⟨h, h'⟩

theorem fill_of_notMem {n : Nat} {c : UInt8} (h : x < a ∨ a + n ≤ x) : fill m a n c x = m x :=
  if_neg (by omega)

end Bytes
