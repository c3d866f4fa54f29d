/- Bits and fields of a 64-bit word, and the masks of C code that read them. -/
import Mathlib.Algebra.Group.Nat.Defs

namespace AlJefra.Lib

def bit (w : UInt64) (k : Nat) : Bool := w.toNat.testBit k
def field (w : UInt64) (lo len : Nat) : Nat := w.toNat / 2 ^ lo % 2 ^ len

@[simp] theorem bit_or (a b : UInt64) (k : Nat) : bit (a ||| b) k = (bit a k || bit b k) := by
  simp [bit, UInt64.toNat_or, Nat.testBit_or]

@[simp] theorem bit_and (a b : UInt64) (k : Nat) : bit (a &&& b) k = (bit a k && bit b k) := by
  simp [bit, UInt64.toNat_and, Nat.testBit_and]

variable {k n : Nat} {a b c w : UInt64}

theorem toNat_shiftRight_eq {k : UInt64} (hk : k.toNat = n) (hn : n < 64) (a : UInt64) :
    (a >>> k).toNat = a.toNat / 2 ^ n := by
  rw [UInt64.toNat_shiftRight, hk, Nat.mod_eq_of_lt hn, Nat.shiftRight_eq_div_pow]

theorem toNat_and_mask {m : UInt64} (hm : m.toNat = 2 ^ n - 1) :
    (w &&& m).toNat = w.toNat % 2 ^ n := by
  rw [UInt64.toNat_and, hm, Nat.and_two_pow_sub_one_eq_mod]

theorem toNat_or_shiftLeft {k : UInt64} (hk : k.toNat = n) (hn : n < 64) (ha : a.toNat < 2 ^ n)
    (b : UInt64) : (a ||| (b <<< k)).toNat = a.toNat + 2 ^ n * (b.toNat % 2 ^ (64 - n)) := by
  have hsplit : 2 ^ 64 = 2 ^ n * 2 ^ (64 - n) := by
    rw [← Nat.pow_add, Nat.add_sub_cancel' (Nat.le_of_lt hn)]
  rw [UInt64.toNat_or, UInt64.toNat_shiftLeft, hk, Nat.mod_eq_of_lt hn, Nat.shiftLeft_eq, hsplit,
    mul_comm b.toNat, Nat.mul_mod_mul_left, Nat.or_comm,
    ← Nat.two_pow_add_eq_or_of_lt ha, add_comm]

theorem bit_of_lt (h : w.toNat < 2 ^ n) (hk : n ≤ k) : bit w k = false :=
  Nat.testBit_lt_two_pow (Nat.lt_of_lt_of_le h (Nat.pow_le_pow_right (by decide) hk))

theorem word_ext (h : ∀ k < 64, bit a k = bit b k) : a = b := by
  refine UInt64.toNat_inj.mp (Nat.eq_of_testBit_eq fun k => ?_)
  by_cases hk : k < 64
  · exact h k hk
  · exact (bit_of_lt a.toNat_lt (by omega)).trans (bit_of_lt b.toNat_lt (by omega)).symm

theorem bit_flag (hc : c.toNat = 2 ^ k) (j : Nat) : bit c j = decide (k = j) := by
  rw [bit, hc, Nat.testBit_two_pow]

theorem and_flag_eq_zero (hc : c.toNat = 2 ^ k) : w &&& c = 0 ↔ bit w k = false := by
  have hzero : ∀ j, bit 0 j = false := fun j => Nat.zero_testBit j
  constructor
  · intro h
    have hk := congrArg (bit · k) h
    simpa [bit_flag hc, hzero] using hk
  · intro h
    refine word_ext fun j _ => ?_
    rw [bit_and, bit_flag hc, hzero]
    by_cases hj : k = j
    · rw [← hj, h, Bool.false_and]
    · simp [hj]

theorem bit_ite (c : Prop) [Decidable c] (a b : UInt64) (k : Nat) :
    bit (if c then a ||| b else a) k = (bit a k || (decide c && bit b k)) := by
  by_cases h : c <;> simp [h]

theorem bit_of_aligned (h : w.toNat % 2 ^ n = 0) (hk : k < n) : bit w k = false := by
  have hmod := Nat.testBit_mod_two_pow w.toNat n k
  rw [h] at hmod
  simpa [hk, bit] using hmod.symm

theorem testBit_field (w : UInt64) (lo len k : Nat) :
    (field w lo len).testBit k = (decide (k < len) && bit w (lo + k)) := by
  rw [field, Nat.testBit_mod_two_pow, Nat.testBit_div_two_pow, bit, add_comm]

theorem toNat_and_high {mask : UInt64} (hmask : ∀ k < 64, bit mask k = decide (n ≤ k)) :
    (w &&& mask).toNat = w.toNat / 2 ^ n * 2 ^ n := by
  refine Nat.eq_of_testBit_eq fun k => ?_
  rw [Nat.testBit_mul_two_pow, Nat.testBit_div_two_pow]
  change bit (w &&& mask) k = _
  rw [bit_and]
  by_cases hk : k < 64
  · rw [hmask k hk]
    by_cases hn : n ≤ k
    · simp [hn, bit]
    · simp [hn]
  · have hw : bit w k = false := bit_of_lt w.toNat_lt (by omega)
    by_cases hn : n ≤ k
    · rw [hw, Nat.sub_add_cancel hn]
      simpa [hn, bit] using hw.symm
    · simp [hw, hn]

theorem bit_eq_decide (w : UInt64) (k : Nat) : bit w k = decide (w.toNat / 2 ^ k % 2 = 1) :=
  Nat.testBit_eq_decide_div_mod_eq

@[simp] theorem bit_zero (k : Nat) : bit 0 k = false := Nat.zero_testBit k

theorem bit_shiftRight {n : UInt64} (hn : n.toNat < 64) (k : Nat) :
    bit (w >>> n) k = bit w (n.toNat + k) := by
  rw [bit, UInt64.toNat_shiftRight, Nat.mod_eq_of_lt hn, Nat.testBit_shiftRight, bit]

theorem bit_shiftLeft {n : UInt64} (hn : n.toNat < 64) (k : Nat) :
    bit (w <<< n) k = (decide (k < 64) && decide (n.toNat ≤ k) && bit w (k - n.toNat)) := by
  rw [bit, UInt64.toNat_shiftLeft, Nat.mod_eq_of_lt hn, Nat.testBit_mod_two_pow,
    Nat.testBit_shiftLeft, bit, Bool.and_assoc]

theorem field_congr {lo len : Nat} (h : ∀ k, lo ≤ k → k < lo + len → bit a k = bit b k) :
    field a lo len = field b lo len := by
  refine Nat.eq_of_testBit_eq fun k => ?_
  rw [testBit_field, testBit_field]
  by_cases hk : k < len
  · rw [h (lo + k) (by omega) (by omega)]
  · simp [hk]

/-! ## Spans of addresses -/

def InSpan (base size a : UInt64) : Prop := a - base < size

instance (base size a : UInt64) : Decidable (InSpan base size a) :=
  inferInstanceAs (Decidable (_ < _))

theorem toNat_offset (a base : UInt64) :
    (a - base).toNat = if base.toNat ≤ a.toNat then a.toNat - base.toNat
      else a.toNat + 2 ^ 64 - base.toNat := by
  have ha := a.toNat_lt
  have hb := base.toNat_lt
  rw [UInt64.toNat_sub]
  split <;> omega

theorem inSpan_iff {base size : UInt64} : InSpan base size a ↔ (a - base).toNat < size.toNat :=
  UInt64.lt_iff_toNat_lt

end AlJefra.Lib
