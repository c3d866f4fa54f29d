/- Byte strings as numbers (`leNat`, `leBytes`). -/
import Mathlib.Algebra.Group.Nat.Defs
import Mathlib.Data.List.Basic

namespace AlJefra.Lib

open List

def leNat : List UInt8 → Nat
  | [] => 0
  | b :: bs => b.toNat + 256 * leNat bs

theorem leNat_lt : ∀ bs : List UInt8, leNat bs < 256 ^ bs.length
  | [] => by simp [leNat]
  | b :: bs => by
    have ih := leNat_lt bs
    have hb := b.toNat_lt
    simp only [leNat, length_cons, pow_succ]
    omega

theorem leNat_append (as bs : List UInt8) :
    leNat (as ++ bs) = leNat as + 256 ^ as.length * leNat bs := by
  induction as with
  | nil => simp [leNat]
  | cons a as ih =>
    rw [cons_append, leNat, ih, leNat, length_cons, Nat.pow_succ', Nat.mul_add,
      mul_assoc, add_assoc]

theorem leNat_eq_zero_iff {bs : List UInt8} : leNat bs = 0 ↔ ∀ b ∈ bs, b = 0 := by
  induction bs with
  | nil => simp [leNat]
  | cons b bs ih =>
    have hb : b = 0 ↔ b.toNat = 0 := UInt8.toNat_inj.symm
    rw [leNat, forall_mem_cons, ← ih, hb]
    omega

theorem leNat_inj : ∀ {as bs : List UInt8}, as.length = bs.length → leNat as = leNat bs → as = bs
  | [], [], _, _ => rfl
  | a :: as, b :: bs, hlen, h => by
    simp only [leNat] at h
    have ha := a.toNat_lt
    have hb := b.toNat_lt
    have hab : a = b := UInt8.toNat_inj.mp (by omega)
    have hrest : as = bs := leNat_inj (by simpa using hlen) (by omega)
    rw [hab, hrest]

def leBytes : Nat → Nat → List UInt8
  | 0, _ => []
  | k + 1, n => UInt8.ofNat n :: leBytes k (n / 256)

theorem length_leBytes : ∀ k n, (leBytes k n).length = k
  | 0, _ => rfl
  | k + 1, n => by rw [leBytes, length_cons, length_leBytes k]

theorem leBytes_zero (k : Nat) : leBytes k 0 = replicate k 0 := by
  induction k with
  | zero => rfl
  | succ k ih => simp [leBytes, ih, replicate_succ]

theorem leBytes_add (j k n : Nat) : leBytes (j + k) n = leBytes j n ++ leBytes k (n / 256 ^ j) := by
  induction j generalizing n with
  | zero => simp [leBytes]
  | succ j ih =>
    rw [Nat.add_right_comm, leBytes, ih, leBytes, cons_append, Nat.div_div_eq_div_mul,
      pow_succ']

theorem leNat_leBytes : ∀ k n, leNat (leBytes k n) = n % 256 ^ k
  | 0, n => by simp [leBytes, leNat, Nat.mod_one]
  | k + 1, n => by
    have ih := leNat_leBytes k (n / 256)
    have hb : (UInt8.ofNat n).toNat = n % 256 := UInt8.toNat_ofNat' ..
    rw [leBytes, leNat, hb, ih, pow_succ', Nat.mod_mul]

end AlJefra.Lib
