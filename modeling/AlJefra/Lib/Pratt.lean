/- Large primes by the Lucas test. -/
import Mathlib.NumberTheory.LucasPrimality

namespace AlJefra.Lib

def powMod (m : Nat) : Nat → Nat → Nat → Nat
  | 0, _, _ => 1 % m
  | bits + 1, a, n =>
    if n % 2 = 1 then a * powMod m bits (a * a % m) (n / 2) % m
    else powMod m bits (a * a % m) (n / 2)

theorem powMod_eq (m : Nat) {bits a n : Nat} (h : n < 2 ^ bits) :
    powMod m bits a n = a ^ n % m := by
  induction bits generalizing a n with
  | zero =>
    obtain rfl : n = 0 := Nat.lt_one_iff.mp h
    rfl
  | succ bits ih =>
    rw [pow_succ] at h
    have hhalf : (a * a % m) ^ (n / 2) % m = a ^ (2 * (n / 2)) % m := by
      rw [← Nat.pow_mod, ← Nat.pow_two, ← Nat.pow_mul]
    rw [powMod, ih (by omega), hhalf]
    split
    · rename_i hodd
      rw [Nat.mul_mod_mod, ← Nat.pow_succ', show (2 * (n / 2)).succ = n by omega]
    · rw [show 2 * (n / 2) = n by omega]

def LucasTest (p a : Nat) (qs : List Nat) : Prop :=
  1 < p ∧ p < 2 ^ 256 ∧ qs.prod = p - 1 ∧ powMod p 256 a (p - 1) = 1 ∧
    ∀ q ∈ qs, powMod p 256 a ((p - 1) / q) ≠ 1

instance (p a : Nat) (qs : List Nat) : Decidable (LucasTest p a qs) :=
  inferInstanceAs (Decidable (_ ∧ _))

theorem LucasTest.prime {p a : Nat} {qs rs : List Nat} (h : LucasTest p a (qs ++ rs))
    (hqs : ∀ q ∈ qs, q.Prime) (hrs : ∀ r ∈ rs, r.Prime) : p.Prime := by
  obtain ⟨hp, hbits, hprod, hone, hne⟩ := h
  have hpow : ∀ n ≤ p - 1, ((a : ZMod p) ^ n = 1 ↔ powMod p 256 a n = 1) := by
    intro n hn
    rw [powMod_eq p (by omega), ← Nat.cast_pow, ← Nat.cast_one, ZMod.natCast_eq_natCast_iff',
      Nat.mod_eq_of_lt hp]
  refine lucas_primality p (a : ZMod p) ((hpow _ le_rfl).mpr hone) fun q hq hdvd => ?_
  rw [← hprod] at hdvd
  obtain ⟨r, hr, hqr⟩ := hq.prime.dvd_prod_iff.mp hdvd
  obtain rfl := (Nat.prime_dvd_prime_iff_eq hq (List.forall_mem_append.mpr ⟨hqs, hrs⟩ r hr)).mp hqr
  exact mt (hpow _ (Nat.div_le_self _ _)).mp (hne q hr)

end AlJefra.Lib
