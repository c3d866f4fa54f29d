/- Sums of 16-bit words with end-around carry. -/
import AlJefra.Lib.LittleEndian

namespace AlJefra.Lib

open List

def wordSum : List UInt8 → Nat
  | [] => 0
  | [b] => b.toNat
  | a :: b :: rest => a.toNat + 256 * b.toNat + wordSum rest

theorem wordSum_append : ∀ (as bs : List UInt8), as.length % 2 = 0 →
    wordSum (as ++ bs) = wordSum as + wordSum bs
  | [], bs, _ => by simp [wordSum]
  | [a], bs, h => by simp at h
  | a :: b :: as, bs, h => by
    have ih := wordSum_append as bs (by simp only [length_cons] at h; omega)
    simp only [cons_append, wordSum, ih]
    omega

theorem wordSum_le : ∀ bs : List UInt8, wordSum bs ≤ 65535 * ((bs.length + 1) / 2)
  | [] => by simp [wordSum]
  | [b] => by
    have hb := b.toNat_lt
    simp only [wordSum, length_cons, length_nil]
    omega
  | a :: b :: rest => by
    have ha := a.toNat_lt
    have hb := b.toNat_lt
    have ih := wordSum_le rest
    simp only [wordSum, length_cons]
    omega

variable {n : Nat}

theorem wordSum_leBytes (h : n < 65536) : wordSum (leBytes 2 n) = n := by
  have hlo : (UInt8.ofNat n).toNat = n % 256 := UInt8.toNat_ofNat' ..
  have hhi : (UInt8.ofNat (n / 256)).toNat = n / 256 % 256 := UInt8.toNat_ofNat' ..
  simp only [leBytes, wordSum, hlo, hhi]
  omega

def carry (n : Nat) : Nat := n % 65536 + n / 65536

theorem carry_mod (n : Nat) : carry n % 65535 = n % 65535 := by
  unfold carry
  omega

theorem carry_pos (h : 0 < n) : 0 < carry n := by
  unfold carry
  omega

theorem carry_carry_lt (h : n < 2 ^ 32) : carry (carry n) < 65536 := by
  unfold carry
  omega

theorem carry_carry_of_dvd (hlt : n < 2 ^ 32) (hpos : 0 < n) (h : n % 65535 = 0) :
    carry (carry n) = 65535 := by
  have hmod : carry (carry n) % 65535 = 0 := by rw [carry_mod, carry_mod, h]
  have hlt' := carry_carry_lt hlt
  have hpos' := carry_pos (carry_pos hpos)
  omega

theorem carry_carry_complement (hlt : n + 65535 < 2 ^ 32) (hpos : 0 < n) :
    carry (carry (n + (65535 - carry (carry n)))) = 65535 := by
  have hfold : carry (carry n) % 65535 = n % 65535 := by rw [carry_mod, carry_mod]
  have hlt' := carry_carry_lt (show n < 2 ^ 32 by omega)
  exact carry_carry_of_dvd (by omega) (by omega) (by omega)

end AlJefra.Lib
