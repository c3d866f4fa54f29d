/- The field arithmetic computes in the integers modulo `2^255 - 19`. -/
import AlJefra.Lib.BlockMode
import AlJefra.Lib.Pratt
import AlJefra.Lib.Word
import AlJefra.Store.Fe
import Mathlib.FieldTheory.Finite.Basic
import Mathlib.Tactic.NormNum.Prime

namespace AlJefra.Store

open AlJefra.Lib List

/-! ## Residues -/

def p25519 : Nat := 2 ^ 255 - 19

instance : NeZero p25519 := ⟨by decide⟩

abbrev Residue := ZMod p25519

theorem two_pow_255 : (2 : Residue) ^ 255 = 19 := by
  have h : ((2 ^ 255 : Nat) : Residue) = ((p25519 + 19 : Nat) : Residue) := by congr 1
  rwa [Nat.cast_add, ZMod.natCast_self, zero_add, Nat.cast_pow] at h

def Fe.value (f : Fe) : Int :=
  f.l0 + 2 ^ 51 * f.l1 + 2 ^ 102 * f.l2 + 2 ^ 153 * f.l3 + 2 ^ 204 * f.l4

def Fe.den (f : Fe) : Residue := (f.value : Residue)

structure Fe.Below (b : Int) (f : Fe) : Prop where
  l0 : 0 ≤ f.l0 ∧ f.l0 < b
  l1 : 0 ≤ f.l1 ∧ f.l1 < b
  l2 : 0 ≤ f.l2 ∧ f.l2 < b
  l3 : 0 ≤ f.l3 ∧ f.l3 < b
  l4 : 0 ≤ f.l4 ∧ f.l4 < b

variable {b c x : Int} {h t : Fe}

theorem Fe.Below.mono {f : Fe} (h : f.Below b) (hbc : b ≤ c) : f.Below c :=
  ⟨⟨h.l0.1, h.l0.2.trans_le hbc⟩, ⟨h.l1.1, h.l1.2.trans_le hbc⟩, ⟨h.l2.1, h.l2.2.trans_le hbc⟩,
    ⟨h.l3.1, h.l3.2.trans_le hbc⟩, ⟨h.l4.1, h.l4.2.trans_le hbc⟩⟩

def Fe.limbs (f : Fe) : List Int := [f.l0, f.l1, f.l2, f.l3, f.l4]

theorem Fe.Below.limbs {f : Fe} (h : f.Below b) : ∀ x ∈ f.limbs, 0 ≤ x ∧ x < b := by
  simp only [Fe.limbs, forall_mem_cons, not_mem_nil, false_imp_iff, implies_true, and_true]
  exact ⟨h.l0, h.l1, h.l2, h.l3, h.l4⟩

def Fe.Within (b : Int) (f : Fe) : Prop := ∀ x ∈ f.limbs, -b < x ∧ x < b

theorem Fe.Below.within {f : Fe} (h : f.Below b) (hbc : b ≤ c) : f.Within c := by
  intro x hx
  have := h.limbs x hx
  omega

def InInt64 (x : Int) : Prop := -2 ^ 63 ≤ x ∧ x < 2 ^ 63

theorem Fe.den_eq_of_value {f : Fe} {n k : Int} (h : f.value = n - (2 ^ 255 - 19) * k) :
    f.den = (n : Residue) := by
  rw [Fe.den, h]
  push_cast
  linear_combination (-(k : Residue)) * two_pow_255

theorem fe0_den : fe0.den = 0 := by simp [Fe.den, Fe.value, fe0]
theorem fe1_den : fe1.den = 1 := by simp [Fe.den, Fe.value, fe1]
theorem fe1_below : fe1.Below (2 ^ 51) := by constructor <;> decide

/-! ## Addition and subtraction -/

theorem feAdd_den (f g : Fe) : (feAdd f g).den = f.den + g.den := by
  simp only [Fe.den, Fe.value, feAdd]
  push_cast
  ring

theorem feAdd_below {f g : Fe} (hf : f.Below b) (hg : g.Below c) : (feAdd f g).Below (b + c) := by
  obtain ⟨f0, f1, f2, f3, f4⟩ := hf
  obtain ⟨g0, g1, g2, g3, g4⟩ := hg
  constructor <;> simp only [feAdd] <;> omega

theorem feCarry_value (h : Fe) : ∃ k, (feCarry h).value = h.value - (2 ^ 255 - 19) * k := by
  simp only [feCarry, Fe.value]
  exact ⟨(h.l4 + (h.l3 + (h.l2 + (h.l1 + h.l0 / 2 ^ 51) / 2 ^ 51) / 2 ^ 51) / 2 ^ 51) / 2 ^ 51,
    by omega⟩

theorem feCarry_den (h : Fe) : (feCarry h).den = h.den := by
  obtain ⟨k, hk⟩ := feCarry_value h
  exact Fe.den_eq_of_value hk

def carried : Int := 2 ^ 51 + 2 ^ 20

theorem feCarry_below (hh : h.Below (2 ^ 60)) : (feCarry h).Below carried := by
  obtain ⟨h0, h1, h2, h3, h4⟩ := hh
  constructor <;> simp only [feCarry, carried] <;> omega

def feCarryTemps (h : Fe) : List Int :=
  let h1 := h.l1 + h.l0 / 2 ^ 51
  let h2 := h.l2 + h1 / 2 ^ 51
  let h3 := h.l3 + h2 / 2 ^ 51
  let h4 := h.l4 + h3 / 2 ^ 51
  [h1, h2, h3, h4, h4 / 2 ^ 51 * 19, h.l0 % 2 ^ 51 + h4 / 2 ^ 51 * 19]

theorem inInt64_feCarryTemps (hh : h.Within (2 ^ 62)) : ∀ x ∈ feCarryTemps h, InInt64 x := by
  simp only [Fe.Within, Fe.limbs, feCarryTemps, InInt64, forall_mem_cons, not_mem_nil,
    false_imp_iff, implies_true, and_true] at hh ⊢
  omega

theorem feCarry_range (hh : h.Within (2 ^ 62)) :
    (-2 ^ 16 < (feCarry h).l0 ∧ (feCarry h).l0 < 2 ^ 51 + 2 ^ 16) ∧
      ∀ x ∈ (feCarry h).limbs.tail, 0 ≤ x ∧ x < 2 ^ 51 := by
  simp only [Fe.Within, Fe.limbs, feCarry, tail_cons, forall_mem_cons, not_mem_nil,
    false_imp_iff, implies_true, and_true] at hh ⊢
  omega

theorem feCarry_feCarry_below (hh : h.Within (2 ^ 62)) :
    (feCarry h).Within (2 ^ 62) ∧ (feCarry (feCarry h)).Below (2 ^ 51) := by
  obtain ⟨h0, htail⟩ := feCarry_range hh
  generalize feCarry h = t at h0 htail
  simp only [Fe.limbs, tail_cons, forall_mem_cons, not_mem_nil, false_imp_iff,
    implies_true, and_true] at htail
  constructor
  · simp only [Fe.Within, Fe.limbs, forall_mem_cons, not_mem_nil, false_imp_iff,
      implies_true, and_true]
    omega
  · constructor <;> simp only [feCarry] <;> omega

theorem feSub_den (f g : Fe) : (feSub f g).den = f.den - g.den := by
  rw [feSub, feCarry_den]
  simp only [Fe.den, Fe.value]
  push_cast
  linear_combination 2 * two_pow_255

theorem feSub_below {f g : Fe} (hf : f.Below (2 ^ 53)) (hg : g.Below (2 ^ 52 - 38)) :
    (feSub f g).Below carried := by
  apply feCarry_below
  obtain ⟨f0, f1, f2, f3, f4⟩ := hf
  obtain ⟨g0, g1, g2, g3, g4⟩ := hg
  constructor <;> dsimp only <;> omega

theorem feNeg_den (f : Fe) : (feNeg f).den = -f.den := by
  rw [feNeg, feSub_den, fe0_den, zero_sub]

theorem feNeg_below {f : Fe} (hf : f.Below (2 ^ 52 - 38)) : (feNeg f).Below carried :=
  feSub_below (by constructor <;> decide) hf

/-! ## Multiplication -/

theorem wrap128_of_lt (h0 : 0 ≤ x) (h : x < 2 ^ 128) : wrap128 x = x := Int.emod_eq_of_lt h0 h

theorem toInt64_of_lt (h0 : 0 ≤ x) (h : x < 2 ^ 63) : toInt64 x = x := by
  rw [toInt64, Int.emod_eq_of_lt (by omega) (by omega), Int.add_sub_cancel]

structure Fe.Reduced (f : Fe) : Prop where
  l0 : 0 ≤ f.l0 ∧ f.l0 < 2 ^ 51
  l1 : 0 ≤ f.l1 ∧ f.l1 < 2 ^ 51 + 2 ^ 13
  l2 : 0 ≤ f.l2 ∧ f.l2 < 2 ^ 51
  l3 : 0 ≤ f.l3 ∧ f.l3 < 2 ^ 51
  l4 : 0 ≤ f.l4 ∧ f.l4 < 2 ^ 51

theorem Fe.Reduced.below {f : Fe} (h : f.Reduced) : f.Below carried := by
  obtain ⟨h0, h1, h2, h3, h4⟩ := h
  constructor <;> rw [carried] <;> omega

def feCarry128Temps : List Int → List Int
  | [r0, r1, r2, r3, r4] =>
    let a := r1 + r0 / 2 ^ 51
    let b := r2 + a / 2 ^ 51
    let c := r3 + b / 2 ^ 51
    let d := r4 + c / 2 ^ 51
    let e := r0 % 2 ^ 51 + d / 2 ^ 51 * 19
    [a, b, c, d, d / 2 ^ 51 * 19, e, a % 2 ^ 51 + e / 2 ^ 51]
  | _ => []

theorem feCarry128_spec {r0 r1 r2 r3 r4 : Int} (h0 : 0 ≤ r0 ∧ r0 < 2 ^ 116)
    (h1 : 0 ≤ r1 ∧ r1 < 2 ^ 116) (h2 : 0 ≤ r2 ∧ r2 < 2 ^ 116) (h3 : 0 ≤ r3 ∧ r3 < 2 ^ 116)
    (h4 : 0 ≤ r4 ∧ r4 < 2 ^ 109) :
    (∀ x ∈ feCarry128Temps [r0, r1, r2, r3, r4], 0 ≤ x ∧ x < 2 ^ 128) ∧
      (feCarry128 r0 r1 r2 r3 r4).Reduced ∧
      ∃ k, (feCarry128 r0 r1 r2 r3 r4).value =
        r0 + 2 ^ 51 * r1 + 2 ^ 102 * r2 + 2 ^ 153 * r3 + 2 ^ 204 * r4 - (2 ^ 255 - 19) * k := by
  obtain ⟨a, ha⟩ : ∃ a, r1 + r0 / 2 ^ 51 = a := ⟨_, rfl⟩
  obtain ⟨b, hb⟩ : ∃ b, r2 + a / 2 ^ 51 = b := ⟨_, rfl⟩
  obtain ⟨c, hc⟩ : ∃ c, r3 + b / 2 ^ 51 = c := ⟨_, rfl⟩
  obtain ⟨d, hd⟩ : ∃ d, r4 + c / 2 ^ 51 = d := ⟨_, rfl⟩
  obtain ⟨e, he⟩ : ∃ e, r0 % 2 ^ 51 + d / 2 ^ 51 * 19 = e := ⟨_, rfl⟩
  have htemps : ∀ x ∈ feCarry128Temps [r0, r1, r2, r3, r4], 0 ≤ x ∧ x < 2 ^ 128 := by
    simp only [feCarry128Temps, ha, hb, hc, hd, he, forall_mem_cons, not_mem_nil,
      false_imp_iff, implies_true, and_true]
    omega
  have hval : feCarry128 r0 r1 r2 r3 r4 =
      ⟨e % 2 ^ 51, a % 2 ^ 51 + e / 2 ^ 51, b % 2 ^ 51, c % 2 ^ 51, d % 2 ^ 51⟩ := by
    have hwrap : ∀ x ∈ feCarry128Temps [r0, r1, r2, r3, r4], wrap128 x = x :=
      fun x hx => wrap128_of_lt (htemps x hx).1 (htemps x hx).2
    simp only [feCarry128Temps, ha, hb, hc, hd, he, forall_mem_cons] at hwrap
    obtain ⟨e1, e2, e3, e4, -, e0, e5, -⟩ := hwrap
    simp only [feCarry128, ha, e1, hb, e2, hc, e3, hd, e4, he, e0, e5, Fe.mk.injEq]
    refine ⟨?_, ?_, ?_, ?_, ?_⟩ <;> exact toInt64_of_lt (by omega) (by omega)
  rw [hval]
  refine ⟨htemps, ?_, d / 2 ^ 51, ?_⟩
  · constructor <;> dsimp only <;> omega
  · simp only [Fe.value]
    omega

def feProducts (f g : Fe) : List (List Int) :=
  [[f.l0 * g.l0, f.l1 * (g.l4 * 19), f.l2 * (g.l3 * 19), f.l3 * (g.l2 * 19), f.l4 * (g.l1 * 19)],
   [f.l0 * g.l1, f.l1 * g.l0, f.l2 * (g.l4 * 19), f.l3 * (g.l3 * 19), f.l4 * (g.l2 * 19)],
   [f.l0 * g.l2, f.l1 * g.l1, f.l2 * g.l0, f.l3 * (g.l4 * 19), f.l4 * (g.l3 * 19)],
   [f.l0 * g.l3, f.l1 * g.l2, f.l2 * g.l1, f.l3 * g.l0, f.l4 * (g.l4 * 19)],
   [f.l0 * g.l4, f.l1 * g.l3, f.l2 * g.l2, f.l3 * g.l1, f.l4 * g.l0]]

def feMulTemps (f g : Fe) : List Int :=
  (feProducts f g).flatMap (fun row => row ++ row.inits.map List.sum) ++
    feCarry128Temps ((feProducts f g).map List.sum)

theorem mul_range {a c : Int} (ha : 0 ≤ a ∧ a < 2 ^ 53) (hb : 0 ≤ b ∧ b < c) :
    0 ≤ a * b ∧ a * b < 2 ^ 53 * c :=
  ⟨mul_nonneg ha.1 hb.1, mul_lt_mul'' ha.2 hb.2 ha.1 hb.1⟩

theorem feProducts_range {f g : Fe} (hf : f.Below (2 ^ 53)) (hg : g.Below (2 ^ 53)) :
    (∀ row ∈ feProducts f g, row.length = 5 ∧ ∀ x ∈ row, 0 ≤ x ∧ x < 2 ^ 111) ∧
      ∀ row ∈ (feProducts f g).drop 4, ∀ x ∈ row, x < 2 ^ 106 := by
  have hprod : ∀ x ∈ f.limbs, ∀ y ∈ g.limbs, x * y < 2 ^ 106 ∧
      (0 ≤ x * y ∧ x * y < 2 ^ 111) ∧ 0 ≤ x * (y * 19) ∧ x * (y * 19) < 2 ^ 111 := by
    intro x hx y hy
    have hy := hg.limbs y hy
    have hplain := mul_range (hf.limbs x hx) hy
    have hwrapped := mul_range (b := y * 19) (c := 2 ^ 58) (hf.limbs x hx) (by omega)
    omega
  simp only [Fe.limbs, forall_mem_cons, not_mem_nil, false_imp_iff, implies_true, and_true] at hprod
  simp only [feProducts, drop, forall_mem_cons, not_mem_nil, false_imp_iff,
    implies_true, hprod,
    length_cons, length_nil, and_self]

theorem sum_range {row : List Int} (h : ∀ x ∈ row, 0 ≤ x ∧ x < b) :
    0 ≤ row.sum ∧ row.sum ≤ row.length * b := by
  induction row with
  | nil => simp
  | cons x row ih =>
    obtain ⟨hx, hrow⟩ := forall_mem_cons.mp h
    have := ih hrow
    rw [sum_cons, length_cons, Nat.cast_add, Nat.cast_one, add_mul, one_mul]
    omega

theorem wrap128_sum {v w x y z : Int}
    (h : 0 ≤ [v, w, x, y, z].sum ∧ [v, w, x, y, z].sum < 2 ^ 116) :
    wrap128 (v + w + x + y + z) = [v, w, x, y, z].sum := by
  have hsum : v + w + x + y + z = [v, w, x, y, z].sum := by simp [add_assoc]
  rw [hsum]
  exact wrap128_of_lt h.1 (h.2.trans (by norm_num))

theorem feMul_temps {f g : Fe} (hf : f.Below (2 ^ 53)) (hg : g.Below (2 ^ 53)) :
    (∀ x ∈ feMulTemps f g, 0 ≤ x ∧ x < 2 ^ 128) ∧ (feMul f g).Reduced ∧
      (feMul f g).den = f.den * g.den := by
  obtain ⟨hrows, hlast⟩ := feProducts_range hf hg
  have hsums : ∀ row ∈ feProducts f g, 0 ≤ row.sum ∧ row.sum < 2 ^ 116 := by
    intro row hrow
    obtain ⟨hlen, hrange⟩ := hrows row hrow
    have := sum_range hrange
    rw [hlen] at this
    omega
  have htemps : ∀ x ∈ (feProducts f g).flatMap (fun row => row ++ row.inits.map sum),
      0 ≤ x ∧ x < 2 ^ 128 := by
    intro x hx
    obtain ⟨row, hrow, hx⟩ := mem_flatMap.mp hx
    obtain ⟨hlen, hrange⟩ := hrows row hrow
    obtain hx | hx := mem_append.mp hx
    · have := hrange x hx
      omega
    · obtain ⟨part, hpart, rfl⟩ := mem_map.mp hx
      have hpart := (mem_inits _ _).mp hpart
      have hle := hpart.length_le
      have := sum_range fun y hy => hrange y (hpart.subset hy)
      omega
  have htop : [f.l0 * g.l4, f.l1 * g.l3, f.l2 * g.l2, f.l3 * g.l1, f.l4 * g.l0].sum < 2 ^ 109 := by
    have := sum_range fun x hx =>
      ⟨((hrows _ (by simp [feProducts])).2 x hx).1, hlast _ (.head _) x hx⟩
    simp only [length_cons, length_nil] at this
    omega
  simp only [feProducts, forall_mem_cons] at hsums
  obtain ⟨s0, s1, s2, s3, s4, -⟩ := hsums
  obtain ⟨hcarries, hreduced, k, hk⟩ := feCarry128_spec s0 s1 s2 s3 ⟨s4.1, htop⟩
  rw [feMul, wrap128_sum s0, wrap128_sum s1, wrap128_sum s2, wrap128_sum s3, wrap128_sum s4]
  refine ⟨forall_mem_append.mpr ⟨htemps, hcarries⟩, hreduced, ?_⟩
  rw [Fe.den_eq_of_value hk]
  simp only [Fe.den, Fe.value, sum_cons, sum_nil]
  push_cast
  -- the products of weight `2^255` and above were added with the factor 19
  linear_combination (-(f.l1 * g.l4 + f.l2 * g.l3 + f.l3 * g.l2 + f.l4 * g.l1 +
    2 ^ 51 * (f.l2 * g.l4 + f.l3 * g.l3 + f.l4 * g.l2) +
    2 ^ 102 * (f.l3 * g.l4 + f.l4 * g.l3) + 2 ^ 153 * (f.l4 * g.l4)) : Residue) * two_pow_255

theorem feMul_spec {f g : Fe} (hf : f.Below (2 ^ 53)) (hg : g.Below (2 ^ 53)) :
    (feMul f g).Below carried ∧ (feMul f g).den = f.den * g.den :=
  have h := feMul_temps hf hg
  ⟨h.2.1.below, h.2.2⟩

/-- `fe_mul` multiplies, with no result out of the range of its type, and
its limbs have 51 bits but for limb 1. -/
theorem feMul_exact (f g : Fe) (hf : f.Below (2 ^ 53)) (hg : g.Below (2 ^ 53)) :
    (feMul f g).den = f.den * g.den ∧ (∀ x ∈ g.limbs, InInt64 (x * 19)) ∧
      (∀ x ∈ feMulTemps f g, 0 ≤ x ∧ x < 2 ^ 128) ∧ (feMul f g).Reduced := by
  obtain ⟨htemps, hreduced, hden⟩ := feMul_temps hf hg
  refine ⟨hden, fun x hx => ?_, htemps, hreduced⟩
  have := hg.limbs x hx
  unfold InInt64
  omega

def feTop : Fe := ⟨2 ^ 53 - 1, 2 ^ 53 - 1, 2 ^ 53 - 1, 2 ^ 53 - 1, 2 ^ 53 - 1⟩

theorem feMul_exact_top : (feMul feTop feTop).den = feTop.den * feTop.den :=
  have hbelow : feTop.Below (2 ^ 53) := by constructor <;> decide
  (feMul_exact feTop feTop hbelow hbelow).1

theorem feSq_spec {f : Fe} (hf : f.Below (2 ^ 53)) :
    (feSq f).Below carried ∧ (feSq f).den = f.den ^ 2 := by
  obtain ⟨hbelow, hden⟩ := feMul_spec hf hf
  exact ⟨hbelow, by rw [feSq, hden, pow_two]⟩

/-! ## Powers -/

theorem carried_le : carried ≤ 2 ^ 53 := by decide

structure IsPow (z : Residue) (n : Nat) (f : Fe) : Prop where
  below : f.Below (2 ^ 53)
  den : f.den = z ^ n

variable {z : Residue} {m n : Nat} {f g : Fe}

theorem IsPow.mul (hf : IsPow z m f) (hg : IsPow z n g) : IsPow z (m + n) (feMul f g) := by
  obtain ⟨hbelow, hden⟩ := feMul_spec hf.below hg.below
  exact ⟨hbelow.mono carried_le, by rw [hden, hf.den, hg.den, pow_add]⟩

theorem IsPow.sqN (k : Nat) (hf : IsPow z m f) : IsPow z (m * 2 ^ k) (feSqN k f) := by
  induction k generalizing m f with
  | zero => simpa [feSqN] using hf
  | succ k ih =>
    have hstep := ih (hf.mul hf)
    rwa [← Nat.mul_two, mul_assoc, ← pow_succ'] at hstep

theorem IsPow.self (hf : f.Below (2 ^ 53)) : IsPow f.den 1 f := ⟨hf, (pow_one _).symm⟩
theorem isPow_z9 (hf : IsPow z 1 f) : IsPow z 9 (feZ9 f) := ((hf.mul hf).sqN 2).mul hf
theorem isPow_z11 (hf : IsPow z 1 f) : IsPow z 11 (feZ11 f) := (isPow_z9 hf).mul (hf.mul hf)

theorem isPow_z250 (hf : IsPow z 1 f) : IsPow z (2 ^ 250 - 1) (feZ250 f) := by
  have h5 := ((isPow_z11 hf).mul (isPow_z11 hf)).mul (isPow_z9 hf)
  have h10 := (h5.sqN 5).mul h5
  have h20 := (h10.sqN 10).mul h10
  have h40 := (h20.sqN 20).mul h20
  have h50 := (h40.sqN 10).mul h10
  have h100 := (h50.sqN 50).mul h50
  have h200 := (h100.sqN 100).mul h100
  exact (h200.sqN 50).mul h50

theorem fePow2523_spec (hf : f.Below (2 ^ 53)) : IsPow f.den (2 ^ 252 - 3) (fePow2523 f) :=
  ((isPow_z250 (.self hf)).sqN 2).mul (.self hf)

theorem feInvert_spec (hf : f.Below (2 ^ 53)) : IsPow f.den (p25519 - 2) (feInvert f) :=
  ((isPow_z250 (.self hf)).sqN 5).mul (isPow_z11 (.self hf))

/-! ## Inverses -/

theorem p25519_prime : p25519.Prime := by
  have h1 : Nat.Prime 2773320623 :=
    (by decide +kernel : LucasTest _ 5 ([2, 2437, 569003] ++ [])).prime (by norm_num) (by simp)
  have h2 : Nat.Prime 72106336199 :=
    (by decide +kernel : LucasTest _ 7 ([2, 13] ++ [2773320623])).prime (by norm_num)
      (by simpa using h1)
  have h3 : Nat.Prime 1919519569386763 :=
    (by decide +kernel : LucasTest _ 2 ([2, 3, 7, 19, 47, 47, 127, 8574133] ++ [])).prime
      (by norm_num) (by simp)
  have h4 : Nat.Prime 31757755568855353 :=
    (by decide +kernel : LucasTest _ 10 ([2, 2, 2, 3, 31, 107, 223, 4153, 430751] ++ [])).prime
      (by norm_num) (by simp)
  have h5 : Nat.Prime 75445702479781427272750846543864801 := (by decide +kernel : LucasTest _ 7
      ([2, 2, 2, 2, 2, 3, 3, 5, 5, 75707] ++ [72106336199, 1919519569386763])).prime
      (by norm_num) (by simpa using ⟨h2, h3⟩)
  have h6 : Nat.Prime 74058212732561358302231226437062788676166966415465897661863160754340907 :=
    (by decide +kernel : LucasTest _ 2 ([2, 3, 353, 57467, 132049, 1923133] ++
      [31757755568855353, 75445702479781427272750846543864801])).prime
      (by norm_num) (by simpa using ⟨h4, h5⟩)
  exact (by decide +kernel : LucasTest _ 2 ([2, 2, 3, 65147] ++
    [74058212732561358302231226437062788676166966415465897661863160754340907])).prime
    (by norm_num) (by simpa using h6)

instance : Fact p25519.Prime := ⟨p25519_prime⟩

theorem feInvert_fePow2523 (z : Fe) (hz : z.Below (2 ^ 53)) :
    (feInvert z).den = z.den ^ (2 ^ 255 - 21) ∧ (z.den ≠ 0 → z.den * (feInvert z).den = 1) ∧
      (fePow2523 z).den = z.den ^ (2 ^ 252 - 3) := by
  have hinv := (feInvert_spec hz).den
  have hexp : p25519 - 2 = 2 ^ 255 - 21 := by decide
  have hlast : p25519 - 2 + 1 = p25519 - 1 := by decide
  refine ⟨by rw [hinv, hexp], fun hne => ?_, (fePow2523_spec hz).den⟩
  rw [hinv, ← pow_succ', hlast]
  exact ZMod.pow_card_sub_one_eq_one hne

theorem feInvert_fePow2523_two : 2 * (feInvert ⟨2, 0, 0, 0, 0⟩).den = 1 := by
  have hden : (⟨2, 0, 0, 0, 0⟩ : Fe).den = 2 := by simp [Fe.den, Fe.value]
  obtain ⟨-, hmul, -⟩ := feInvert_fePow2523 ⟨2, 0, 0, 0, 0⟩ (by constructor <;> decide)
  rw [hden] at hmul
  exact hmul (by decide +kernel)

/-! ## Storing -/

theorem feSubtractP_spec (ht : t.Below (2 ^ 51)) :
    (feSubtractP t).Below (2 ^ 51) ∧ (feSubtractP t).value = t.value % (2 ^ 255 - 19) := by
  obtain ⟨t0, t1, t2, t3, t4⟩ := ht
  simp only [feSubtractP]
  split
  · refine ⟨⟨t0, t1, t2, t3, t4⟩, ?_⟩
    simp only [Fe.value]
    omega
  · constructor
    · constructor <;> dsimp only <;> omega
    · simp only [Fe.value]
      omega

theorem toNat_toUInt64 (h0 : 0 ≤ x) (h : x < 2 ^ 51) : (toUInt64 x).toNat = x.toNat := by
  rw [toUInt64, UInt64.toNat_ofNat', Int.emod_eq_of_lt h0 (by omega)]
  omega

theorem leNat_fePack (ht : t.Below (2 ^ 51)) : (leNat (fePack t) : Int) = t.value := by
  obtain ⟨t0, t1, t2, t3, t4⟩ := ht
  have e0 := toNat_toUInt64 t0.1 t0.2
  have e1 := toNat_toUInt64 t1.1 t1.2
  have e2 := toNat_toUInt64 t2.1 t2.2
  have e3 := toNat_toUInt64 t3.1 t3.2
  have e4 := toNat_toUInt64 t4.1 t4.2
  have s1 := toNat_shiftRight_eq (k := 13) (n := 13) rfl (by decide) (toUInt64 t.l1)
  have s2 := toNat_shiftRight_eq (k := 26) (n := 26) rfl (by decide) (toUInt64 t.l2)
  have s3 := toNat_shiftRight_eq (k := 39) (n := 39) rfl (by decide) (toUInt64 t.l3)
  have w0 := toNat_or_shiftLeft (a := toUInt64 t.l0) (k := 51) (n := 51) rfl (by decide) (by omega)
    (toUInt64 t.l1)
  have w1 := toNat_or_shiftLeft (a := toUInt64 t.l1 >>> 13) (k := 38) (n := 38) rfl (by decide)
    (by omega) (toUInt64 t.l2)
  have w2 := toNat_or_shiftLeft (a := toUInt64 t.l2 >>> 26) (k := 25) (n := 25) rfl (by decide)
    (by omega) (toUInt64 t.l3)
  have w3 := toNat_or_shiftLeft (a := toUInt64 t.l3 >>> 39) (k := 12) (n := 12) rfl (by decide)
    (by omega) (toUInt64 t.l4)
  have word : ∀ w : UInt64, leNat (leBytes 8 w.toNat) = w.toNat := by
    intro w
    rw [leNat_leBytes]
    exact Nat.mod_eq_of_lt w.toNat_lt
  simp only [fePack, leNat_append, length_leBytes, length_append, word]
  simp only [w0, w1, w2, w3, s1, s2, s3, e0, e1, e2, e3, e4, Fe.value]
  clear w0 w1 w2 w3 s1 s2 s3 e0 e1 e2 e3 e4
  omega

theorem feTobytes_residue (hh : h.Within (2 ^ 62)) :
    ∃ t : Fe, feTobytes h = fePack t ∧ t.Below (2 ^ 51) ∧ t.value = (h.den.val : Int) := by
  obtain ⟨hbelow, hvalue⟩ := feSubtractP_spec (feCarry_feCarry_below hh).2
  refine ⟨_, rfl, hbelow, ?_⟩
  have hden : h.den = ((feCarry (feCarry h)).value : Residue) := by
    rw [← Fe.den, feCarry_den, feCarry_den]
  rw [hvalue, hden, ZMod.val_intCast]
  rfl

theorem length_feTobytes (h : Fe) : (feTobytes h).length = 32 := by
  simp [feTobytes, fePack, length_leBytes]

theorem leNat_feTobytes_within (hh : h.Within (2 ^ 62)) : leNat (feTobytes h) = h.den.val := by
  obtain ⟨t, hbytes, hbelow, hvalue⟩ := feTobytes_residue hh
  have hpack := leNat_fePack hbelow
  rw [hvalue] at hpack
  rw [hbytes]
  exact Int.ofNat.inj hpack

theorem leNat_feTobytes (hh : h.Below (2 ^ 53)) : leNat (feTobytes h) = h.den.val :=
  leNat_feTobytes_within (hh.within (by decide))

theorem val_lt_two_pow (x : Residue) : x.val < 2 ^ 255 - 19 := ZMod.val_lt x

theorem feIsnonzero_iff {f : Fe} (hf : f.Below (2 ^ 53)) : feIsnonzero f = true ↔ f.den ≠ 0 := by
  rw [feIsnonzero, decide_eq_true_iff, ne_eq, foldl_or_eq_zero]
  simp only [true_and, ← leNat_eq_zero_iff, leNat_feTobytes hf, ZMod.val_eq_zero, ne_eq]

theorem toNat_feIsneg {f : Fe} (hf : f.Below (2 ^ 53)) : (feIsneg f).toNat = f.den.val % 2 := by
  have hbytes := leNat_feTobytes hf
  have hlen := length_feTobytes f
  unfold feIsneg
  cases hcons : feTobytes f with
  | nil => simp [hcons] at hlen
  | cons b bs =>
    rw [hcons, leNat] at hbytes
    rw [← hbytes, getD_cons_zero, UInt8.toNat_and, UInt8.toNat_one, Nat.and_one_is_mod]
    omega

/-! ## Loading -/

theorem toNat_load64 {bs : List UInt8} (h : bs.length ≤ 8) : (load64 bs).toNat = leNat bs := by
  induction bs with
  | nil => rfl
  | cons b bs ih =>
    rw [length_cons] at h
    have ih := ih (by omega)
    have hlt := leNat_lt bs
    have hpow : 256 ^ bs.length ≤ 256 ^ 7 := Nat.pow_le_pow_right (by decide) (by omega)
    have hb : b.toUInt64.toNat = b.toNat := UInt8.toNat_toUInt64 b
    rw [load64, toNat_or_shiftLeft (n := 8) rfl (by decide) (by rw [hb]; exact b.toNat_lt), hb, ih,
      leNat]
    omega

theorem leNat_words (bs : List UInt8) (h : bs.length = 32) :
    leNat bs = (load64 (bs.take 8)).toNat + 2 ^ 64 * (load64 ((bs.drop 8).take 8)).toNat +
      2 ^ 128 * (load64 ((bs.drop 16).take 8)).toNat + 2 ^ 192 * (load64 (bs.drop 24)).toNat := by
  have hcut : bs = bs.take 8 ++ ((bs.drop 8).take 8 ++ ((bs.drop 16).take 8 ++ bs.drop 24)) := by
    have h24 : bs.drop 24 = (bs.drop 16).drop 8 := by rw [drop_drop]
    have h16 : bs.drop 16 = (bs.drop 8).drop 8 := by rw [drop_drop]
    rw [h24, take_append_drop, h16, take_append_drop, take_append_drop]
  have l0 : (bs.take 8).length = 8 := by rw [length_take, h]; rfl
  have l1 : ((bs.drop 8).take 8).length = 8 := by rw [length_take, length_drop, h]; rfl
  have l2 : ((bs.drop 16).take 8).length = 8 := by
    rw [length_take, length_drop, h]; rfl
  have l3 : (bs.drop 24).length = 8 := by rw [length_drop, h]
  rw [toNat_load64 l0.le, toNat_load64 l1.le, toNat_load64 l2.le, toNat_load64 l3.le]
  conv_lhs => rw [hcut]
  rw [leNat_append, leNat_append, leNat_append, l0, l1, l2]
  omega

theorem feFrombytes_spec (s : Table UInt8 32) :
    (feFrombytes s).Below (2 ^ 51) ∧ (feFrombytes s).value = (leNat s.slots % 2 ^ 255 : Nat) := by
  have hwords := leNat_words s.slots s.length_slots
  have mask : ∀ w : UInt64, (w &&& 0x7FFFFFFFFFFFF).toNat = w.toNat % 2 ^ 51 :=
    fun w => toNat_and_mask rfl
  have sign : ∀ w : UInt64, (w &&& 0x7FFFFFFFFFFFFFFF).toNat = w.toNat % 2 ^ 63 :=
    fun w => toNat_and_mask rfl
  rw [hwords]
  simp only [feFrombytes, mask]
  generalize load64 (s.slots.take 8) = w0
  generalize load64 ((s.slots.drop 8).take 8) = w1
  generalize load64 ((s.slots.drop 16).take 8) = w2
  generalize load64 (s.slots.drop 24) = w3
  have hs3 := sign w3
  generalize w3 &&& 0x7FFFFFFFFFFFFFFF = w3' at hs3
  have b0 := w0.toNat_lt
  have b1 := w1.toNat_lt
  have b2 := w2.toNat_lt
  have s0 := toNat_shiftRight_eq (k := 51) (n := 51) rfl (by decide) w0
  have s1 := toNat_shiftRight_eq (k := 38) (n := 38) rfl (by decide) w1
  have s2 := toNat_shiftRight_eq (k := 25) (n := 25) rfl (by decide) w2
  have s3 := toNat_shiftRight_eq (k := 12) (n := 12) rfl (by decide) w3'
  have o1 := toNat_or_shiftLeft (a := w0 >>> 51) (k := 13) (n := 13) rfl (by decide) (by omega) w1
  have o2 := toNat_or_shiftLeft (a := w1 >>> 38) (k := 26) (n := 26) rfl (by decide) (by omega) w2
  have o3 := toNat_or_shiftLeft (a := w2 >>> 25) (k := 39) (n := 39) rfl (by decide) (by omega) w3'
  simp only [o1, o2, o3, s0, s1, s2, s3, hs3, Fe.value]
  constructor
  · constructor <;> dsimp only <;> omega
  · omega

/-! ## The encoding -/

def feSubtractPTemps (t : Fe) : List Int :=
  let u0 := t.l0 + 19
  let u1 := t.l1 + u0 / 2 ^ 51
  let u2 := t.l2 + u1 / 2 ^ 51
  let u3 := t.l3 + u2 / 2 ^ 51
  [u0, u1, u2, u3, t.l4 + u3 / 2 ^ 51, t.l4 + u3 / 2 ^ 51 - 2 ^ 51]

def feTobytesTemps (h : Fe) : List Int :=
  feCarryTemps h ++ feCarryTemps (feCarry h) ++ feSubtractPTemps (feCarry (feCarry h))

theorem inInt64_feTobytesTemps (hh : h.Within (2 ^ 62)) : ∀ x ∈ feTobytesTemps h, InInt64 x := by
  obtain ⟨hfirst, hsecond⟩ := feCarry_feCarry_below hh
  have hsub : ∀ x ∈ feSubtractPTemps (feCarry (feCarry h)), InInt64 x := by
    have hlimbs := hsecond.limbs
    simp only [Fe.limbs, feSubtractPTemps, InInt64, forall_mem_cons, not_mem_nil,
      false_imp_iff, implies_true, and_true] at hlimbs ⊢
    omega
  simp only [feTobytesTemps, forall_mem_append]
  exact ⟨⟨inInt64_feCarryTemps hh, inInt64_feCarryTemps hfirst⟩, hsub⟩

theorem feTobytes_eq (hh : h.Within (2 ^ 62)) :
    feTobytes h = leBytes 32 (h.value % p25519).toNat := by
  have hden : (h.den.val : Int) = h.value % p25519 := ZMod.val_intCast _
  have hlt := val_lt_two_pow h.den
  apply leNat_inj (by rw [length_feTobytes, length_leBytes])
  rw [leNat_feTobytes_within hh, leNat_leBytes]
  omega

/-- `fe_tobytes` writes the least residue, also where limbs are negative, and what `fe_frombytes`
has read comes back modulo the prime. -/
theorem feTobytes_canonical :
    (∀ h : Fe, h.Within (2 ^ 62) → (∀ x ∈ feTobytesTemps h, InInt64 x) ∧
      feTobytes h = leBytes 32 (h.value % p25519).toNat) ∧
    ∀ s : Table UInt8 32,
      feTobytes (feFrombytes s) = leBytes 32 (leNat s.slots % 2 ^ 255 % p25519) := by
  refine ⟨fun h hh => ⟨inInt64_feTobytesTemps hh, feTobytes_eq hh⟩, fun s => ?_⟩
  obtain ⟨hbelow, hvalue⟩ := feFrombytes_spec s
  rw [feTobytes_eq (hbelow.within (by decide)), hvalue]
  rfl

end AlJefra.Store
