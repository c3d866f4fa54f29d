/-
Which encodings of points come back. Decompression succeeds exactly on squares; the encoding of the
result is the input exactly if `y` is below the prime and the sign of a zero `x` is clear.
-/
import AlJefra.Store.FeTheorems
import AlJefra.Store.Ge
import Mathlib.NumberTheory.LegendreSymbol.Basic

namespace AlJefra.Store

open AlJefra.Lib List

/-! ## The top bit -/

def encodedY (s : Table UInt8 32) : Nat := leNat s.slots % 2 ^ 255
def encodedSign (s : Table UInt8 32) : Nat := leNat s.slots / 2 ^ 255

variable {bs : List UInt8} {e : UInt8} {u v x : Fe} {P : GeP3}

theorem exists_last_byte (h : bs.length = 32) :
    ∃ front b, bs = front ++ [b] ∧ front.length = 31 := by
  have hne : bs ≠ [] := by
    intro h0
    rw [h0] at h
    exact absurd h (by decide)
  refine ⟨bs.dropLast, bs.getLast hne, (dropLast_append_getLast hne).symm, ?_⟩
  rw [length_dropLast, h]

theorem leNat_last_byte {front : List UInt8} (h : front.length = 31) (b : UInt8) :
    leNat (front ++ [b]) = leNat front + 256 ^ 31 * b.toNat ∧ leNat front < 256 ^ 31 := by
  have hlt := leNat_lt front
  rw [h] at hlt
  refine ⟨?_, hlt⟩
  rw [leNat_append, h, leNat, leNat, mul_zero, add_zero]

theorem toNat_geSign (s : Table UInt8 32) : (geSign s).toNat = encodedSign s := by
  obtain ⟨front, b, hs, hlen⟩ := exists_last_byte s.length_slots
  obtain ⟨hval, hlt⟩ := leNat_last_byte hlen b
  have hb := b.toNat_lt
  have hget : s.slots.getD 31 0 = b := by
    rw [hs, getD_eq_getElem?_getD, getElem?_append_right (by omega), hlen]
    rfl
  rw [geSign, hget, encodedSign, hs, hval, UInt8.toNat_and, UInt8.toNat_shiftRight,
    UInt8.toNat_one, Nat.and_one_is_mod]
  have hseven : UInt8.toNat 7 % 8 = 7 := rfl
  rw [hseven, Nat.shiftRight_eq_div_pow]
  omega

theorem leNat_geYBytes (s : Table UInt8 32) : leNat (geYBytes s).slots = encodedY s := by
  obtain ⟨front, b, hs, hlen⟩ := exists_last_byte s.length_slots
  obtain ⟨hval, hlt⟩ := leNat_last_byte hlen b
  have hmodify : (geYBytes s).slots = front ++ [b &&& 0x7F] := by
    rw [geYBytes, Table.slots_modify, hs, ← hlen, modify_append_cons]
  have hmask : (b &&& 0x7F).toNat = b.toNat % 128 := by
    exact Nat.and_two_pow_sub_one_eq_mod b.toNat 7
  rw [hmodify, (leNat_last_byte hlen _).1, encodedY, hs, hval, hmask]
  omega

theorem leNat_modify_sign (hlen : bs.length = 32) (hlt : leNat bs < 2 ^ 255) (he : e.toNat < 2) :
    leNat (bs.modify 31 (· ^^^ (e <<< 7))) = leNat bs + 2 ^ 255 * e.toNat := by
  obtain ⟨front, b, rfl, hfront⟩ := exists_last_byte hlen
  obtain ⟨hval, hpre⟩ := leNat_last_byte hfront b
  have hb : b.toNat < 2 ^ 7 := by omega
  have hxor : (b ^^^ (e <<< 7)).toNat = b.toNat + 128 * e.toNat := by
    have hall : ∀ n < 2 ^ 7, ∀ m < 2, n ^^^ ((m <<< 7) % 2 ^ 8) = n + 128 * m := by decide
    exact hall b.toNat hb e.toNat he
  have hmodify : (front ++ [b]).modify 31 (· ^^^ (e <<< 7)) = front ++ [b ^^^ (e <<< 7)] := by
    rw [← hfront, modify_append_cons]
  rw [hmodify, (leNat_last_byte hfront _).1, hval, hxor]
  omega

/-! ## The curve -/

def curveD : Residue := -121665 / 121666
def xSquared (y : Residue) : Residue := (y ^ 2 - 1) / (curveD * y ^ 2 + 1)

theorem ed25519D_den : (feFrombytes ed25519DBytes).den = curveD := by
  have hne : (121666 : Residue) ≠ 0 := by
    have h := (ZMod.natCast_eq_zero_iff 121666 p25519).not.mpr (by decide)
    exact_mod_cast h
  have hval : (feFrombytes ed25519DBytes).value * 121666 + 121665 =
      (p25519 : Int) * (((feFrombytes ed25519DBytes).value * 121666 + 121665) / p25519) := by
    decide +kernel
  have hcast := congrArg (Int.cast (R := Residue)) hval
  push_cast at hcast
  rw [ZMod.natCast_self, zero_mul] at hcast
  rw [curveD, eq_div_iff hne]
  exact eq_neg_of_add_eq_zero_left hcast

theorem not_isSquare_curveD : ¬ IsSquare curveD := by
  have hval := (feFrombytes_spec ed25519DBytes).2
  rw [← ed25519D_den, Fe.den, hval, Int.cast_natCast]
  generalize hd : leNat ed25519DBytes.slots % 2 ^ 255 = d
  have hpow := powMod_eq p25519 (a := d) (by decide : p25519 / 2 < 2 ^ 255)
  subst hd
  intro hsq
  have hne := (ZMod.natCast_eq_zero_iff (leNat ed25519DBytes.slots % 2 ^ 255) p25519).not.mpr
    (by decide +kernel)
  have hone := (ZMod.euler_criterion p25519 hne).mp hsq
  rw [← Nat.cast_pow, ← Nat.cast_one, ZMod.natCast_eq_natCast_iff', ← hpow] at hone
  exact absurd hone (by decide +kernel)

theorem sqrtm1_sq : (feFrombytes ed25519Sqrtm1Bytes).den ^ 2 = -1 := by
  have hval : (feFrombytes ed25519Sqrtm1Bytes).value ^ 2 + 1 =
      (p25519 : Int) * (((feFrombytes ed25519Sqrtm1Bytes).value ^ 2 + 1) / p25519) := by
    decide +kernel
  have hcast := congrArg (Int.cast (R := Residue)) hval
  push_cast at hcast
  exact eq_neg_of_add_eq_zero_left hcast

theorem denominator_ne_zero (y : Residue) : curveD * y ^ 2 + 1 ≠ 0 := by
  intro h
  have hy : y ≠ 0 := by
    rintro rfl
    simp at h
  -- `d` would be the square of a root of `-1` over `y`
  refine not_isSquare_curveD ⟨(feFrombytes ed25519Sqrtm1Bytes).den / y, ?_⟩
  field_simp
  linear_combination h - sqrtm1_sq

/-! ## Decompression -/

theorem geRatio_spec {y : Fe} (hy : y.Below (2 ^ 51)) :
    (geRatio y).1.Below carried ∧ (geRatio y).2.Below (2 ^ 53) ∧
      (geRatio y).1.den = y.den ^ 2 - 1 ∧ (geRatio y).2.den = curveD * y.den ^ 2 + 1 := by
  obtain ⟨hsq, hsqden⟩ := feSq_spec (hy.mono (by decide))
  have hd := (feFrombytes_spec ed25519DBytes).1
  obtain ⟨hv, hvden⟩ := feMul_spec (hd.mono (by decide)) (hsq.mono carried_le)
  refine ⟨feSub_below (hsq.mono carried_le) (fe1_below.mono (by decide)),
    (feAdd_below hv fe1_below).mono (by decide), ?_, ?_⟩
  · rw [geRatio, feSub_den, hsqden, fe1_den]
  · rw [geRatio, feAdd_den, hvden, hsqden, fe1_den, ed25519D_den]

theorem geCandidate_spec (hu : u.Below (2 ^ 53)) (hv : v.Below (2 ^ 53)) :
    (geCandidate u v).Below carried ∧ (geCandidate u v).den =
      u.den * (v.den ^ 3 * (u.den * v.den ^ 7) ^ (2 ^ 252 - 3)) := by
  have hv2 := feMul_spec hv hv
  have hv3 := feMul_spec (hv2.1.mono carried_le) hv
  have hv6 := feMul_spec (hv3.1.mono carried_le) (hv3.1.mono carried_le)
  have hv7 := feMul_spec (hv6.1.mono carried_le) hv
  have huv3 := feMul_spec hu (hv3.1.mono carried_le)
  have huv7 := feMul_spec hu (hv7.1.mono carried_le)
  have hpow := fePow2523_spec (huv7.1.mono carried_le)
  have hx := feMul_spec (huv3.1.mono carried_le) hpow.below
  refine ⟨hx.1, ?_⟩
  have hcube : v.den * v.den * v.den = v.den ^ 3 := by ring
  have hseventh : v.den ^ 3 * v.den ^ 3 * v.den = v.den ^ 7 := by ring
  rw [geCandidate, feSq, feSq, hx.2, huv3.2, hpow.den, huv7.2, hv7.2, hv6.2, hv3.2, hv2.2, hcube,
    hseventh, mul_assoc]

theorem candidate_sq (a b : Residue) (n : Nat) :
    (a * (b ^ 3 * (a * b ^ 7) ^ n)) ^ 2 * b = a * (a * b ^ 7) ^ (2 * n + 1) := by
  ring

theorem isSquare_div_iff {a b : Residue} {n : Nat} (hb : b ≠ 0)
    (hn : p25519 / 2 = (2 * n + 1) * 2) :
    IsSquare (a / b) ↔ a * (a * b ^ 7) ^ (2 * n + 1) = a ∨ a * (a * b ^ 7) ^ (2 * n + 1) = -a := by
  have hshift : IsSquare (a / b) ↔ IsSquare (a * b ^ 7) := by
    constructor
    · rintro ⟨r, hr⟩
      refine ⟨r * b ^ 4, ?_⟩
      rw [div_eq_iff hb] at hr
      rw [hr]
      ring
    · rintro ⟨r, hr⟩
      refine ⟨r / b ^ 4, ?_⟩
      field_simp
      linear_combination hr
  by_cases ha : a = 0
  · simp [ha]
  · rw [hshift, ZMod.euler_criterion p25519 (mul_ne_zero ha (pow_ne_zero 7 hb)), hn, pow_mul, sq,
      mul_self_eq_one_iff, mul_eq_left₀ ha, ← mul_neg_one a, mul_right_inj' ha]

theorem geRoot_spec (hu : u.Below carried) (hv : v.Below (2 ^ 53)) (hv0 : v.den ≠ 0) :
    ((geRoot u v).isSome = true ↔ IsSquare (u.den / v.den)) ∧
      ∀ x, geRoot u v = some x → x.Below carried ∧ x.den ^ 2 * v.den = u.den := by
  obtain ⟨hbelow, hden⟩ := geCandidate_spec (hu.mono carried_le) hv
  obtain ⟨hsq, hsqden⟩ := feSq_spec (hbelow.mono carried_le)
  obtain ⟨hxxv, hxxvden⟩ := feMul_spec (hsq.mono carried_le) hv
  have hdiff : (feSub (feMul (feSq (geCandidate u v)) v) u).Below carried :=
    feSub_below (hxxv.mono carried_le) (hu.mono (by decide))
  have hsum : (feAdd (feMul (feSq (geCandidate u v)) v) u).Below (2 ^ 53) :=
    (feAdd_below hxxv hu).mono (by decide)
  have hnonzero := feIsnonzero_iff (hdiff.mono carried_le)
  have hnonzero' := feIsnonzero_iff hsum
  rw [feSub_den, hxxvden, hsqden, ne_eq, sub_eq_zero] at hnonzero
  rw [feAdd_den, hxxvden, hsqden, ne_eq, add_eq_zero_iff_eq_neg] at hnonzero'
  have hsquare := isSquare_div_iff (a := u.den) (n := 2 ^ 252 - 3) hv0 (by decide)
  rw [← candidate_sq, ← hden] at hsquare
  unfold geRoot
  generalize geCandidate u v = c at *
  cases hfirst : feIsnonzero (feSub (feMul (feSq c) v) u) with
  | false =>
    have heq : c.den ^ 2 * v.den = u.den := by simpa [hfirst] using hnonzero
    rw [hsquare]
    simpa [hfirst, heq] using hbelow
  | true =>
    have hne : c.den ^ 2 * v.den ≠ u.den := hnonzero.mp hfirst
    cases hsecond : feIsnonzero (feAdd (feMul (feSq c) v) u) with
    | true => simp [hfirst, hsecond, hsquare, hne, hnonzero'.mp hsecond]
    | false =>
      have heq : c.den ^ 2 * v.den = -u.den := by simpa [hsecond] using hnonzero'
      have hi := (feFrombytes_spec ed25519Sqrtm1Bytes).1.mono (c := 2 ^ 53) (by decide)
      obtain ⟨hx, hxden⟩ := feMul_spec (hbelow.mono carried_le) hi
      have hroot : (c.den * (feFrombytes ed25519Sqrtm1Bytes).den) ^ 2 * v.den = u.den := by
        rw [mul_pow, sqrtm1_sq]
        linear_combination -heq
      simp [hfirst, hsecond, hsquare, heq, hx, hxden, hroot]

/-! ## Parity -/

theorem val_neg_parity {x : Residue} (hx : x ≠ 0) : (-x).val % 2 = 1 - x.val % 2 := by
  have hlt := val_lt_two_pow x
  have hp : p25519 = 2 ^ 255 - 19 := rfl
  rw [ZMod.neg_val, if_neg hx]
  omega

theorem sign_choice (hx : x.Below carried) (he : e.toNat < 2) :
    (if feIsneg x ≠ e then feNeg x else x).Below carried ∧
      (if feIsneg x ≠ e then feNeg x else x).den ^ 2 = x.den ^ 2 ∧
      ((if feIsneg x ≠ e then feNeg x else x).den.val % 2 = e.toNat ↔
        ¬ (x.den = 0 ∧ e.toNat = 1)) := by
  have hsign := toNat_feIsneg (hx.mono carried_le)
  by_cases hne : feIsneg x ≠ e
  · rw [if_pos hne]
    refine ⟨feNeg_below (hx.mono (by decide)), by rw [feNeg_den, neg_sq], ?_⟩
    rw [Ne, ← UInt8.toNat_inj, hsign] at hne
    rw [feNeg_den]
    by_cases hx0 : x.den = 0
    · rw [hx0, neg_zero, ZMod.val_zero]
      simp only [true_and]
      omega
    · rw [val_neg_parity hx0]
      simp only [hx0, false_and, not_false_eq_true, iff_true]
      omega
  · rw [if_neg hne]
    refine ⟨hx, rfl, ?_⟩
    rw [not_not, ← UInt8.toNat_inj, hsign] at hne
    rw [hne]
    refine iff_of_true rfl ?_
    rintro ⟨hx0, h1⟩
    rw [hx0, ZMod.val_zero] at hne
    omega

/-! ## The points -/

structure Point (P : GeP3) (s : Table UInt8 32) : Prop where
  z : P.Z = fe1
  t : P.T.den = P.X.den * P.Y.den
  y : P.Y.den = (encodedY s : Residue)
  curve : -P.X.den ^ 2 + P.Y.den ^ 2 = 1 + curveD * P.X.den ^ 2 * P.Y.den ^ 2
  sign : P.X.den.val % 2 = encodedSign s ↔ ¬ (P.X.den = 0 ∧ encodedSign s = 1)

theorem gePoint_spec (s : Table UInt8 32) :
    ((geFrombytes s).isSome = true ↔ IsSquare (xSquared (encodedY s))) ∧
    ∀ P, geFrombytes s = some P → P.X.Below carried ∧ P.Y.Below (2 ^ 51) ∧ Point P s := by
  obtain ⟨hy, hyval⟩ := feFrombytes_spec (geYBytes s)
  have hyden : (feFrombytes (geYBytes s)).den = (encodedY s : Residue) := by
    rw [Fe.den, hyval, leNat_geYBytes, encodedY, Nat.mod_mod, Int.cast_natCast]
  obtain ⟨hu, hv, huden, hvden⟩ := geRatio_spec hy
  rw [hyden] at huden hvden
  obtain ⟨hsome, hroot⟩ := geRoot_spec hu hv (hvden ▸ denominator_ne_zero _)
  rw [huden, hvden] at hsome hroot
  have hsign : (geSign s).toNat < 2 := by
    have hlt := leNat_lt s.slots
    rw [s.length_slots] at hlt
    rw [toNat_geSign, encodedSign]
    omega
  refine ⟨by rw [geFrombytes, Option.isSome_map, hsome, xSquared], fun P hP => ?_⟩
  obtain ⟨x, hx, rfl⟩ := Option.map_eq_some_iff.mp hP
  obtain ⟨hbelow, hcurve⟩ := hroot x hx
  obtain ⟨hchoice, hsq, hparity⟩ := sign_choice hbelow hsign
  have hT := (feMul_spec (hchoice.mono carried_le) (hy.mono (by decide))).2
  refine ⟨hchoice, hy, ⟨rfl, hT, hyden, ?_, ?_⟩⟩
  · simp only [gePoint, hsq, hyden]
    linear_combination -hcurve
  · rw [toNat_geSign, ← sq_eq_zero_iff (a := x.den), ← hsq, sq_eq_zero_iff] at hparity
    exact hparity

/-- `ge_frombytes` accepts exactly the encodings of points of the curve, with either sign bit. -/
theorem geFrombytes_decompresses (s : Table UInt8 32) :
    ((geFrombytes s).isSome = true ↔ IsSquare (xSquared (encodedY s))) ∧
    ∀ P, geFrombytes s = some P → Point P s :=
  have h := gePoint_spec s
  ⟨h.1, fun P hP => (h.2 P hP).2.2⟩

/-! ## The round trip -/

theorem Point.x_eq_zero_iff {s : Table UInt8 32} (h : Point P s) :
    P.X.den = 0 ↔ (encodedY s : Residue) ^ 2 = 1 := by
  have hcurve := h.curve
  rw [h.y] at hcurve
  constructor
  · intro hx
    rw [hx] at hcurve
    linear_combination hcurve
  · intro hone
    have hzero : P.X.den ^ 2 * (curveD * (encodedY s : Residue) ^ 2 + 1) = 0 := by
      linear_combination hone - hcurve
    exact pow_eq_zero_iff two_ne_zero |>.mp
      ((mul_eq_zero.mp hzero).resolve_right (denominator_ne_zero _))

theorem leNat_geTobytes (hX : P.X.Below (2 ^ 53)) (hY : P.Y.Below (2 ^ 53)) (hZ : P.Z = fe1) :
    (geTobytes P).length = 32 ∧
      leNat (geTobytes P) = P.Y.den.val + 2 ^ 255 * (P.X.den.val % 2) := by
  have hrecip := feInvert_spec (fe1_below.mono (by decide))
  have hone : (feInvert fe1).den = 1 := by rw [hrecip.den, fe1_den, one_pow]
  obtain ⟨hx, hxden⟩ := feMul_spec hX hrecip.below
  obtain ⟨hy, hyden⟩ := feMul_spec hY hrecip.below
  have hbytes := leNat_feTobytes (hy.mono carried_le)
  have hsign := toNat_feIsneg (hx.mono carried_le)
  rw [hyden, hone, mul_one] at hbytes
  rw [hxden, hone, mul_one] at hsign
  have hlt := val_lt_two_pow P.Y.den
  rw [geTobytes, hZ]
  refine ⟨by rw [length_modify, length_feTobytes], ?_⟩
  rw [leNat_modify_sign (length_feTobytes _) (by omega) (by omega), hbytes, hsign]

/-- `y` is below the prime, and the sign bit is not set where `x = 0`. -/
def Canonical (s : Table UInt8 32) : Prop :=
  encodedY s < p25519 ∧ ¬ (encodedY s * encodedY s % p25519 = 1 ∧ encodedSign s = 1)

theorem natCast_sq_eq_one_iff (y : Nat) : (y : Residue) ^ 2 = 1 ↔ y * y % p25519 = 1 := by
  have hone : 1 % p25519 = 1 := by decide
  rw [← Nat.cast_pow, ← Nat.cast_one, ZMod.natCast_eq_natCast_iff', hone, pow_two]

theorem geTobytes_geFrombytes_iff (s : Table UInt8 32) (P : GeP3)
    (h : geFrombytes s = some P) : geTobytes P = s.slots ↔ Canonical s := by
  obtain ⟨hX, hY, hpoint⟩ := (gePoint_spec s).2 P h
  have hparity := hpoint.sign
  rw [hpoint.x_eq_zero_iff] at hparity
  obtain ⟨hlen, hval⟩ := leNat_geTobytes (hX.mono carried_le) (hY.mono (by decide)) hpoint.z
  rw [hpoint.y, ZMod.val_natCast] at hval
  have hsplit : leNat s.slots = encodedY s + 2 ^ 255 * encodedSign s :=
    (Nat.mod_add_div _ _).symm
  have hmod : encodedY s % p25519 = encodedY s ↔ encodedY s < p25519 :=
    Nat.mod_eq_iff_lt (by decide)
  have hmodle : encodedY s % p25519 ≤ encodedY s := Nat.mod_le _ _
  rw [Canonical, ← natCast_sq_eq_one_iff, ← hparity, ← hmod]
  constructor
  · intro heq
    rw [heq, hsplit] at hval
    omega
  · rintro ⟨hy, hsign⟩
    apply leNat_inj (by rw [hlen, s.length_slots])
    rw [hval, hsplit, hy, hsign]

def encoding (n : Nat) : Table UInt8 32 := Table.ofList 0 (leBytes 32 n)

/-- The base point, with `y = 4/5`. -/
def baseEncoding : Table UInt8 32 := ⟨0x58 :: List.replicate 31 0x66, rfl⟩

theorem geTobytes_geFrombytes_base :
    ∃ P, geFrombytes baseEncoding = some P ∧ geTobytes P = baseEncoding.slots := by
  obtain ⟨P, hP⟩ := Option.isSome_iff_exists.mp
    (by decide +kernel : (geFrombytes baseEncoding).isSome = true)
  refine ⟨P, hP, (geTobytes_geFrombytes_iff baseEncoding P hP).mpr ?_⟩
  constructor <;> decide +kernel

/-- The neutral element with the sign bit set, and the prime itself for `y = 0`. -/
theorem geFrombytes_accepts_noncanonical :
    (geFrombytes (encoding (1 + 2 ^ 255))).map geTobytes = some (encoding 1).slots ∧
    (geFrombytes (encoding (2 ^ 255 - 19))).map geTobytes = some (encoding 0).slots := by
  constructor <;> decide +kernel

end AlJefra.Store
