/-
The field arithmetic of `store/verify.c`. Limbs are integers here: no result of `int64_t`
arithmetic leaves its range on the elements that occur.
-/
import AlJefra.Lib.LittleEndian
import AlJefra.Lib.SlotTable
import Mathlib.Algebra.Ring.Int.Defs

namespace AlJefra.Store

open AlJefra.Lib

structure Fe where
  (l0 l1 l2 l3 l4 : Int)
  deriving DecidableEq, Repr

def fe0 : Fe := ⟨0, 0, 0, 0, 0⟩
def fe1 : Fe := ⟨1, 0, 0, 0, 0⟩

/-! ## Loading and storing -/

def load64 : List UInt8 → UInt64
  | [] => 0
  | b :: bs => b.toUInt64 ||| (load64 bs <<< 8)

def feFrombytes (s : Table UInt8 32) : Fe :=
  let mask : UInt64 := 0x7FFFFFFFFFFFF
  let load0 := load64 (s.slots.take 8)
  let load1 := load64 ((s.slots.drop 8).take 8)
  let load2 := load64 ((s.slots.drop 16).take 8)
  let load3 := load64 (s.slots.drop 24) &&& 0x7FFFFFFFFFFFFFFF
  { l0 := ((load0 &&& mask).toNat : Int)
    l1 := ((((load0 >>> 51) ||| (load1 <<< 13)) &&& mask).toNat : Int)
    l2 := ((((load1 >>> 38) ||| (load2 <<< 26)) &&& mask).toNat : Int)
    l3 := ((((load2 >>> 25) ||| (load3 <<< 39)) &&& mask).toNat : Int)
    l4 := (((load3 >>> 12) &&& mask).toNat : Int) }

def feCarry (h : Fe) : Fe :=
  let h1 := h.l1 + h.l0 / 2 ^ 51
  let h0 := h.l0 % 2 ^ 51
  let h2 := h.l2 + h1 / 2 ^ 51
  let h1 := h1 % 2 ^ 51
  let h3 := h.l3 + h2 / 2 ^ 51
  let h2 := h2 % 2 ^ 51
  let h4 := h.l4 + h3 / 2 ^ 51
  let h3 := h3 % 2 ^ 51
  let h0 := h0 + h4 / 2 ^ 51 * 19
  let h4 := h4 % 2 ^ 51
  ⟨h0, h1, h2, h3, h4⟩

def feSubtractP (t : Fe) : Fe :=
  let u0 := t.l0 + 19
  let u1 := t.l1 + u0 / 2 ^ 51
  let u2 := t.l2 + u1 / 2 ^ 51
  let u3 := t.l3 + u2 / 2 ^ 51
  let u4 := t.l4 + u3 / 2 ^ 51 - 2 ^ 51
  if u4 < 0 then t
  else ⟨u0 % 2 ^ 51, u1 % 2 ^ 51, u2 % 2 ^ 51, u3 % 2 ^ 51, u4⟩

def toUInt64 (x : Int) : UInt64 := UInt64.ofNat (x % 2 ^ 64).toNat

def fePack (t : Fe) : List UInt8 :=
  let t0 := toUInt64 t.l0
  let t1 := toUInt64 t.l1
  let t2 := toUInt64 t.l2
  let t3 := toUInt64 t.l3
  let t4 := toUInt64 t.l4
  leBytes 8 (t0 ||| (t1 <<< 51)).toNat ++
    leBytes 8 ((t1 >>> 13) ||| (t2 <<< 38)).toNat ++
    leBytes 8 ((t2 >>> 26) ||| (t3 <<< 25)).toNat ++
    leBytes 8 ((t3 >>> 39) ||| (t4 <<< 12)).toNat

def feTobytes (h : Fe) : List UInt8 := fePack (feSubtractP (feCarry (feCarry h)))
def feIsnonzero (f : Fe) : Bool := (feTobytes f).foldl (· ||| ·) 0 ≠ 0
def feIsneg (f : Fe) : UInt8 := (feTobytes f).getD 0 0 &&& 1

/-! ## Arithmetic -/

def feAdd (f g : Fe) : Fe :=
  ⟨f.l0 + g.l0, f.l1 + g.l1, f.l2 + g.l2, f.l3 + g.l3, f.l4 + g.l4⟩

def feSub (f g : Fe) : Fe :=
  feCarry
    ⟨f.l0 - g.l0 + 2 * 0x7FFFFFFFFFFED, f.l1 - g.l1 + 2 * 0x7FFFFFFFFFFFF,
     f.l2 - g.l2 + 2 * 0x7FFFFFFFFFFFF, f.l3 - g.l3 + 2 * 0x7FFFFFFFFFFFF,
     f.l4 - g.l4 + 2 * 0x7FFFFFFFFFFFF⟩

def feNeg (f : Fe) : Fe := feSub fe0 f
def wrap128 (x : Int) : Int := x % 2 ^ 128
def toInt64 (r : Int) : Int := (r + 2 ^ 63) % 2 ^ 64 - 2 ^ 63

def feCarry128 (r0 r1 r2 r3 r4 : Int) : Fe :=
  let r1 := wrap128 (r1 + r0 / 2 ^ 51)
  let r0 := r0 % 2 ^ 51
  let r2 := wrap128 (r2 + r1 / 2 ^ 51)
  let r1 := r1 % 2 ^ 51
  let r3 := wrap128 (r3 + r2 / 2 ^ 51)
  let r2 := r2 % 2 ^ 51
  let r4 := wrap128 (r4 + r3 / 2 ^ 51)
  let r3 := r3 % 2 ^ 51
  let r0 := wrap128 (r0 + r4 / 2 ^ 51 * 19)
  let r4 := r4 % 2 ^ 51
  let r1 := wrap128 (r1 + r0 / 2 ^ 51)
  let r0 := r0 % 2 ^ 51
  ⟨toInt64 r0, toInt64 r1, toInt64 r2, toInt64 r3, toInt64 r4⟩

def feMul (f g : Fe) : Fe :=
  let g1_19 := g.l1 * 19
  let g2_19 := g.l2 * 19
  let g3_19 := g.l3 * 19
  let g4_19 := g.l4 * 19
  feCarry128
    (wrap128 (f.l0 * g.l0 + f.l1 * g4_19 + f.l2 * g3_19 + f.l3 * g2_19 + f.l4 * g1_19))
    (wrap128 (f.l0 * g.l1 + f.l1 * g.l0 + f.l2 * g4_19 + f.l3 * g3_19 + f.l4 * g2_19))
    (wrap128 (f.l0 * g.l2 + f.l1 * g.l1 + f.l2 * g.l0 + f.l3 * g4_19 + f.l4 * g3_19))
    (wrap128 (f.l0 * g.l3 + f.l1 * g.l2 + f.l2 * g.l1 + f.l3 * g.l0 + f.l4 * g4_19))
    (wrap128 (f.l0 * g.l4 + f.l1 * g.l3 + f.l2 * g.l2 + f.l3 * g.l1 + f.l4 * g.l0))

def feSq (f : Fe) : Fe := feMul f f

def feSqN : Nat → Fe → Fe
  | 0, f => f
  | n + 1, f => feSqN n (feSq f)

/-! ## Powers -/

def feZ9 (z : Fe) : Fe := feMul (feSqN 2 (feSq z)) z
def feZ11 (z : Fe) : Fe := feMul (feZ9 z) (feSq z)

def feZ250 (z : Fe) : Fe :=
  let z5 := feMul (feSq (feZ11 z)) (feZ9 z)
  let z10 := feMul (feSqN 5 z5) z5
  let z20 := feMul (feSqN 10 z10) z10
  let z40 := feMul (feSqN 20 z20) z20
  let z50 := feMul (feSqN 10 z40) z10
  let z100 := feMul (feSqN 50 z50) z50
  let z200 := feMul (feSqN 100 z100) z100
  feMul (feSqN 50 z200) z50

def fePow2523 (z : Fe) : Fe := feMul (feSqN 2 (feZ250 z)) z
def feInvert (z : Fe) : Fe := feMul (feSqN 5 (feZ250 z)) (feZ11 z)

end AlJefra.Store
