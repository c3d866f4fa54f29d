/- Points of the curve in `store/verify.c`: decompression and encoding. -/
import AlJefra.Store.Fe

namespace AlJefra.Store

open AlJefra.Lib

def ed25519DBytes : Table UInt8 32 := Table.ofList 0
  [0xa3, 0x78, 0x59, 0x13, 0xca, 0x4d, 0xeb, 0x75,
   0xab, 0xd8, 0x41, 0x41, 0x4d, 0x0a, 0x70, 0x00,
   0x98, 0xe8, 0x79, 0x77, 0x79, 0x40, 0xc7, 0x8c,
   0x73, 0xfe, 0x6f, 0x2b, 0xee, 0x6c, 0x03, 0x52]

def ed25519Sqrtm1Bytes : Table UInt8 32 := Table.ofList 0
  [0xb0, 0xa0, 0x0e, 0x4a, 0x27, 0x1b, 0xee, 0xc4,
   0x78, 0xe4, 0x2f, 0xad, 0x06, 0x18, 0x43, 0x2f,
   0xa7, 0xd7, 0xfb, 0x3d, 0x99, 0x00, 0x4d, 0x2b,
   0x0b, 0xdf, 0xc1, 0x4f, 0x80, 0x24, 0x83, 0x2b]

structure GeP3 where
  (X Y Z T : Fe)
  deriving DecidableEq, Repr

def geSign (s : Table UInt8 32) : UInt8 := (s.slots.getD 31 0 >>> 7) &&& 1
def geYBytes (s : Table UInt8 32) : Table UInt8 32 := s.modify 31 (· &&& 0x7F)

def geRatio (y : Fe) : Fe × Fe :=
  let u := feSq y
  let v := feMul (feFrombytes ed25519DBytes) u
  (feSub u fe1, feAdd v fe1)

def geCandidate (u v : Fe) : Fe :=
  let v3 := feMul (feSq v) v
  let v7 := feMul (feSq v3) v
  feMul (feMul u v3) (fePow2523 (feMul u v7))

def geRoot (u v : Fe) : Option Fe :=
  let x := geCandidate u v
  if feIsnonzero (feSub (feMul (feSq x) v) u) then
    if feIsnonzero (feAdd (feMul (feSq x) v) u) then none
    else some (feMul x (feFrombytes ed25519Sqrtm1Bytes))
  else some x

def gePoint (s : Table UInt8 32) (root : Fe) : GeP3 :=
  let x := if feIsneg root ≠ geSign s then feNeg root else root
  let y := feFrombytes (geYBytes s)
  { X := x, Y := y, Z := fe1, T := feMul x y }

def geFrombytes (s : Table UInt8 32) : Option GeP3 :=
  let ratio := geRatio (feFrombytes (geYBytes s))
  (geRoot ratio.1 ratio.2).map (gePoint s)

def geTobytes (h : GeP3) : List UInt8 :=
  let recip := feInvert h.Z
  let x := feMul h.X recip
  let y := feMul h.Y recip
  (feTobytes y).modify 31 (· ^^^ (feIsneg x <<< 7))

end AlJefra.Store
