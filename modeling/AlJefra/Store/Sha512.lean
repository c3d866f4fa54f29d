/- SHA-512 of `store/verify.c`. -/
import AlJefra.Lib.SlotTable

namespace AlJefra.Store

open AlJefra.Lib

/-! ## The block compression -/

def sha512K : List UInt64 :=
  [0x428A2F98D728AE22, 0x7137449123EF65CD, 0xB5C0FBCFEC4D3B2F, 0xE9B5DBA58189DBBC,
   0x3956C25BF348B538, 0x59F111F1B605D019, 0x923F82A4AF194F9B, 0xAB1C5ED5DA6D8118,
   0xD807AA98A3030242, 0x12835B0145706FBE, 0x243185BE4EE4B28C, 0x550C7DC3D5FFB4E2,
   0x72BE5D74F27B896F, 0x80DEB1FE3B1696B1, 0x9BDC06A725C71235, 0xC19BF174CF692694,
   0xE49B69C19EF14AD2, 0xEFBE4786384F25E3, 0x0FC19DC68B8CD5B5, 0x240CA1CC77AC9C65,
   0x2DE92C6F592B0275, 0x4A7484AA6EA6E483, 0x5CB0A9DCBD41FBD4, 0x76F988DA831153B5,
   0x983E5152EE66DFAB, 0xA831C66D2DB43210, 0xB00327C898FB213F, 0xBF597FC7BEEF0EE4,
   0xC6E00BF33DA88FC2, 0xD5A79147930AA725, 0x06CA6351E003826F, 0x142929670A0E6E70,
   0x27B70A8546D22FFC, 0x2E1B21385C26C926, 0x4D2C6DFC5AC42AED, 0x53380D139D95B3DF,
   0x650A73548BAF63DE, 0x766A0ABB3C77B2A8, 0x81C2C92E47EDAEE6, 0x92722C851482353B,
   0xA2BFE8A14CF10364, 0xA81A664BBC423001, 0xC24B8B70D0F89791, 0xC76C51A30654BE30,
   0xD192E819D6EF5218, 0xD69906245565A910, 0xF40E35855771202A, 0x106AA07032BBD1B8,
   0x19A4C116B8D2D0C8, 0x1E376C085141AB53, 0x2748774CDF8EEB99, 0x34B0BCB5E19B48A8,
   0x391C0CB3C5C95A63, 0x4ED8AA4AE3418ACB, 0x5B9CCA4F7763E373, 0x682E6FF3D6B2B8A3,
   0x748F82EE5DEFB2FC, 0x78A5636F43172F60, 0x84C87814A1F0AB72, 0x8CC702081A6439EC,
   0x90BEFFFA23631E28, 0xA4506CEBDE82BDE9, 0xBEF9A3F7B2C67915, 0xC67178F2E372532B,
   0xCA273ECEEA26619C, 0xD186B8C721C0C207, 0xEADA7DD6CDE0EB1E, 0xF57D4F7FEE6ED178,
   0x06F067AA72176FBA, 0x0A637DC5A2C898A6, 0x113F9804BEF90DAE, 0x1B710B35131C471B,
   0x28DB77F523047D84, 0x32CAAB7B40C72493, 0x3C9EBE0A15C9BEBC, 0x431D67C49C100D4C,
   0x4CC5D4BECB3E42B6, 0x597F299CFC657E2A, 0x5FCB6FAB3AD6FAEC, 0x6C44198C4A475817]

def rotr64 (x n : UInt64) : UInt64 := (x >>> n) ||| (x <<< (64 - n))

def sha512W (block : List UInt8) : List UInt64 :=
  let load (i : Nat) : UInt64 :=
    (List.range 8).foldl (fun acc j => (acc <<< 8) ||| (block.getD (i * 8 + j) 0).toUInt64) 0
  let extend (w : List UInt64) (i : Nat) : List UInt64 :=
    let w15 := w.getD (i - 15) 0
    let w2 := w.getD (i - 2) 0
    let s0 := rotr64 w15 1 ^^^ rotr64 w15 8 ^^^ (w15 >>> 7)
    let s1 := rotr64 w2 19 ^^^ rotr64 w2 61 ^^^ (w2 >>> 6)
    w ++ [w.getD (i - 16) 0 + s0 + w.getD (i - 7) 0 + s1]
  (List.range' 16 64).foldl extend ((List.range 16).map load)

structure Sha512Vars where
  (a b c d e f g h : UInt64)

def sha512Round (v : Sha512Vars) (k w : UInt64) : Sha512Vars :=
  let bigS1 := rotr64 v.e 14 ^^^ rotr64 v.e 18 ^^^ rotr64 v.e 41
  let ch := (v.e &&& v.f) ^^^ (~~~v.e &&& v.g)
  let temp1 := v.h + bigS1 + ch + k + w
  let bigS0 := rotr64 v.a 28 ^^^ rotr64 v.a 34 ^^^ rotr64 v.a 39
  let maj := (v.a &&& v.b) ^^^ (v.a &&& v.c) ^^^ (v.b &&& v.c)
  let temp2 := bigS0 + maj
  { a := temp1 + temp2, b := v.a, c := v.b, d := v.c,
    e := v.d + temp1, f := v.e, g := v.f, h := v.g }

def sha512Compress (state : Table UInt64 8) (block : List UInt8) : Table UInt64 8 :=
  let s (i : Nat) : UInt64 := state.slots.getD i 0
  let w := sha512W block
  let v := (List.range 80).foldl (fun v i => sha512Round v (sha512K.getD i 0) (w.getD i 0))
    { a := s 0, b := s 1, c := s 2, d := s 3, e := s 4, f := s 5, g := s 6, h := s 7 }
  Table.ofList 0
    [s 0 + v.a, s 1 + v.b, s 2 + v.c, s 3 + v.d, s 4 + v.e, s 5 + v.f, s 6 + v.g, s 7 + v.h]

/-! ## Init, update, final -/

structure Sha512Ctx where
  state : Table UInt64 8
  count : UInt64
  buffer : Table UInt8 128
  bufLen : Nat
  bufLen_lt : bufLen < 128

def sha512Init (buffer : Table UInt8 128) : Sha512Ctx where
  state := Table.ofList 0
    [0x6A09E667F3BCC908, 0xBB67AE8584CAA73B, 0x3C6EF372FE94F82B, 0xA54FF53A5F1D36F1,
     0x510E527FADE682D1, 0x9B05688C2B3E6C1F, 0x1F83D9ABFB41BD6B, 0x5BE0CD19137E2179]
  count := 0
  buffer := buffer
  bufLen := 0
  bufLen_lt := by decide

def sha512Chunk (ctx : Sha512Ctx) (len : Nat) : Nat :=
  let space := 128 - ctx.bufLen
  if len < space then len else space

theorem sha512Chunk_eq_min (ctx : Sha512Ctx) (len : Nat) :
    sha512Chunk ctx len = min len (128 - ctx.bufLen) := by
  simp only [sha512Chunk]
  split <;> omega

section Streaming

variable (compress : Table UInt64 8 → List UInt8 → Table UInt64 8)

def sha512UpdateTurn (ctx : Sha512Ctx) (data : List UInt8) : Sha512Ctx :=
  let chunk := sha512Chunk ctx data.length
  let buffer := ctx.buffer.write ctx.bufLen (data.take chunk)
  if hfull : ctx.bufLen + chunk = 128 then
    { state := compress ctx.state buffer.slots
      count := ctx.count + UInt64.ofNat chunk
      buffer := buffer
      bufLen := 0
      bufLen_lt := by decide }
  else
    { state := ctx.state
      count := ctx.count + UInt64.ofNat chunk
      buffer := buffer
      bufLen := ctx.bufLen + chunk
      bufLen_lt := by
        have hchunk : chunk = min data.length (128 - ctx.bufLen) := sha512Chunk_eq_min ..
        have hlt := ctx.bufLen_lt
        omega }

def sha512Update (ctx : Sha512Ctx) (data : List UInt8) : Sha512Ctx :=
  if data = [] then ctx
  else sha512Update (sha512UpdateTurn compress ctx data)
    (data.drop (sha512Chunk ctx data.length))
termination_by data.length
decreasing_by
  rename_i hdata
  have hpos : 0 < data.length := List.length_pos_iff.mpr hdata
  have hlt := ctx.bufLen_lt
  rw [List.length_drop, sha512Chunk_eq_min]
  omega

def beByte (x : UInt64) (i : Nat) : UInt8 := (x >>> UInt64.ofNat (56 - i * 8)).toUInt8

def sha512Close (state : Table UInt64 8) (buffer : Table UInt8 128) (bufLen : Nat)
    (bits : UInt64) : Table UInt64 8 :=
  let buffer := buffer.write bufLen (List.replicate (112 - bufLen) 0)
  let buffer := buffer.write 112 (List.replicate 8 0)
  let buffer := buffer.write 120 ((List.range 8).map (beByte bits))
  compress state buffer.slots

def sha512Final (ctx : Sha512Ctx) : List UInt8 :=
  let bits := ctx.count * 8
  let buffer := ctx.buffer.write ctx.bufLen [0x80]
  let bufLen := ctx.bufLen + 1
  let state :=
    if bufLen > 112 then
      let buffer := buffer.write bufLen (List.replicate (128 - bufLen) 0)
      sha512Close compress (compress ctx.state buffer.slots) buffer 0 bits
    else sha512Close compress ctx.state buffer bufLen bits
  state.slots.flatMap fun w => (List.range 8).map (beByte w)

def sha512Pieces (buffer : Table UInt8 128) (pieces : List (List UInt8)) : List UInt8 :=
  sha512Final compress (pieces.foldl (sha512Update compress) (sha512Init buffer))

end Streaming

def sha512 (buffer : Table UInt8 128) (data : List UInt8) : List UInt8 :=
  sha512Final sha512Compress (sha512Update sha512Compress (sha512Init buffer) data)

end AlJefra.Store
