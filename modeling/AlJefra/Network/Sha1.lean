/-
The hash functions of `drivers/network/wifi_framework.c`: SHA-1, HMAC-SHA1, PBKDF2 and the PRF
that derives the pairwise key.
-/
import AlJefra.Lib.BlockMode
import AlJefra.Lib.SlotTable

namespace AlJefra.Network

open AlJefra.Lib

/-! ## SHA-1 -/

abbrev sha1BlockSize : Nat := 64
abbrev sha1DigestSize : Nat := 20

def sha1Rotl (x n : UInt32) : UInt32 := x <<< n ||| x >>> (32 - n)

structure Sha1State where
  a : UInt32
  b : UInt32
  c : UInt32
  d : UInt32
  e : UInt32
  deriving DecidableEq

structure Sha1Ctx where
  h : Sha1State
  buf : List UInt8
  totalLen : UInt64
  deriving DecidableEq

def sha1Init : Sha1Ctx :=
  ⟨⟨0x67452301, 0xEFCDAB89, 0x98BADCFE, 0x10325476, 0xC3D2E1F0⟩, [], 0⟩

def beWords : List UInt8 → List UInt32
  | b0 :: b1 :: b2 :: b3 :: bs =>
    (b0.toUInt32 <<< 24 ||| b1.toUInt32 <<< 16 ||| b2.toUInt32 <<< 8 ||| b3.toUInt32) :: beWords bs
  | _ => []

def sha1Expand : Nat → List UInt32 → List UInt32
  | 0, w => w
  | n + 1, w =>
    sha1Expand n
      (sha1Rotl (w.getD 2 0 ^^^ w.getD 7 0 ^^^ w.getD 13 0 ^^^ w.getD 15 0) 1 :: w)

def sha1Round (i : Nat) (s : Sha1State) (w : UInt32) : Sha1State :=
  let f := if i < 20 then (s.b &&& s.c) ||| (~~~s.b &&& s.d)
    else if i < 40 then s.b ^^^ s.c ^^^ s.d
    else if i < 60 then (s.b &&& s.c) ||| (s.b &&& s.d) ||| (s.c &&& s.d)
    else s.b ^^^ s.c ^^^ s.d
  let k : UInt32 := if i < 20 then 0x5A827999
    else if i < 40 then 0x6ED9EBA1
    else if i < 60 then 0x8F1BBCDC
    else 0xCA62C1D6
  ⟨sha1Rotl s.a 5 + f + s.e + k + w, s.a, sha1Rotl s.b 30, s.c, s.d⟩

def sha1Rounds : Nat → Sha1State → List UInt32 → Sha1State
  | _, s, [] => s
  | i, s, w :: ws => sha1Rounds (i + 1) (sha1Round i s w) ws

def sha1ProcessBlock (h : Sha1State) (block : List UInt8) : Sha1State :=
  let s := sha1Rounds 0 h (sha1Expand 64 (beWords block).reverse).reverse
  ⟨h.a + s.a, h.b + s.b, h.c + s.c, h.d + s.d, h.e + s.e⟩

def sha1UpdateLoop : Nat → Sha1Ctx → List UInt8 → Sha1Ctx
  | 0, ctx, _ => ctx
  | fuel + 1, ctx, data =>
    if data = [] then ctx
    else
      let copy := min data.length (sha1BlockSize - ctx.buf.length)
      let buf := ctx.buf ++ data.take copy
      let ctx := if buf.length = sha1BlockSize then
          { ctx with h := sha1ProcessBlock ctx.h buf, buf := [] }
        else { ctx with buf := buf }
      sha1UpdateLoop fuel ctx (data.drop copy)

def sha1Update (ctx : Sha1Ctx) (data : List UInt8) : Sha1Ctx :=
  sha1UpdateLoop data.length
    { ctx with totalLen := ctx.totalLen + UInt64.ofNat data.length } data

def sha1PadLoop : Nat → Sha1Ctx → Sha1Ctx
  | 0, ctx => ctx
  | fuel + 1, ctx => if ctx.buf.length = 56 then ctx else sha1PadLoop fuel (sha1Update ctx [0])

def be64 (x : UInt64) : List UInt8 :=
  [(x >>> 56).toUInt8, (x >>> 48).toUInt8, (x >>> 40).toUInt8, (x >>> 32).toUInt8,
   (x >>> 24).toUInt8, (x >>> 16).toUInt8, (x >>> 8).toUInt8, x.toUInt8]

def be32 (x : UInt32) : List UInt8 :=
  [(x >>> 24).toUInt8, (x >>> 16).toUInt8, (x >>> 8).toUInt8, x.toUInt8]

def sha1Final (ctx : Sha1Ctx) : List UInt8 :=
  let bitLen := ctx.totalLen * 8
  let ctx := sha1PadLoop sha1BlockSize (sha1Update ctx [0x80])
  let h := (sha1Update ctx (be64 bitLen)).h
  be32 h.a ++ be32 h.b ++ be32 h.c ++ be32 h.d ++ be32 h.e

/-! ## HMAC-SHA1, PBKDF2 and the PRF -/

def hmacKey (key : List UInt8) : List UInt8 :=
  if sha1BlockSize < key.length then sha1Final (sha1Update sha1Init key) else key

def hmacPad (pad : UInt8) (key : List UInt8) : List UInt8 :=
  (padBlock sha1BlockSize (hmacKey key)).map (· ^^^ pad)

def wifiHmacSha1 (key data : List UInt8) : List UInt8 :=
  let inner := sha1Final (sha1Update (sha1Update sha1Init (hmacPad 0x36 key)) data)
  sha1Final (sha1Update (sha1Update sha1Init (hmacPad 0x5C key)) inner)

def pbkdf2Loop (password : List UInt8) : Nat → List UInt8 → List UInt8 → List UInt8
  | 0, _, output => output
  | n + 1, u, output =>
    let u := wifiHmacSha1 password u
    pbkdf2Loop password n u (xorBytes output u)

def pbkdf2Sha1F (password salt : List UInt8) (iterations : Nat) (blockNum : UInt32) :
    List UInt8 :=
  let u := wifiHmacSha1 password (salt.take 120 ++ be32 blockNum)
  pbkdf2Loop password (iterations - 1) u u

abbrev pmkLen : Nat := 32
abbrev ptkLen : Nat := 48
abbrev kckLen : Nat := 16

abbrev nonceLen : Nat := 32

def wifiDerivePmk (passphrase ssid : List UInt8) : Table UInt8 pmkLen :=
  Table.ofList 0 (pbkdf2Sha1F passphrase ssid 4096 1 ++ pbkdf2Sha1F passphrase ssid 4096 2)

def prfLoop (key msg : List UInt8) : Nat → UInt8 → Nat → List UInt8
  | 0, _, _ => []
  | fuel + 1, counter, len =>
    if len = 0 then []
    else
      (wifiHmacSha1 key (msg ++ [counter])).take (min len sha1DigestSize) ++
        prfLoop key msg fuel (counter + 1) (len - min len sha1DigestSize)

def wfPrf (key label data : List UInt8) (outputLen : Nat) : Option (List UInt8) :=
  if 256 < label.length + 1 + data.length + 1 then none
  else some (prfLoop key (label ++ [0x00] ++ data) outputLen 0 outputLen)

def memLess : List UInt8 → List UInt8 → Bool
  | x :: xs, y :: ys => if x = y then memLess xs ys else x < y
  | _, _ => false

def sortedPair (a b : List UInt8) : List UInt8 := if memLess a b then a ++ b else b ++ a

def ptkLabel : List UInt8 :=
  [0x50, 0x61, 0x69, 0x72, 0x77, 0x69, 0x73, 0x65, 0x20, 0x6B, 0x65, 0x79, 0x20,
   0x65, 0x78, 0x70, 0x61, 0x6E, 0x73, 0x69, 0x6F, 0x6E]

def wifiDerivePtk (pmk : Table UInt8 pmkLen) (anonce snonce : Table UInt8 nonceLen)
    (aa spa : Table UInt8 6) : Table UInt8 ptkLen :=
  Table.ofList 0 ((wfPrf pmk.slots ptkLabel
    (sortedPair aa.slots spa.slots ++ sortedPair anonce.slots snonce.slots) ptkLen).getD [])

end AlJefra.Network
