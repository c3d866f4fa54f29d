/- AES-128, CCM and CCMP frames of `drivers/network/aes_ccmp.c`. -/
import AlJefra.Hal.Memory
import AlJefra.Lib.BlockMode
import AlJefra.Lib.SlotTable

namespace AlJefra.Network

open AlJefra.Lib AlJefra.Hal

/-! ## AES-128 -/

abbrev aesBlockSize : Nat := 16
abbrev aesKeySize : Nat := 16

def aesSbox : List UInt8 :=
  [0x63, 0x7c, 0x77, 0x7b, 0xf2, 0x6b, 0x6f, 0xc5, 0x30, 0x01, 0x67, 0x2b,
   0xfe, 0xd7, 0xab, 0x76, 0xca, 0x82, 0xc9, 0x7d, 0xfa, 0x59, 0x47, 0xf0,
   0xad, 0xd4, 0xa2, 0xaf, 0x9c, 0xa4, 0x72, 0xc0, 0xb7, 0xfd, 0x93, 0x26,
   0x36, 0x3f, 0xf7, 0xcc, 0x34, 0xa5, 0xe5, 0xf1, 0x71, 0xd8, 0x31, 0x15,
   0x04, 0xc7, 0x23, 0xc3, 0x18, 0x96, 0x05, 0x9a, 0x07, 0x12, 0x80, 0xe2,
   0xeb, 0x27, 0xb2, 0x75, 0x09, 0x83, 0x2c, 0x1a, 0x1b, 0x6e, 0x5a, 0xa0,
   0x52, 0x3b, 0xd6, 0xb3, 0x29, 0xe3, 0x2f, 0x84, 0x53, 0xd1, 0x00, 0xed,
   0x20, 0xfc, 0xb1, 0x5b, 0x6a, 0xcb, 0xbe, 0x39, 0x4a, 0x4c, 0x58, 0xcf,
   0xd0, 0xef, 0xaa, 0xfb, 0x43, 0x4d, 0x33, 0x85, 0x45, 0xf9, 0x02, 0x7f,
   0x50, 0x3c, 0x9f, 0xa8, 0x51, 0xa3, 0x40, 0x8f, 0x92, 0x9d, 0x38, 0xf5,
   0xbc, 0xb6, 0xda, 0x21, 0x10, 0xff, 0xf3, 0xd2, 0xcd, 0x0c, 0x13, 0xec,
   0x5f, 0x97, 0x44, 0x17, 0xc4, 0xa7, 0x7e, 0x3d, 0x64, 0x5d, 0x19, 0x73,
   0x60, 0x81, 0x4f, 0xdc, 0x22, 0x2a, 0x90, 0x88, 0x46, 0xee, 0xb8, 0x14,
   0xde, 0x5e, 0x0b, 0xdb, 0xe0, 0x32, 0x3a, 0x0a, 0x49, 0x06, 0x24, 0x5c,
   0xc2, 0xd3, 0xac, 0x62, 0x91, 0x95, 0xe4, 0x79, 0xe7, 0xc8, 0x37, 0x6d,
   0x8d, 0xd5, 0x4e, 0xa9, 0x6c, 0x56, 0xf4, 0xea, 0x65, 0x7a, 0xae, 0x08,
   0xba, 0x78, 0x25, 0x2e, 0x1c, 0xa6, 0xb4, 0xc6, 0xe8, 0xdd, 0x74, 0x1f,
   0x4b, 0xbd, 0x8b, 0x8a, 0x70, 0x3e, 0xb5, 0x66, 0x48, 0x03, 0xf6, 0x0e,
   0x61, 0x35, 0x57, 0xb9, 0x86, 0xc1, 0x1d, 0x9e, 0xe1, 0xf8, 0x98, 0x11,
   0x69, 0xd9, 0x8e, 0x94, 0x9b, 0x1e, 0x87, 0xe9, 0xce, 0x55, 0x28, 0xdf,
   0x8c, 0xa1, 0x89, 0x0d, 0xbf, 0xe6, 0x42, 0x68, 0x41, 0x99, 0x2d, 0x0f,
   0xb0, 0x54, 0xbb, 0x16]

def aesRcon : List UInt8 := [0x01, 0x02, 0x04, 0x08, 0x10, 0x20, 0x40, 0x80, 0x1b, 0x36]
def subByte (x : UInt8) : UInt8 := aesSbox.getD x.toNat 0

def aesWord (a b c d : UInt8) : UInt32 :=
  a.toUInt32 <<< 24 ||| b.toUInt32 <<< 16 ||| c.toUInt32 <<< 8 ||| d.toUInt32

def aesByte (w : UInt32) (n : UInt32) : UInt8 := (w >>> (24 - 8 * n)).toUInt8

def aesSubWord (w : UInt32) : UInt32 :=
  aesWord (subByte (aesByte w 0)) (subByte (aesByte w 1)) (subByte (aesByte w 2))
    (subByte (aesByte w 3))

def aesRotWord (w : UInt32) : UInt32 := w <<< 8 ||| w >>> 24

def nextRoundKey (rk : List UInt32) (i : Nat) : UInt32 :=
  let temp := rk.getD (i - 1) 0
  let temp := if i % 4 = 0 then
      aesSubWord (aesRotWord temp) ^^^ (aesRcon.getD (i / 4 - 1) 0).toUInt32 <<< 24
    else temp
  rk.getD (i - 4) 0 ^^^ temp

def aes128Init (key : Table UInt8 aesKeySize) : List UInt32 :=
  let word := fun i => aesWord (key.slots.getD (4 * i) 0) (key.slots.getD (4 * i + 1) 0)
    (key.slots.getD (4 * i + 2) 0) (key.slots.getD (4 * i + 3) 0)
  (List.range' 4 40).foldl (fun rk i => rk ++ [nextRoundKey rk i]) [word 0, word 1, word 2, word 3]

def xtime (x : UInt8) : UInt8 := x <<< 1 ^^^ ((x >>> 7) &&& 1) * 0x1b

structure AesCol where
  s0 : UInt8
  s1 : UInt8
  s2 : UInt8
  s3 : UInt8
  deriving DecidableEq

structure AesState where
  c0 : AesCol
  c1 : AesCol
  c2 : AesCol
  c3 : AesCol
  deriving DecidableEq

namespace AesCol

def addRoundKey (rk : UInt32) (c : AesCol) : AesCol :=
  ⟨c.s0 ^^^ aesByte rk 0, c.s1 ^^^ aesByte rk 1, c.s2 ^^^ aesByte rk 2, c.s3 ^^^ aesByte rk 3⟩

def subBytes (c : AesCol) : AesCol := ⟨subByte c.s0, subByte c.s1, subByte c.s2, subByte c.s3⟩

def mixColumn (c : AesCol) : AesCol :=
  let h := c.s0 ^^^ c.s1 ^^^ c.s2 ^^^ c.s3
  ⟨c.s0 ^^^ xtime (c.s0 ^^^ c.s1) ^^^ h, c.s1 ^^^ xtime (c.s1 ^^^ c.s2) ^^^ h,
   c.s2 ^^^ xtime (c.s2 ^^^ c.s3) ^^^ h, c.s3 ^^^ xtime (c.s3 ^^^ c.s0) ^^^ h⟩

def bytes (c : AesCol) : List UInt8 := [c.s0, c.s1, c.s2, c.s3]

end AesCol

namespace AesState

def addRoundKey (rk : List UInt32) (round : Nat) (s : AesState) : AesState :=
  ⟨s.c0.addRoundKey (rk.getD (4 * round) 0), s.c1.addRoundKey (rk.getD (4 * round + 1) 0),
   s.c2.addRoundKey (rk.getD (4 * round + 2) 0), s.c3.addRoundKey (rk.getD (4 * round + 3) 0)⟩

def subBytes (s : AesState) : AesState :=
  ⟨s.c0.subBytes, s.c1.subBytes, s.c2.subBytes, s.c3.subBytes⟩

def shiftRows (s : AesState) : AesState :=
  ⟨⟨s.c0.s0, s.c1.s1, s.c2.s2, s.c3.s3⟩, ⟨s.c1.s0, s.c2.s1, s.c3.s2, s.c0.s3⟩,
   ⟨s.c2.s0, s.c3.s1, s.c0.s2, s.c1.s3⟩, ⟨s.c3.s0, s.c0.s1, s.c1.s2, s.c2.s3⟩⟩

def mixColumns (s : AesState) : AesState :=
  ⟨s.c0.mixColumn, s.c1.mixColumn, s.c2.mixColumn, s.c3.mixColumn⟩

def round (rk : List UInt32) (s : AesState) (r : Nat) : AesState :=
  s.subBytes.shiftRows.mixColumns.addRoundKey rk r

def load (b : List UInt8) : AesState :=
  let col := fun c => AesCol.mk (b.getD (4 * c) 0) (b.getD (4 * c + 1) 0) (b.getD (4 * c + 2) 0)
    (b.getD (4 * c + 3) 0)
  ⟨col 0, col 1, col 2, col 3⟩

def bytes (s : AesState) : List UInt8 := s.c0.bytes ++ s.c1.bytes ++ s.c2.bytes ++ s.c3.bytes

end AesState

def aes128EncryptBlock (rk : List UInt32) (inp : List UInt8) : List UInt8 :=
  let s := (AesState.load inp).addRoundKey rk 0
  let s := (List.range' 1 9).foldl (AesState.round rk) s
  (s.subBytes.shiftRows.addRoundKey rk 10).bytes

/-! ## CCM -/

abbrev ccmpMicLen : Nat := 8
abbrev ccmpHdrLen : Nat := 8
abbrev ccmpPnLen : Nat := 6
abbrev ccmpNonceLen : Nat := 13

def ccmFlagsB0 : UInt8 := 0x59
def ccmFlagsCtr : UInt8 := 0x01

section Ccm

variable (rk : List UInt32) (nonce aad : List UInt8)

def ccmCbcMac (data : List UInt8) : List UInt8 :=
  let b0 := [ccmFlagsB0] ++ nonce ++ [UInt8.ofNat (data.length >>> 8), UInt8.ofNat data.length]
  let mac := aes128EncryptBlock rk b0
  -- the first AAD block starts with the length of the AAD
  let mac := if 0 < aad.length then
      let first := [UInt8.ofNat (aad.length >>> 8), UInt8.ofNat aad.length] ++ aad.take 14
      let mac := aes128EncryptBlock rk (xorBytes (padBlock aesBlockSize first) mac)
      cbcLoop aesBlockSize (aes128EncryptBlock rk) aad.length mac (aad.drop 14)
    else mac
  cbcLoop aesBlockSize (aes128EncryptBlock rk) data.length mac data

def ccmCtrBlock (counter : UInt16) : List UInt8 :=
  [ccmFlagsCtr] ++ nonce ++ [(counter >>> 8).toUInt8, counter.toUInt8]

def ccmKeystream (counter : UInt16) : List UInt8 :=
  aes128EncryptBlock rk (ccmCtrBlock nonce counter)

def ccmEncrypt (plaintext : List UInt8) : List UInt8 :=
  ctrLoop aesBlockSize (ccmKeystream rk nonce) plaintext.length 1 plaintext ++
    xorBytes ((ccmCbcMac rk nonce aad plaintext).take ccmpMicLen) (ccmKeystream rk nonce 0)

def ccmDecrypt (ciphertext : List UInt8) : HalStatus × List UInt8 :=
  if ciphertext.length < ccmpMicLen then (.error, [])
  else
    let ptLen := ciphertext.length - ccmpMicLen
    let plaintext := ctrLoop aesBlockSize (ccmKeystream rk nonce) ptLen 1 (ciphertext.take ptLen)
    let recvMic := xorBytes (ciphertext.drop ptLen) (ccmKeystream rk nonce 0)
    let mac := ccmCbcMac rk nonce aad plaintext
    (if diffBytes recvMic (mac.take ccmpMicLen) = 0 then .ok else .error, plaintext)

end Ccm

/-! ## CCMP frames -/

def byteAt (b : List UInt8) (i : Nat) : UInt8 := b.getD i 0
def fourAddress (frame : List UInt8) : Bool := byteAt frame 1 &&& 0x03 = 0x03

def isQos (frame : List UInt8) : Bool :=
  (byteAt frame 0 >>> 2) &&& 0x03 = 2 ∧ ((byteAt frame 0 >>> 4) &&& 0x0F) &&& 0x08 ≠ 0

def qosOffset (frame : List UInt8) : Nat := if fourAddress frame then 30 else 24

def ccmpBuildNonce (priority : UInt8) (addr2 : List UInt8) (pn : Table UInt8 ccmpPnLen) :
    List UInt8 :=
  [priority &&& 0x0F] ++ addr2 ++ pn.slots.reverse

def ccmpBuildAad (hdr : List UInt8) (hdrLen : Nat) : List UInt8 :=
  if hdrLen < 24 then []
  else
    [byteAt hdr 0, byteAt hdr 1 &&& 0xC7] ++ (hdr.drop 4).take 18 ++ [byteAt hdr 22 &&& 0x0F, 0] ++
      (if fourAddress hdr ∧ 30 ≤ hdrLen then (hdr.drop 24).take 6 else []) ++
      (if isQos hdr ∧ qosOffset hdr + 1 < hdrLen then [byteAt hdr (qosOffset hdr) &&& 0x0F, 0]
        else [])

def ccmpBuildHdr (pn : Table UInt8 ccmpPnLen) (keyId : UInt8) : List UInt8 :=
  [byteAt pn.slots 0, byteAt pn.slots 1, 0, (0x20 : UInt8) ||| (keyId &&& 0x03) <<< 6,
   byteAt pn.slots 2, byteAt pn.slots 3, byteAt pn.slots 4, byteAt pn.slots 5]

def ccmpParseHdr (hdr : List UInt8) : Table UInt8 ccmpPnLen × UInt8 :=
  (⟨[byteAt hdr 0, byteAt hdr 1, byteAt hdr 4, byteAt hdr 5, byteAt hdr 6, byteAt hdr 7], rfl⟩,
   (byteAt hdr 3 >>> 6) &&& 0x03)

def ccmpMacHdrLen (frame : List UInt8) : Nat :=
  24 + (if fourAddress frame then 6 else 0) + (if isQos frame then 2 else 0)

def framePriority (frame : List UInt8) : UInt8 :=
  if isQos frame ∧ qosOffset frame < frame.length then byteAt frame (qosOffset frame) &&& 0x0F
  else 0

def addr2 (frame : List UInt8) : List UInt8 := (frame.drop 10).take 6

structure FrameOut where
  status : HalStatus
  out : List UInt8
  outLen : Option Nat
  deriving DecidableEq, Repr

def ccmpEncryptFrame (tk : Table UInt8 aesKeySize) (frame : List UInt8)
    (pn : Table UInt8 ccmpPnLen) : FrameOut :=
  let hdrLen := ccmpMacHdrLen frame
  if frame.length < hdrLen then ⟨.error, [], none⟩
  else
    let nonce := ccmpBuildNonce (framePriority frame) (addr2 frame) pn
    let aad := ccmpBuildAad frame hdrLen
    let out := (frame.take hdrLen).modify 1 (· ||| 0x40) ++ ccmpBuildHdr pn 0 ++
      ccmEncrypt (aes128Init tk) nonce aad (frame.drop hdrLen)
    ⟨.ok, out, some (hdrLen + ccmpHdrLen + (frame.length - hdrLen) + ccmpMicLen)⟩

def ccmpDecryptFrame (tk : Table UInt8 aesKeySize) (frame : List UInt8) : FrameOut :=
  let hdrLen := ccmpMacHdrLen frame
  if frame.length < hdrLen + ccmpHdrLen + ccmpMicLen then ⟨.error, [], none⟩
  else
    let pn := (ccmpParseHdr (frame.drop hdrLen)).1
    let nonce := ccmpBuildNonce (framePriority frame) (addr2 frame) pn
    -- from the header with the Protected bit as it is
    let aad := ccmpBuildAad frame hdrLen
    let dec := ccmDecrypt (aes128Init tk) nonce aad (frame.drop (hdrLen + ccmpHdrLen))
    let out := (frame.take hdrLen).modify 1 (· &&& ~~~0x40) ++ dec.2
    ⟨dec.1, out,
     some (if dec.1 = .ok then hdrLen + (frame.length - hdrLen - ccmpHdrLen - ccmpMicLen) else 0)⟩

end AlJefra.Network
