/- `cmd_sign` and `cmd_verify` of `tools/sign_kernel.py`. -/
import AlJefra.Lib.Pack

namespace AlJefra.Tools

open AlJefra.Lib

abbrev Py (α : Type) := Option α

structure Crypto where
  sha512 : List UInt8 → List UInt8
  sign : List UInt8 → List UInt8 → List UInt8
  verify : List UInt8 → List UInt8 → List UInt8 → Bool
  length_sha512 : ∀ data, (sha512 data).length = 64
  length_sign : ∀ key message, (sign key message).length = 64

structure KeyPair (crypto : Crypto) where
  privateKey : List UInt8
  publicKey : List UInt8
  verify_sign : ∀ message, crypto.verify publicKey message (crypto.sign privateKey message) = true

def ajkrnMagic : Int := 0x4E4B4A41

structure ModuleGlobals where
  ajkrnVersion : Int := 1
  headerSize : Nat := 128
  ed25519Available : Bool := true
  asserts : Bool := true

def slice (data : List UInt8) (i j : Nat) : List UInt8 := (data.drop i).take (j - i)

section Commands

variable (m : ModuleGlobals) (crypto : Crypto)

def packHeader (kernelSize : Int) (sha512Digest signature : List UInt8) (flags : Int) :
    Py (List UInt8) := do
  let hdr ← pack [(4, ajkrnMagic), (4, m.ajkrnVersion), (4, kernelSize)]
  let flagBytes ← pack [(4, flags)]
  let hdr := hdr ++ flagBytes ++ sha512Digest ++ signature
  if m.asserts ∧ hdr.length ≠ m.headerSize then none else some hdr

structure Header where
  kernelSize : Nat
  sha512 : List UInt8
  signature : List UInt8

def unpackHeader (data : List UInt8) : Py (Option Header) :=
  if data.length < m.headerSize then some none
  else if data.length < 16 then none
  else if (leNat (slice data 0 4) : Int) ≠ ajkrnMagic then some none
  else some (some ⟨leNat (slice data 8 12), slice data 16 80, slice data 80 144⟩)

def signedPart (kernelSize : Int) (digest : List UInt8) : Py (List UInt8) := do
  let fields ← pack [(4, ajkrnMagic), (4, m.ajkrnVersion), (4, kernelSize), (4, 0)]
  return fields ++ digest

def cmdSign (kernelData : List UInt8) (key : Option (List UInt8)) : Py (Option (List UInt8)) :=
  if !m.ed25519Available then some none
  else
    match key with
    | none => some none
    | some privateKey => do
      let digest := crypto.sha512 kernelData
      let message ← signedPart m kernelData.length digest
      let header ← packHeader m kernelData.length digest (crypto.sign privateKey message) 0
      return some (header ++ kernelData)

def verifyBody (data : List UInt8) (hdr : Header) (key : Option (List UInt8)) :
    Option (List UInt8) :=
  let kernelData := slice data m.headerSize (m.headerSize + hdr.kernelSize)
  if kernelData.length ≠ hdr.kernelSize then none
  else if crypto.sha512 kernelData ≠ hdr.sha512 then none
  else
    match key with
    | none => some kernelData
    | some publicKey =>
      if crypto.verify publicKey (data.take 80) hdr.signature then some kernelData else none

def cmdVerify (data : List UInt8) (key : Option (List UInt8)) : Py (Option (List UInt8)) :=
  if !m.ed25519Available then some none
  else (unpackHeader m data).map fun hdr => hdr.bind fun hdr => verifyBody m crypto data hdr key

end Commands

end AlJefra.Tools
