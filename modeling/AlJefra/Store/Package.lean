/-
`.ajdrv` packages: the header of `store/package.h` and the signature check of `store/verify.c`.
-/
import AlJefra.Hal.Memory
import AlJefra.Lib.SlotTable

namespace AlJefra.Store

open AlJefra.Lib AlJefra.Hal

def ajdrvMagic : UInt32 := 0x56444A41
def ajdrvVersion : UInt32 := 1
def ajdrvSignatureSize : UInt32 := 64
def ajdrvHeaderSize : UInt32 := 64
abbrev ajdrvPubkeySize : Nat := 32

structure AjdrvHeader where
  magic : UInt32
  version : UInt32
  arch : UInt32
  codeOffset : UInt32
  codeSize : UInt32
  nameOffset : UInt32
  nameSize : UInt32
  entryOffset : UInt32
  signatureOffset : UInt32
  deriving DecidableEq, Repr

def readHeader (data : Pointer) : AjdrvHeader where
  magic := data.u32 0x00
  version := data.u32 0x04
  arch := data.u32 0x08
  codeOffset := data.u32 0x10
  codeSize := data.u32 0x14
  nameOffset := data.u32 0x18
  nameSize := data.u32 0x1C
  entryOffset := data.u32 0x28
  signatureOffset := data.u32 0x2C

def ajdrvValidateHeader (hdr : AjdrvHeader) (totalSize : UInt64) : Int :=
  if hdr.magic ≠ ajdrvMagic then -1
  else if hdr.version = 0 ∨ ajdrvVersion < hdr.version then -2
  else if totalSize < (hdr.codeOffset + hdr.codeSize).toUInt64 then -3
  else if totalSize < (hdr.nameOffset + hdr.nameSize).toUInt64 then -4
  else if totalSize < (hdr.signatureOffset + ajdrvSignatureSize).toUInt64 then -5
  else if hdr.codeSize ≤ hdr.entryOffset then -6
  else 0

structure TrustedKey where
  key : Table UInt8 ajdrvPubkeySize
  keySet : Bool
  deriving DecidableEq

def ajdrvSetTrustedKey (pubKey : Table UInt8 ajdrvPubkeySize) : TrustedKey := ⟨pubKey, true⟩

abbrev Ed25519 := Table UInt8 ajdrvPubkeySize → List UInt8 → List UInt8 → Int

section Verify

variable (ed25519Verify : Ed25519)

def ajdrvVerifySignature (pubKey : Table UInt8 ajdrvPubkeySize) (data : Pointer)
    (size : UInt64) : HalStatus :=
  if size < (ajdrvHeaderSize + ajdrvSignatureSize).toUInt64 then .error
  else if ajdrvValidateHeader (readHeader data) size ≠ 0 then .error
  -- the signed region is [0, signature_offset)
  else if ed25519Verify pubKey (data.bytes 0 (readHeader data).signatureOffset.toNat)
      (data.bytes (readHeader data).signatureOffset.toNat ajdrvSignatureSize.toNat) ≠ 0 then
    .error
  else .ok

def ajdrvVerify (trusted : TrustedKey) (data : Pointer) (size : UInt64) : HalStatus :=
  if trusted.keySet then ajdrvVerifySignature ed25519Verify trusted.key data size
  else .notSupported

structure Validated (hdr : AjdrvHeader) (size : UInt64) : Prop where
  magic : hdr.magic = ajdrvMagic
  code : (hdr.codeOffset + hdr.codeSize).toUInt64 ≤ size
  name : (hdr.nameOffset + hdr.nameSize).toUInt64 ≤ size
  signature : (hdr.signatureOffset + ajdrvSignatureSize).toUInt64 ≤ size
  entry : hdr.entryOffset < hdr.codeSize

variable {size : UInt64}

theorem validated_of_validateHeader {hdr : AjdrvHeader} (h : ajdrvValidateHeader hdr size = 0) :
    Validated hdr size := by
  unfold ajdrvValidateHeader at h
  split at h
  · cases h
  · next hmagic =>
    split at h
    · cases h
    · split at h
      · cases h
      · next hcode =>
        split at h
        · cases h
        · next hname =>
          split at h
          · cases h
          · next hsig =>
            split at h
            · cases h
            · next hentry =>
              exact ⟨not_not.mp hmagic, UInt64.not_lt.mp hcode, UInt64.not_lt.mp hname,
                UInt64.not_lt.mp hsig, UInt32.not_le.mp hentry⟩

theorem validated_of_verifySignature {pubKey : Table UInt8 ajdrvPubkeySize} {data : Pointer}
    (h : ajdrvVerifySignature ed25519Verify pubKey data size = .ok) :
    Validated (readHeader data) size := by
  unfold ajdrvVerifySignature at h
  split at h
  · cases h
  · split at h
    · cases h
    · next hvalid => exact validated_of_validateHeader (not_not.mp hvalid)

end Verify

end AlJefra.Store
