/-
`driver_load_runtime` of `kernel/driver_loader.c`. The architecture, the allocator and the
behaviour of the loaded code belong to the environment. The name is printed up to a NUL; the
event keeps its offset only.
-/
import AlJefra.Store.Package

namespace AlJefra.Kernel.DriverLoader

open AlJefra.Lib AlJefra.Hal AlJefra.Store

abbrev maxDrivers : Nat := 32

structure DriverOps (Dev : Type) where
  init : Option (Dev → HalStatus)

structure LoadEnv (Dev : Type) where
  /-- `hal_arch`. -/
  arch : UInt32
  /-- Whether `hal_dma_alloc` returns a buffer. -/
  dmaAlloc : UInt64 → Bool
  /-- What code called at an offset returns: an operations table or `NULL`. -/
  run : List UInt8 → UInt32 → Option (DriverOps Dev)

inductive LoadEvent where
  | printName (off : Nat)
  | copyCode (off : Nat) (code : List UInt8)
  | callEntry (code : List UInt8) (entryOffset : UInt32)
  | initDevice
  | free
  deriving DecidableEq, Repr

structure Loader (Dev : Type) where
  loaded : List (DriverOps Dev)
  trusted : TrustedKey

structure LoadResult (Dev : Type) where
  status : HalStatus
  events : List LoadEvent
  loader : Loader Dev

section Load

variable {Dev : Type} (ed25519Verify : Ed25519) (env : LoadEnv Dev)

def Loader.add (l : Loader Dev) (ops : DriverOps Dev) : Loader Dev :=
  if l.loaded.length < maxDrivers then { l with loaded := l.loaded ++ [ops] } else l

def startDriver (l : Loader Dev) (code : List UInt8) (entryOffset : UInt32) (dev : Dev)
    (before : List LoadEvent) : LoadResult Dev :=
  match env.run code entryOffset with
  | none => ⟨.error, before ++ [.callEntry code entryOffset, .free], l⟩
  | some ops =>
    match ops.init with
    | none => ⟨.ok, before ++ [.callEntry code entryOffset], l.add ops⟩
    | some init =>
      if init dev ≠ .ok then
        ⟨init dev, before ++ [.callEntry code entryOffset, .initDevice, .free], l⟩
      else ⟨.ok, before ++ [.callEntry code entryOffset, .initDevice], l.add ops⟩

/-- Without a trusted key the package is loaded unverified. -/
def driverLoadRuntime (l : Loader Dev) (data : Pointer) (size : UInt64) (dev : Dev) :
    LoadResult Dev :=
  let hdr := readHeader data
  if size < ajdrvHeaderSize.toUInt64 then ⟨.error, [], l⟩
  else if hdr.magic ≠ ajdrvMagic then ⟨.error, [], l⟩
  else if hdr.arch ≠ env.arch ∧ hdr.arch ≠ 0xFF then ⟨.notSupported, [], l⟩
  else if size < (hdr.codeOffset + hdr.codeSize).toUInt64 ∨
      size < (hdr.nameOffset + hdr.nameSize).toUInt64 then ⟨.error, [], l⟩
  else
    let name := LoadEvent.printName hdr.nameOffset.toNat
    match ajdrvVerify ed25519Verify l.trusted data size with
    | .ok | .notSupported =>
      if env.dmaAlloc hdr.codeSize.toUInt64 then
        let code := data.bytes hdr.codeOffset.toNat hdr.codeSize.toNat
        startDriver env l code hdr.entryOffset dev
          [name, .copyCode hdr.codeOffset.toNat code]
      else ⟨.noMemory, [name], l⟩
    -- the message about the failed check prints the name, too
    | _ => ⟨.error, [name], l⟩

end Load

end AlJefra.Kernel.DriverLoader
