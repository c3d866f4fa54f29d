/-
The update pipeline of `kernel/ota.c`. What the network and the storage driver answer is part of a
call's input; an empty answer of `tcp_recv` stands for its results 0 and -1.
-/
import AlJefra.Lib.Http
import AlJefra.Lib.Run
import AlJefra.Store.Package

namespace AlJefra.Kernel.Ota

open AlJefra.Lib AlJefra.Hal AlJefra.Store
open AlJefra.Lib.Http (isDigit toLower)

def otaKernelStartLba : Nat := 10
abbrev otaSectorSize : UInt32 := 4096
def otaRollbackLba : Nat := 9
def otaRollbackMagic : UInt32 := 0x524F4C4C
def otaStagingSize : UInt32 := 256 * 1024

/-! ## Checksums and HTTP -/

def crc32Byte (crc : UInt32) (byte : UInt8) : UInt32 :=
  (List.range 8).foldl
    (fun crc _ => if crc &&& 1 ≠ 0 then crc >>> 1 ^^^ 0xEDB88320 else crc >>> 1)
    (crc ^^^ byte.toUInt32)

def crc32Buf (data : List UInt8) : UInt32 := data.foldl crc32Byte 0xFFFFFFFF ^^^ 0xFFFFFFFF

def leadingDecimal (s : List UInt8) : UInt32 :=
  (s.takeWhile isDigit).foldl (fun val c => val * 10 + (c - 0x30).toUInt32) 0

def contentLengthNeedle : List UInt8 :=
  [0x63, 0x6F, 0x6E, 0x74, 0x65, 0x6E, 0x74, 0x2D, 0x6C, 0x65, 0x6E, 0x67, 0x74, 0x68, 0x3A, 0x20]

def parseContentLength : List UInt8 → UInt32
  | [] => 0
  | c :: cs =>
    if 16 < (c :: cs).length ∧ ((c :: cs).take 16).map toLower = contentLengthNeedle then
      leadingDecimal ((c :: cs).drop 16)
    else parseContentLength cs

def findHeaderEnd : List UInt8 → Nat → Nat
  | [], _ => 0
  | c :: cs, i =>
    if (c :: cs).take 4 = [0x0D, 0x0A, 0x0D, 0x0A] then i + 4 else findHeaderEnd cs (i + 1)

def parseHttpStatus (buf : List UInt8) : UInt32 :=
  leadingDecimal ((buf.dropWhile (· ≠ 0x20)).drop 1)

/-! ## The metadata of an update -/

def jsonGetString (key : List UInt8) (outMax : Nat) : List UInt8 → Option (List UInt8)
  | [] => none
  | c :: cs =>
    if key.length + 4 < (c :: cs).length ∧ c = 0x22 ∧ cs.take key.length = key ∧
        cs.getD key.length 0 = 0x22 then
      let value := (cs.drop (key.length + 1)).dropWhile fun c => c = 0x3A ∨ c = 0x20
      if value.head? = some 0x22 then
        some (((value.drop 1).takeWhile (· ≠ 0x22)).take (outMax - 1))
      else
        some ((value.takeWhile fun c => c ≠ 0x2C ∧ c ≠ 0x7D ∧ c ≠ 0x20).take (outMax - 1))
    else if key.length + 4 < (c :: cs).length then jsonGetString key outMax cs
    else none

def hexDigit (c : UInt8) : Option UInt32 :=
  if 0x30 ≤ c ∧ c ≤ 0x39 then some (c - 0x30).toUInt32
  else if 0x61 ≤ c ∧ c ≤ 0x66 then some (c - 0x61 + 10).toUInt32
  else if 0x41 ≤ c ∧ c ≤ 0x46 then some (c - 0x41 + 10).toUInt32
  else none

def leadingHex : List UInt8 → UInt32 → UInt32
  | [], val => val
  | c :: cs, val =>
    match hexDigit c with
    | some d => leadingHex cs (val <<< 4 ||| d)
    | none => val

def strToHex32 : List UInt8 → UInt32
  | 0x30 :: 0x78 :: s => leadingHex s 0
  | 0x30 :: 0x58 :: s => leadingHex s 0
  | s => leadingHex s 0

structure UpdateInfo where
  version : List UInt8
  url : List UInt8
  size : UInt32
  crc32 : UInt32
  deriving DecidableEq, Repr

def UpdateInfo.zero : UpdateInfo := ⟨[], [], 0, 0⟩

def parseUpdateInfo (json : List UInt8) : Option UpdateInfo :=
  (jsonGetString [0x76, 0x65, 0x72, 0x73, 0x69, 0x6F, 0x6E] 32 json).map fun version =>
    { version := version
      url := (jsonGetString [0x75, 0x72, 0x6C] 256 json).getD []
      size := ((jsonGetString [0x73, 0x69, 0x7A, 0x65] 256 json).map leadingDecimal).getD 0
      crc32 := ((jsonGetString [0x63, 0x72, 0x63, 0x33, 0x32] 256 json).map strToHex32).getD 0 }

/-! ## State -/

inductive OtaStatus where
  | none
  | available
  | downloading
  | verifying
  | ready
  | applying
  | done
  | error
  deriving DecidableEq, Repr

inductive OtaEvent where
  /-- `g_staging` or `g_staging_len` was assigned. -/
  | staged
  /-- `ajdrv_verify` answered `rc` for the staged bytes. -/
  | verified (bytes : List UInt8) (rc : HalStatus)
  /-- A sector of the kernel area was handed to the storage driver. -/
  | kernelWrite (lba : Nat) (sector : List UInt8)
  /-- The rollback sector was. -/
  | rollbackWrite (sector : List UInt8)
  deriving DecidableEq, Repr

structure OtaState where
  status : OtaStatus
  staging : Pointer
  stagingLen : UInt32
  trusted : TrustedKey
  log : List OtaEvent

namespace OtaState

def image (s : OtaState) : List UInt8 := s.staging.bytes 0 s.stagingLen.toNat
def setStatus (s : OtaState) (status : OtaStatus) : OtaState := { s with status := status }
def emit (s : OtaState) (e : OtaEvent) : OtaState := { s with log := e :: s.log }
def clearStaging (s : OtaState) : OtaState := { s with stagingLen := 0, log := .staged :: s.log }

def stage (s : OtaState) (data : List UInt8) : OtaState :=
  { s with
    staging := s.staging.write s.stagingLen.toNat data
    stagingLen := s.stagingLen + UInt32.ofNat data.length
    log := .staged :: s.log }

end OtaState

/-! ## `ota_check` -/

structure CheckNet where
  connects : Bool
  response : List UInt8

def otaCheck (info : Bool) (net : CheckNet) (s : OtaState) : HalStatus × UpdateInfo × OtaState :=
  if !info then (.error, .zero, s)
  else
    let s := s.setStatus .none
    let resp := net.response.take 2048
    if !net.connects then (.timeout, .zero, s.setStatus .error)
    else if resp = [] then (.timeout, .zero, s.setStatus .error)
    else if parseHttpStatus resp = 204 ∨ parseHttpStatus resp = 404 then (.error, .zero, s)
    else if parseHttpStatus resp ≠ 200 then (.error, .zero, s.setStatus .error)
    else if findHeaderEnd resp 0 = 0 then (.error, .zero, s.setStatus .error)
    else
      match parseUpdateInfo (resp.drop (findHeaderEnd resp 0)) with
      | none => (.error, .zero, s.setStatus .error)
      | some info => (.ok, info, s.setStatus .available)

/-! ## `ota_download` -/

structure DownloadNet where
  connects : Bool
  header : List UInt8
  chunks : List (List UInt8)

def downloadLoop (contentLen : UInt32) : List (List UInt8) → OtaState → Bool × OtaState
  | [], s => (!(s.stagingLen < contentLen), s)
  | c :: cs, s =>
    if s.stagingLen < contentLen then
      let data := c.take (min (contentLen - s.stagingLen).toNat 4096)
      if data = [] then (false, s) else downloadLoop contentLen cs (s.stage data)
    else (true, s)

def initialBody (hdr : List UInt8) : List UInt8 :=
  if 0 < findHeaderEnd hdr 0 ∧ findHeaderEnd hdr 0 < hdr.length then
    (hdr.drop (findHeaderEnd hdr 0)).take otaStagingSize.toNat
  else []

def contentLength (info : UpdateInfo) (hdr : List UInt8) : UInt32 :=
  if parseContentLength hdr = 0 then info.size else parseContentLength hdr

def stageInitial (hdr : List UInt8) (s : OtaState) : OtaState :=
  if initialBody hdr = [] then s.clearStaging else s.clearStaging.stage (initialBody hdr)

def downloadBody (info : UpdateInfo) (hdr : List UInt8) (chunks : List (List UInt8))
    (s : OtaState) : HalStatus × OtaState :=
  let r := downloadLoop (contentLength info hdr) chunks (stageInitial hdr s)
  if !r.1 then (.timeout, r.2.setStatus .error)
  else if info.crc32 ≠ 0 ∧ crc32Buf r.2.image ≠ info.crc32 then (.error, r.2.setStatus .error)
  else (.ok, r.2)

def otaDownload (info : Option UpdateInfo) (net : DownloadNet) (s : OtaState) :
    HalStatus × OtaState :=
  match info with
  | none => (.error, s)
  | some info =>
    if info.url.headD 0 = 0 then (.error, s)
    else if otaStagingSize < info.size then (.error, s.setStatus .error)
    else
      let s := s.setStatus .downloading
      let hdr := net.header.take 1024
      if !net.connects then (.timeout, s.setStatus .error)
      else if hdr = [] then (.timeout, s.setStatus .error)
      else if parseHttpStatus hdr ≠ 200 then (.error, s.setStatus .error)
      else if otaStagingSize < contentLength info hdr then (.error, s.setStatus .error)
      else downloadBody info hdr net.chunks s

/-! ## `ota_verify` -/

def ed25519PublicKey : Table UInt8 ajdrvPubkeySize where
  slots :=
    [0xD7, 0x5A, 0x98, 0x01, 0x82, 0xB1, 0x0A, 0xB7, 0xD5, 0x4B, 0xFE, 0xD3, 0xC9, 0x64, 0x07, 0x3A,
     0x0E, 0xE1, 0x72, 0xF3, 0xDA, 0xA3, 0x23, 0x91, 0xEB, 0x51, 0xD1, 0x23, 0xF4, 0x6B, 0x28, 0xC0]
  length_slots := rfl

def ed25519KeyInstall (s : OtaState) : OtaState :=
  { s with trusted := ajdrvSetTrustedKey ed25519PublicKey }

section Verify

variable (ed25519Verify : Ed25519)

def otaVerify (s : OtaState) : HalStatus × OtaState :=
  if s.stagingLen = 0 then (.error, s.setStatus .error)
  else
    let s := ed25519KeyInstall (s.setStatus .verifying)
    let rc := ajdrvVerify ed25519Verify s.trusted s.staging s.stagingLen.toUInt64
    let s := s.emit (.verified s.image rc)
    if rc ≠ .ok then (.error, s.setStatus .error) else (.ok, s.setStatus .ready)

end Verify

/-! ## `ota_apply` -/

def stagedSector (s : OtaState) (i : UInt32) : List UInt8 :=
  let offset := i * otaSectorSize
  let chunk := min (s.stagingLen - offset) otaSectorSize
  s.staging.bytes offset.toNat chunk.toNat ++
    List.replicate (otaSectorSize - chunk).toNat 0

def rollbackSector (s : OtaState) : List UInt8 :=
  leBytes 4 otaRollbackMagic.toNat ++ leBytes 4 s.stagingLen.toNat ++
    List.replicate (otaSectorSize.toNat - 8) 0

def writeSectors (writeOk : Nat → Bool) : Nat → Nat → OtaState → Bool × OtaState
  | 0, _, s => (true, s)
  | n + 1, i, s =>
    let s := s.emit (.kernelWrite (otaKernelStartLba + i) (stagedSector s (UInt32.ofNat i)))
    if writeOk (i + 1) then writeSectors writeOk n (i + 1) s else (false, s)

def sectorCount (s : OtaState) : UInt32 := (s.stagingLen + otaSectorSize - 1) / otaSectorSize

def otaApply (stor : Option (Nat → Bool)) (s : OtaState) : HalStatus × OtaState :=
  if s.status ≠ .ready then (.error, s)
  else
    let s := s.setStatus .applying
    match stor with
    | none => (.noDevice, s.setStatus .error)
    | some writeOk =>
      let s := s.emit (.rollbackWrite (rollbackSector s))
      if !writeOk 0 then (.error, s.setStatus .error)
      else
        let (written, s) := writeSectors writeOk (sectorCount s).toNat 0 s
        if !written then (.error, s.setStatus .error)
        else
          let s := s.emit (.rollbackWrite (List.replicate otaSectorSize.toNat 0))
          (.ok, s.setStatus .done)

/-! ## Runs -/

inductive OtaCall where
  | check (info : Bool) (net : CheckNet)
  | download (info : Option UpdateInfo) (net : DownloadNet)
  | verify
  | apply (stor : Option (Nat → Bool))

def otaStep (ed25519Verify : Ed25519) (s : OtaState) : OtaCall → OtaState
  | .check info net => (otaCheck info net s).2.2
  | .download info net => (otaDownload info net s).2
  | .verify => (otaVerify ed25519Verify s).2
  | .apply stor => (otaApply stor s).2

def otaBoot (staging : Pointer) (trusted : TrustedKey) : OtaState :=
  ⟨.none, staging, 0, trusted, []⟩

end AlJefra.Kernel.Ota
