/-
The driver marketplace server: `DriverStore` (`server/driver_store.py`), its driver table
(`server/database.py`) and the endpoints that upload, recommend and download drivers
(`server/app.py`).
-/
import AlJefra.Lib.KeyedTable
import AlJefra.Server.AjdrvBuilder
import Mathlib.Data.List.DropRight

namespace AlJefra.Server

open AlJefra.Lib

/-! ## Strings -/

def slash : CodePoint := ⟨0x2F, by decide⟩
def underscore : CodePoint := ⟨0x5F, by decide⟩

def asciiLower (c : CodePoint) : CodePoint :=
  if h : 0x41 ≤ c.val ∧ c.val ≤ 0x5A then ⟨c.val + 0x20, by omega⟩ else c

def hexDigit (d : Nat) : CodePoint :=
  if h : d < 10 then ⟨0x30 + d, by omega⟩
  else if h : d < 16 then ⟨0x57 + d, by omega⟩
  else nul

def hex04 (n : Nat) : PyStr :=
  [hexDigit (n / 4096 % 16), hexDigit (n / 256 % 16), hexDigit (n / 16 % 16), hexDigit (n % 16)]

def hex08X (n : Nat) : PyStr :=
  (List.range 8).map fun i =>
    let d := n / 16 ^ (7 - i) % 16
    if h : 0x61 ≤ (hexDigit d).val ∧ (hexDigit d).val ≤ 0x66 then
      ⟨(hexDigit d).val - 0x20, by omega⟩
    else hexDigit d

structure ServerEnv where
  /-- `str.lower`. -/
  lower : PyStr → PyStr
  lower_ascii : ∀ s : PyStr, (∀ c ∈ s, c.val < 0x80) → lower s = s.map asciiLower
  /-- `bytes.decode("utf-8", errors="replace")`. -/
  decode : List UInt8 → PyStr
  /-- `hashlib.sha256(data).hexdigest()`. -/
  sha256Hex : List UInt8 → PyStr
  /-- Whether a response with this name and version among its headers is sent: Werkzeug raises on CR
  and LF, the WSGI server on what is not Latin-1. The other header values are ASCII. -/
  headersOk : PyStr → Option PyStr → Bool

def archX86 : PyStr := PyStr.ofString "x86_64"
def archAarch64 : PyStr := PyStr.ofString "aarch64"
def archRiscv64 : PyStr := PyStr.ofString "riscv64"
def archAny : PyStr := PyStr.ofString "any"

/-! ## The store -/

structure DriverRow where
  name : PyStr
  version : PyStr
  vendorId : PyStr
  deviceId : PyStr
  arch : PyStr
  category : Category
  sizeBytes : Nat
  sha256 : PyStr
  description : PyStr
  minOsVer : PyStr
  flags : Nat

def DriverRow.key (row : DriverRow) : PyStr × PyStr × PyStr :=
  (row.vendorId, row.deviceId, row.arch)

structure DriverMeta where
  name : PyStr
  version : Option PyStr
  vendorId : PyStr
  deviceId : PyStr
  arch : PyStr
  category : Category
  sizeBytes : Nat := 0
  sha256 : PyStr := []
  description : PyStr := []
  minOsVersion : PyStr := PyStr.ofString "1.0"
  flags : Nat := 0
  downloadUrl : PyStr := []

def DriverMeta.fillDownloadUrl (m : DriverMeta) : DriverMeta :=
  { m with
    downloadUrl := PyStr.ofString "/v1/drivers/" ++ m.vendorId ++ [slash] ++ m.deviceId ++ [slash]
      ++ m.arch }

structure Store where
  drivers : List DriverRow := []
  /-- Path below `DRIVERS_DIR` and contents. -/
  files : List (PyStr × List UInt8) := []

section Operations

variable (env : ServerEnv)

def driverRow (m : DriverMeta) (version : PyStr) : DriverRow :=
  { name := m.name, version := version, vendorId := env.lower m.vendorId,
    deviceId := env.lower m.deviceId, arch := m.arch, category := m.category,
    sizeBytes := m.sizeBytes, sha256 := m.sha256, description := m.description,
    minOsVer := m.minOsVersion, flags := m.flags }

def upsertDriver (drivers : List DriverRow) (m : DriverMeta) : Option (List DriverRow) :=
  m.version.map fun version => upsert DriverRow.key drivers (driverRow env m version)

def findDriver (drivers : List DriverRow) (vendorId deviceId arch : PyStr) : Option DriverRow :=
  lookup DriverRow.key (env.lower vendorId, env.lower deviceId, arch) drivers

def findDriverWithFallback (drivers : List DriverRow) (vendorId deviceId arch : PyStr) :
    Option DriverRow :=
  match findDriver env drivers vendorId deviceId arch with
  | some row => some row
  | none => findDriver env drivers vendorId deviceId archAny

def driverRowToMeta (row : DriverRow) : DriverMeta :=
  { name := row.name, version := some row.version, vendorId := row.vendorId,
    deviceId := row.deviceId, arch := row.arch, category := row.category,
    sizeBytes := row.sizeBytes, sha256 := row.sha256, description := row.description,
    minOsVersion := row.minOsVer, flags := row.flags }

def find (s : Store) (vendorId deviceId arch : PyStr) : Option DriverMeta :=
  (findDriver env s.drivers vendorId deviceId arch).map driverRowToMeta

def findForDevice (s : Store) (vendorId deviceId arch : PyStr) : Option DriverMeta :=
  (findDriverWithFallback env s.drivers vendorId deviceId arch).map driverRowToMeta

def driverPath (vendorId deviceId arch : PyStr) : PyStr :=
  arch ++ ([slash] ++ env.lower vendorId ++ [underscore] ++ env.lower deviceId
    ++ PyStr.ofString ".ajdrv")

def getDriverBinary (s : Store) (vendorId deviceId arch : PyStr) : Option (List UInt8) :=
  (lookup Prod.fst (driverPath env vendorId deviceId arch) s.files).map Prod.snd

def completed (m : DriverMeta) (binary : List UInt8) : DriverMeta :=
  { m with sizeBytes := binary.length, sha256 := env.sha256Hex binary }.fillDownloadUrl

def addDriver (s : Store) (m : DriverMeta) (binary : List UInt8) : Store × Option DriverMeta :=
  let files := upsert Prod.fst s.files (driverPath env m.vendorId m.deviceId m.arch, binary)
  match upsertDriver env s.drivers (completed env m binary) with
  | none => (⟨s.drivers, files⟩, none)
  | some drivers => (⟨drivers, files⟩, some (completed env m binary))

inductive Priority where
  | critical
  | recommended
  | optional
  deriving DecidableEq, Repr

structure Recommendation where
  vendorId : PyStr
  deviceId : PyStr
  driverName : PyStr
  version : Option PyStr
  priority : Priority
  downloadUrl : PyStr

def priority (hasDriver : Bool) (category : Category) : Priority :=
  if hasDriver then .optional
  else
    match category with
    | .storage | .network => .critical
    | .display | .gpu => .recommended
    | _ => .optional

def recommend (s : Store) (vendorId deviceId arch : PyStr) (hasDriver : Bool) :
    Option Recommendation := do
  let m ← findForDevice env s vendorId deviceId arch
  let m := m.fillDownloadUrl
  return { vendorId := m.vendorId, deviceId := m.deviceId, driverName := m.name,
           version := m.version, priority := priority hasDriver m.category,
           downloadUrl := m.downloadUrl }

/-! ## The endpoints -/

structure ManifestDevice where
  vendor : PyStr
  device : PyStr
  hasDriver : Bool

structure HardwareManifest where
  arch : PyStr
  devices : List ManifestDevice

inductive Response where
  /-- A JSON body with `error` and further fields. -/
  | error (status : Nat) (message : PyStr) (fields : List (String × PyStr))
  /-- Status 200 with the file and the headers that name it. -/
  | package (body : List UInt8) (filename name : PyStr) (version : Option PyStr) (sha256 : PyStr)

def getDriver (s : Store) (vendor device arch : PyStr) : Response :=
  let vendor := env.lower vendor
  let device := env.lower device
  let arch := env.lower arch
  let fields := [("vendor_id", vendor), ("device_id", device), ("arch", arch)]
  if arch ≠ archX86 ∧ arch ≠ archAarch64 ∧ arch ≠ archRiscv64 then
    .error 400 (PyStr.ofString "Unknown architecture: " ++ arch) []
  else
    match find env s vendor device arch with
    | none => .error 404 (PyStr.ofString "Driver not found") fields
    | some m =>
      match getDriverBinary env s vendor device arch with
      | none => .error 500 (PyStr.ofString "Driver binary missing from storage") fields
      | some binary =>
        if env.headersOk m.name m.version then
          .package binary
            (vendor ++ [underscore] ++ device ++ [underscore] ++ arch ++ PyStr.ofString ".ajdrv")
            m.name m.version m.sha256
        else .error 500 (PyStr.ofString "Internal Server Error") []

def get (s : Store) (url : PyStr) : Response :=
  match url.splitOn slash with
  | [[], v1, drivers, vendor, device, arch] =>
    if v1 = PyStr.ofString "v1" ∧ drivers = PyStr.ofString "drivers" ∧ vendor ≠ [] ∧ device ≠ []
        ∧ arch ≠ [] then
      getDriver env s vendor device arch
    else .error 404 (PyStr.ofString "Not Found") []
  | _ => .error 404 (PyStr.ofString "Not Found") []

inductive Extra where
  /-- Not JSON, or an object without `version`. -/
  | noVersion
  /-- An object whose `version` SQLite stores as this text. -/
  | version (text : PyStr)
  /-- An object whose `version` SQLite refuses: null, a list, an object. -/
  | badVersion
  /-- A JSON value that is not an object. -/
  | notObject

inductive Upload where
  | multipart (file : List UInt8) (metadata : Extra)
  | octetStream (data : List UInt8)
  | other

def Extra.getVersion : Extra → Option (Option PyStr)
  | .noVersion => some (some (PyStr.ofString "1.0.0"))
  | .version text => some (some text)
  | .badVersion => some none
  | .notObject => none

def headerField (binary : List UInt8) (offset width : Nat) : Nat :=
  leNat ((binary.drop offset).take width)

def headerText (binary : List UInt8) (offset size : Nat) : List UInt8 :=
  ((binary.drop offset).take size).rdropWhile (· = 0)

def archStr : Nat → PyStr
  | 0 => archX86
  | 1 => archAarch64
  | 2 => archRiscv64
  | 0xFF => archAny
  | _ => archX86

def catStr : Nat → Category
  | 0 => .storage
  | 1 => .network
  | 2 => .input
  | 3 => .display
  | 4 => .gpu
  | 5 => .bus
  | _ => .other

def packageMeta (binary : List UInt8) (version : Option PyStr) : DriverMeta :=
  { name := env.decode (headerText binary (headerField binary 24 4) (headerField binary 28 4)),
    version := version,
    vendorId := hex04 (headerField binary 48 2),
    deviceId := hex04 (headerField binary 50 2),
    arch := archStr (headerField binary 8 4),
    category := catStr (headerField binary 12 4),
    description := env.decode
      (headerText binary (headerField binary 32 4) (headerField binary 36 4)),
    flags := headerField binary 54 2 }

inductive UploadReply where
  | created (m : DriverMeta)
  | badRequest (message : PyStr)
  /-- The handler raised an exception, which Flask answers with 500. -/
  | raised

def parsePackage (binary : List UInt8) (extra : Extra) :
    Except UploadReply (DriverMeta × List UInt8) :=
  let magic := headerField binary 0 4
  if binary.length < 64 + 64 then
    .error (.badRequest (PyStr.ofString "File too small to be a valid .ajdrv package"))
  else if (magic : Int) ≠ ajdrvMagic then
    .error (.badRequest (PyStr.ofString "Bad magic: 0x" ++ hex08X magic
      ++ PyStr.ofString ", expected 0x" ++ hex08X ajdrvMagic.toNat))
  else
    match extra.getVersion with
    | none => .error .raised
    | some version => .ok (packageMeta env binary version, binary)

def parseUpload : Upload → Except UploadReply (DriverMeta × List UInt8)
  | .multipart file metadata => parsePackage env file metadata
  | .octetStream data => parsePackage env data .noVersion
  | .other => .error (.badRequest (PyStr.ofString
      "Upload .ajdrv via multipart 'file' field or application/octet-stream"))

def uploadDriver (s : Store) (upload : Upload) : Store × UploadReply :=
  match parseUpload env upload with
  | .error reply => (s, reply)
  | .ok (m, binary) =>
    match addDriver env s m binary with
    | (s, none) => (s, .raised)
    | (s, some m) => (s, .created m)

def serve (s : Store) (uploads : List Upload) : Store :=
  run (fun s upload => (uploadDriver env s upload).1) s uploads

end Operations

end AlJefra.Server
