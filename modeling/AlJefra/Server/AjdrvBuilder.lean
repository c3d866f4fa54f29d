/- `build_ajdrv` of `server/ajdrv_builder.py`. -/
import AlJefra.Lib.Pack

namespace AlJefra.Server

open AlJefra.Lib

abbrev PyStr := List CodePoint

def PyStr.ofString (s : String) : PyStr :=
  s.toList.map fun c => ⟨c.toNat, by
    have hvalid := c.valid
    rw [UInt32.isValidChar, Nat.isValidChar] at hvalid
    exact hvalid.elim (fun h => Nat.lt_trans h (by decide)) And.right⟩

def nul : CodePoint := ⟨0, by decide⟩
def dot : CodePoint := ⟨0x2E, by decide⟩
def ajdrvMagic : Int := 0x56444A41
def ajdrvVersion : Int := 1
def headerSize : Nat := 64
def sigSize : Nat := 64

inductive Arch where
  | x86_64
  | aarch64
  | riscv64
  | any
  | other
  deriving DecidableEq, Repr

def archCode : Arch → Int
  | .x86_64 => 0
  | .aarch64 => 1
  | .riscv64 => 2
  | .any => 0xFF
  | .other => 0

inductive Category where
  | storage
  | network
  | input
  | display
  | gpu
  | bus
  | other
  | unknown
  deriving DecidableEq, Repr

def categoryCode : Category → Int
  | .storage => 0
  | .network => 1
  | .input => 2
  | .display => 3
  | .gpu => 4
  | .bus => 5
  | .other => 6
  | .unknown => 6

structure BuildEnv where
  /-- `int(s)`. -/
  int : PyStr → Option Int
  /-- `HAS_NACL`. -/
  hasNacl : Bool
  /-- The contents of a file. -/
  readFile : PyStr → Option (List UInt8)
  /-- `SigningKey(sk).sign(data).signature`. -/
  sign : List UInt8 → List UInt8 → Option (List UInt8)

structure BuildArgs where
  name : PyStr
  description : PyStr
  vendorId : Int
  deviceId : Int
  arch : Arch
  category : Category
  code : List UInt8
  signingKeyPath : PyStr := []
  entryOffset : Int := 0
  minOsVersion : PyStr := PyStr.ofString "1.0"
  flags : Int := 0

section Build

variable (env : BuildEnv)

def packVersion (verStr : PyStr) : Option Int := do
  let parts := verStr.splitOn dot
  let major ← match parts[0]? with
    | some part => env.int part
    | none => some 1
  let minor ← match parts[1]? with
    | some part => env.int part
    | none => some 0
  -- `& 0xFF` on an integer of either sign
  return ((major % 256).toNat <<< 8 ||| (minor % 256).toNat : Nat)

def headerFields (args : BuildArgs) (nameSize descSize : Nat) (osVer : Int) :
    List (Nat × Int) :=
  let nameOffset := headerSize
  let descOffset := nameOffset + nameSize
  let codeOffset := descOffset + descSize
  let sigOffset := codeOffset + args.code.length
  [(4, ajdrvMagic), (4, ajdrvVersion), (4, archCode args.arch), (4, categoryCode args.category),
   (4, codeOffset), (4, args.code.length), (4, nameOffset), (4, nameSize), (4, descOffset),
   (4, descSize), (4, args.entryOffset), (4, sigOffset), (2, args.vendorId), (2, args.deviceId),
   (2, osVer), (2, args.flags)]

def signature (keyPath : PyStr) (signedData : List UInt8) : Option (List UInt8) :=
  if keyPath ≠ [] ∧ env.hasNacl then do
    let sk ← env.readFile keyPath
    let sig ← env.sign sk signedData
    if sig.length = sigSize then some sig else none
  else some (List.replicate sigSize 0)

def buildAjdrv (args : BuildArgs) : Option (List UInt8) := do
  let nameBytes ← utf8 (args.name ++ [nul])
  let descBytes ← utf8 (args.description ++ [nul])
  let osVer ← packVersion env args.minOsVersion
  let fields ← pack (headerFields args nameBytes.length descBytes.length osVer)
  let header := fields ++ List.replicate 8 0
  if header.length = headerSize then do
    let signedData := header ++ nameBytes ++ descBytes ++ args.code
    let sig ← signature env args.signingKeyPath signedData
    return signedData ++ sig
  else none

end Build

end AlJefra.Server
