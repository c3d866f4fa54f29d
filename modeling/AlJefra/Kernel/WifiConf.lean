/-
The saved Wi-Fi credentials of `kernel/shell.c`, over the filesystem of `AlJefra.Kernel.Fs` and
any driver.
-/
import AlJefra.Kernel.Fs

namespace AlJefra.Kernel.Fs

def wifiConf : CStr := ⟨[0x77, 0x69, 0x66, 0x69, 0x2E, 0x63, 0x6F, 0x6E, 0x66], by decide⟩
def ssidKey : List UInt8 := [0x73, 0x73, 0x69, 0x64, 0x3D]

def passphraseKey : List UInt8 :=
  [0x70, 0x61, 0x73, 0x73, 0x70, 0x68, 0x72, 0x61, 0x73, 0x65, 0x3D]

def passwordKey : List UInt8 := [0x70, 0x61, 0x73, 0x73, 0x77, 0x6F, 0x72, 0x64, 0x3D]
def strCopy (src : List UInt8) (max : Nat) : List UInt8 := src.take (max - 1)

def strAppend (cap : Nat) (buf src : List UInt8) : List UInt8 :=
  buf ++ strCopy src (cap - buf.length)

def wifiText (ssid pass : CStr) : List UInt8 :=
  let buf := strCopy ssidKey 160
  let buf := strAppend 160 buf ssid.bytes
  let buf := strAppend 160 buf (0x0A :: passphraseKey)
  let buf := strAppend 160 buf pass.bytes
  strAppend 160 buf [0x0A]

section Model

variable {σ : Type} (drv : StorageOps σ)

def fsSync (s : FsState σ) : Int × FsState σ := if ¬ s.initialized then (-1, s) else dirWrite drv s

def shellSaveWifiCredentials (s : FsState σ) (ssid pass : Option CStr) : FsState σ :=
  match ssid, pass with
  | some ssid, some pass =>
    let buf := wifiText ssid pass
    match fsCreate drv s (some wifiConf) 1 with
    | (fd, s) =>
      if fd < 0 then s
      else
        let s := (fsWrite drv s fd (some buf) 0 (UInt64.ofNat buf.length)).2
        let s := fsClose s fd
        (fsSync drv s).2
  | _, _ => s

end Model

/-! ## Reading the text -/

def isNewline (b : UInt8) : Bool := b == 0x0A || b == 0x0D
def wifiLine (cur : List UInt8) : List UInt8 := (cur.takeWhile fun b => !isNewline b).take 95
def afterLine (cur : List UInt8) : List UInt8 :=
  (cur.drop (wifiLine cur).length).dropWhile isNewline

def wifiField (ssidMax passMax : Nat) (line : List UInt8) (fields : List UInt8 × List UInt8) :
    List UInt8 × List UInt8 :=
  if ssidKey.isPrefixOf line then (strCopy (line.drop 5) ssidMax, fields.2)
  else if passphraseKey.isPrefixOf line then (fields.1, strCopy (line.drop 11) passMax)
  else if passwordKey.isPrefixOf line then (fields.1, strCopy (line.drop 9) passMax)
  else fields

def wifiFields (ssidMax passMax : Nat) : Nat → List UInt8 → List UInt8 × List UInt8 →
    List UInt8 × List UInt8
  | 0, _, fields => fields
  | fuel + 1, cur, fields =>
    if cur = [] then fields
    else wifiFields ssidMax passMax fuel (afterLine cur)
      (wifiField ssidMax passMax (wifiLine cur) fields)

def wifiParse (ssidMax passMax : Nat) (bytes : List UInt8) :
    Option (List UInt8 × List UInt8) :=
  let text := bytes.takeWhile fun b => b != 0
  let (ssid, pass) := wifiFields ssidMax passMax text.length text ([], [])
  if ssid ≠ [] ∧ pass ≠ [] then some (ssid, pass) else none

def shellLoadWifiCredentials {σ : Type} (drv : StorageOps σ) (s : FsState σ)
    (ssidMax passMax : Nat) : Option (List UInt8 × List UInt8) × FsState σ :=
  match fsOpen s (some wifiConf) with
  | (none, s) => (none, s)
  | (some fd, s) =>
    match fsRead drv s fd true 0 255 with
    | ((rd, bytes), s) =>
      let s := fsClose s fd
      if rd ≤ 0 then (none, s) else (wifiParse ssidMax passMax bytes, s)

end AlJefra.Kernel.Fs
