/- Reading and writing sectors through an AHCI port, `ahci_ata_dma` of `drivers/storage/ahci.c`. -/
import AlJefra.Storage.Nvme

namespace AlJefra.Storage.Ahci

open AlJefra.Hal

def ahciMaxPrdtPerCmd : Nat := 8
def ahciPrdtMaxBytes : Nat := 4 * 1024 * 1024

structure PrdtEntry where
  dba : Nat
  dbau : Nat
  dbc : Nat
  deriving DecidableEq, Repr

structure Command where
  w : Bool
  command : Nat
  lba0 : Nat
  lba1 : Nat
  lba2 : Nat
  lba3 : Nat
  lba4 : Nat
  lba5 : Nat
  count : Nat
  prdt : List PrdtEntry
  deriving DecidableEq, Repr

def ataCommand : Op → Nat
  | .read => 0x25
  | .write => 0x35

structure AhciPort where
  present : Bool
  sectorSize : Nat
  sectorSize_eq : sectorSize = 512

def prdtLeft : Nat → Nat → Nat
  | 0, left => left
  | n + 1, left =>
    if left > 0 then
      let entrySize := if left > ahciPrdtMaxBytes then ahciPrdtMaxBytes else left
      prdtLeft n (left - entrySize)
    else left

def prdtFill (curPhys : Nat) : Nat → Nat → Nat → List PrdtEntry
  | 0, _, _ => []
  | n + 1, offset, left =>
    if left > 0 then
      let entrySize := if left > ahciPrdtMaxBytes then ahciPrdtMaxBytes else left
      let addr := (curPhys + offset) % 2 ^ 64
      { dba := addr % 2 ^ 32, dbau := addr / 2 ^ 32, dbc := (entrySize - 1) % 2 ^ 22 }
        :: prdtFill curPhys n (offset + entrySize) (left - entrySize)
    else []

def nextChunk (p : AhciPort) (remaining : Nat) : Nat :=
  let chunk := if remaining > 65536 then 65536 else remaining
  if prdtLeft ahciMaxPrdtPerCmd (chunk * p.sectorSize) > 0 then
    ahciMaxPrdtPerCmd * ahciPrdtMaxBytes / p.sectorSize
  else chunk

def buildCommand (p : AhciPort) (op : Op) (curLba curPhys chunk : Nat) : Command where
  w := decide (op = .write)
  command := ataCommand op
  lba0 := curLba % 256
  lba1 := curLba / 2 ^ 8 % 256
  lba2 := curLba / 2 ^ 16 % 256
  lba3 := curLba / 2 ^ 24 % 256
  lba4 := curLba / 2 ^ 32 % 256
  lba5 := curLba / 2 ^ 40 % 256
  count := if chunk = 65536 then 0 else chunk % 2 ^ 16
  prdt := prdtFill curPhys ahciMaxPrdtPerCmd 0 (chunk * p.sectorSize)

variable {σ : Type} (p : AhciPort) (io : σ → Command → σ × HalStatus)

def dmaLoop (op : Op) : Nat → σ → Nat → Nat → Nat → σ × HalStatus
  | 0, s, _, _, _ => (s, .ok)
  | fuel + 1, s, curLba, curPhys, remaining =>
    if remaining > 0 then
      let chunk := nextChunk p remaining
      match io s (buildCommand p op curLba curPhys chunk) with
      | (s, .ok) =>
        dmaLoop op fuel s ((curLba + chunk) % 2 ^ 64) ((curPhys + chunk * p.sectorSize) % 2 ^ 64)
          (remaining - chunk)
      | (s, st) => (s, st)
    else (s, .ok)

def ahciAtaDma (op : Op) (s : σ) (lba : UInt64) (count : UInt32) (bufPhys : UInt64) :
    σ × HalStatus :=
  if !p.present then (s, .noDevice)
  else dmaLoop p io op count.toNat s lba.toNat bufPhys.toNat count.toNat

structure AhciHba where
  initialized : Bool
  port : Option AhciPort

def ahciRw (hba : AhciHba) (port : AhciPort) (op : Op) (s : σ) (lba : UInt64) (count : UInt32)
    (bufPhys : UInt64) : σ × HalStatus :=
  if !hba.initialized then (s, .error) else ahciAtaDma port io op s lba count bufPhys

def ahciDrvRw (hba : AhciHba) (op : Op) (s : σ) (buf lba : UInt64) (count : UInt32) : σ × Int :=
  match hba.port with
  | none => (s, -1)
  | some port => drvResult count (ahciRw io hba port op s lba count buf)

end AlJefra.Storage.Ahci
