/- The storage drivers behind `driver_ops_t`, each with a device that does what it is told. -/
import AlJefra.Storage.AhciTheorems
import AlJefra.Storage.UfsTheorems
import AlJefra.Storage.VirtioBlk

namespace AlJefra.Storage

open AlJefra.Hal
open AlJefra.Lib

abbrev Move : Type := Nat × Nat

def sectorMoves (buf lba : UInt64) (count : UInt32) : List Move :=
  (List.range (count.toNat * 512)).map fun i => (lba.toNat * 512 + i, (buf.toNat + i) % 2 ^ 64)

/-! ## The devices -/

def prpByte (prp1 prp2 i : Nat) : Nat :=
  let first := 4096 - prp1 % 4096
  if i < first then prp1 + i else prp2 + (i - first)

def SqEntry.moves (blockSize : Nat) (cmd : SqEntry) : Option (List Move) :=
  let len := cmd.numBlocks * blockSize
  if cmd.prp1 % 4096 + len ≤ 8192 then
    some ((List.range len).map fun i => (cmd.slba * blockSize + i, prpByte cmd.prp1 cmd.prp2 i))
  else none

def SqEntry.accepted (blocks : Nat) (cmd : SqEntry) : Bool :=
  decide (cmd.slba + cmd.numBlocks ≤ blocks)

namespace Ahci

structure Drive where
  sectorSize : Nat
  sectors : Nat

def Command.moves (drive : Drive) (cmd : Command) : Option (List Move) :=
  let len := cmd.sectors * drive.sectorSize
  if cmd.bytes.length = len then
    some (((List.range len).map fun i => cmd.lba * drive.sectorSize + i).zip cmd.bytes)
  else none

def Command.accepted (drive : Drive) (cmd : Command) : Bool :=
  decide (cmd.lba + cmd.sectors ≤ drive.sectors)

end Ahci

namespace Ufs

def ScsiCommand.lba (cmd : ScsiCommand) : Nat :=
  2 ^ 24 * cmd.cdb.getD 2 0 + 2 ^ 16 * cmd.cdb.getD 3 0 + 2 ^ 8 * cmd.cdb.getD 4 0 +
    cmd.cdb.getD 5 0

def ScsiCommand.blocks (cmd : ScsiCommand) : Nat := 2 ^ 8 * cmd.cdb.getD 7 0 + cmd.cdb.getD 8 0

def PrdtEntry.bytes (e : PrdtEntry) : List Nat :=
  (List.range (e.size + 1)).map fun i => e.baseAddr + 2 ^ 32 * e.baseAddrUpper + i

def ScsiCommand.bytes (cmd : ScsiCommand) : List Nat := cmd.prdt.flatMap PrdtEntry.bytes

def moves (blockSize dataBuf : Nat) (cmd : Staged × ScsiCommand) : Option (List Move) :=
  let len := cmd.2.blocks * blockSize
  if cmd.2.bytes.length = len ∧
      (∀ m ∈ cmd.2.bytes, dataBuf ≤ m ∧ m < dataBuf + cmd.1.bytes) then
    some (((List.range len).map fun i => cmd.2.lba * blockSize + i).zip
      (cmd.2.bytes.map fun m => (cmd.1.addr + (m - dataBuf)) % 2 ^ 64))
  else none

def accepted (blocks : Nat) (cmd : Staged × ScsiCommand) : Bool :=
  decide (cmd.2.lba + cmd.2.blocks ≤ blocks)

end Ufs

namespace VirtioBlk

def Request.moves (req : Request) : Option (List Move) :=
  some ((List.range req.len).map fun i => (req.sector * 512 + i, (req.addr + i) % 2 ^ 64))

def Request.accepted (capacity : Nat) (req : Request) : Bool :=
  decide (req.sector * 512 + req.len ≤ capacity * 512)

end VirtioBlk

/-! ## The drivers -/

inductive StorageDriver where
  | nvme (ctrl : NvmeController) (nsze : UInt64)
  | ufs (ctrl : Ufs.UfsController) (blocks : Nat)
  | ahci (hba : Ahci.AhciHba) (drive : Ahci.Drive)
  | virtioBlk (dev : VirtioBlk.VirtioBlkDev) (capacity : UInt64)

def StorageDriver.rw (d : StorageDriver) (op : Op) (buf lba : UInt64) (count : UInt32) :
    Option (List Move) × Option Int :=
  match d with
  | .nvme ctrl nsze =>
    let io := carryOut HalStatus.ok .error (SqEntry.accepted nsze.toNat)
      (SqEntry.moves ctrl.ns1BlockSize.toNat)
    let r := nvmeDrvRw ctrl io op (some []) buf lba count
    (r.1, some r.2)
  | .ufs ctrl blocks =>
    let io := carryOut HalStatus.ok .error (Ufs.accepted blocks)
      (Ufs.moves ctrl.blockSize ctrl.dataBufPhys.toNat)
    Ufs.ufsDrvRw ctrl io op (some []) buf lba count
  | .ahci hba drive =>
    let io := carryOut HalStatus.ok .error (Ahci.Command.accepted drive)
      (Ahci.Command.moves drive)
    let r := Ahci.ahciDrvRw io hba op (some []) buf lba count
    (r.1, some r.2)
  | .virtioBlk dev capacity =>
    let io := carryOut HalStatus.ok .error (VirtioBlk.Request.accepted capacity.toNat)
      VirtioBlk.Request.moves
    let r := VirtioBlk.virtioBlkDrvRw dev io op (some []) buf lba count
    (r.1, some r.2)

end AlJefra.Storage
