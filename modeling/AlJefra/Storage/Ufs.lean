/-
Reading and writing blocks of a UFS unit, `ufs_read`, `ufs_write`, `ufs_drv_read` and
`ufs_drv_write` of `drivers/storage/ufs.c`.
-/
import AlJefra.Storage.Nvme

namespace AlJefra.Storage.Ufs

open AlJefra.Hal

def ufsMaxPrdtEntries : Nat := 64
def ufsPrdtMaxBytes : Nat := 0x40000
def ufsMaxDataBuf : Nat := 65536
def ufsBlockSize : Nat := 4096

structure PrdtEntry where
  baseAddr : Nat
  baseAddrUpper : Nat
  size : Nat
  deriving DecidableEq, Repr

structure ScsiCommand where
  cdb : List Nat
  dataDir : Nat
  expDataXferLen : Nat
  prdt : List PrdtEntry
  deriving DecidableEq, Repr

structure UfsController where
  lun0BlockSize : UInt32
  dataBufPhys : UInt64
  initialized : Bool
  dataBuf_ne : initialized = true → dataBufPhys ≠ 0

def UfsController.blockSize (ctrl : UfsController) : Nat :=
  if ctrl.lun0BlockSize = 0 then ufsBlockSize else ctrl.lun0BlockSize.toNat

def prdtFill (dataPhys : Nat) : Nat → Nat → Nat → List PrdtEntry
  | 0, _, _ => []
  | n + 1, offset, remaining =>
    if remaining > 0 then
      let chunk := if remaining > ufsPrdtMaxBytes then ufsPrdtMaxBytes else remaining
      let addr := (dataPhys + offset) % 2 ^ 64
      { baseAddr := addr % 2 ^ 32, baseAddrUpper := addr / 2 ^ 32, size := chunk - 1 }
        :: prdtFill dataPhys n (offset + chunk) (remaining - chunk)
    else []

def scsiOp : Op → Nat
  | .read => 0x28
  | .write => 0x2A

def utpDirection : Op → Nat
  | .read => 4
  | .write => 2

def buildCommand (op : Op) (curLba chunk dataPhys dataLen : Nat) : ScsiCommand where
  cdb := [scsiOp op, 0, curLba / 2 ^ 24 % 256, curLba / 2 ^ 16 % 256, curLba / 2 ^ 8 % 256,
    curLba % 256, 0, chunk / 2 ^ 8 % 256, chunk % 256, 0, 0, 0, 0, 0, 0, 0]
  dataDir := utpDirection op
  expDataXferLen := dataLen
  prdt := if dataLen > 0 ∧ dataPhys ≠ 0 then prdtFill dataPhys ufsMaxPrdtEntries 0 dataLen else []

def nextChunk (blockSize remaining : Nat) : Nat :=
  let chunk := if remaining > 65535 then 65535 else remaining
  if chunk * blockSize > ufsMaxPrdtEntries * ufsPrdtMaxBytes then
    ufsMaxPrdtEntries * ufsPrdtMaxBytes / blockSize
  else chunk

variable {σ : Type} (ctrl : UfsController)

def ufsLoop (io : σ → ScsiCommand → σ × HalStatus) (op : Op) (bufPhys : Nat) :
    Nat → σ → Nat → Nat → Nat → σ × Option HalStatus
  | fuel, s, curLba, remaining, offset =>
    if remaining = 0 then (s, some .ok)
    else match fuel with
    | 0 => (s, none)
    | fuel + 1 =>
      let chunk := nextChunk ctrl.blockSize remaining
      let xferBytes := chunk * ctrl.blockSize
      match io s (buildCommand op curLba chunk ((bufPhys + offset) % 2 ^ 64) xferBytes) with
      | (s, .ok) =>
        ufsLoop io op bufPhys fuel s ((curLba + chunk) % 2 ^ 64) (remaining - chunk)
          (offset + xferBytes)
      | (s, st) => (s, some st)

def ufsRw (io : σ → ScsiCommand → σ × HalStatus) (op : Op) (s : σ) (lba count bufPhys : Nat) :
    σ × Option HalStatus :=
  if !ctrl.initialized then (s, some .error)
  else ufsLoop ctrl io op bufPhys count s lba count 0

structure Staged where
  addr : Nat
  bytes : Nat
  deriving DecidableEq, Repr

def maxBlocks : Nat :=
  let blocks := ufsMaxDataBuf / ctrl.blockSize
  if blocks = 0 then 1 else blocks

def drvLoop (io : σ → Staged × ScsiCommand → σ × HalStatus) (op : Op) (buf : Nat) :
    Nat → σ → Nat → Nat → Nat → σ × Option HalStatus
  | 0, s, _, _, _ => (s, some .ok)
  | fuel + 1, s, curLba, remaining, offset =>
    if remaining > 0 then
      let chunk := if remaining > maxBlocks ctrl then maxBlocks ctrl else remaining
      let xferBytes := chunk * ctrl.blockSize
      let staged : Staged := ⟨(buf + offset) % 2 ^ 64, xferBytes⟩
      match ufsRw ctrl (fun s cmd => io s (staged, cmd)) op s curLba chunk
          ctrl.dataBufPhys.toNat with
      | (s, some .ok) =>
        drvLoop io op buf fuel s ((curLba + chunk) % 2 ^ 64) (remaining - chunk)
          (offset + xferBytes)
      | (s, st) => (s, st)
    else (s, some .ok)

def ufsDrvRw (io : σ → Staged × ScsiCommand → σ × HalStatus) (op : Op) (s : σ) (buf lba : UInt64)
    (count : UInt32) : σ × Option Int :=
  match drvLoop ctrl io op buf.toNat count.toNat s lba.toNat count.toNat 0 with
  | (s, some .ok) => (s, some count.toNat)
  | (s, some _) => (s, some (-1))
  | (s, none) => (s, none)

end AlJefra.Storage.Ufs
