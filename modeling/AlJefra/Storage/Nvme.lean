/-
Reading and writing blocks, `nvme_read`, `nvme_write` and the driver's entry points of
`drivers/storage/nvme.c`.
-/
import AlJefra.Hal.Memory

namespace AlJefra.Storage

open AlJefra.Hal

inductive Op where
  | read
  | write
  deriving DecidableEq, Repr

def Op.opc : Op → Nat
  | .read => 0x02
  | .write => 0x01

structure SqEntry where
  opc : Nat
  nsid : Nat
  prp1 : Nat
  prp2 : Nat
  cdw10 : Nat
  cdw11 : Nat
  cdw12 : Nat
  deriving DecidableEq, Repr

structure NvmeController where
  maxTransfer : UInt32
  ns1BlockSize : UInt32
  initialized : Bool
  blockSize_pos : initialized = true → 0 < ns1BlockSize.toNat

variable (ctrl : NvmeController)

def maxBlocks : Nat :=
  let blocks := ctrl.maxTransfer.toNat / ctrl.ns1BlockSize.toNat
  if blocks = 0 then 1 else blocks

def twoPages : Nat :=
  let blocks := 8192 / ctrl.ns1BlockSize.toNat
  if blocks = 0 then 1 else blocks

def nextPage (prp1 : Nat) : Nat := (prp1 / 4096 * 4096 + 4096) % 2 ^ 64

structure Chunk where
  blocks : Nat
  prp1 : Nat
  prp2 : Nat

def nextChunk (bufPhys offset remaining : Nat) : Chunk :=
  let blockSize := ctrl.ns1BlockSize.toNat
  let chunk := if remaining > maxBlocks ctrl then maxBlocks ctrl else remaining
  let transferBytes := chunk * blockSize
  let prp1 := (bufPhys + offset) % 2 ^ 64
  if transferBytes > 4096 then
    if transferBytes ≤ 8192 then
      if prp1 % 4096 ≠ 0 then ⟨chunk, prp1, nextPage prp1⟩
      else ⟨chunk, prp1, (prp1 + 4096) % 2 ^ 64 / 4096 * 4096⟩
    else
      let chunk := twoPages ctrl
      if chunk * blockSize > 4096 then ⟨chunk, prp1, nextPage prp1⟩ else ⟨chunk, prp1, 0⟩
  else ⟨chunk, prp1, 0⟩

def sqEntry (op : Op) (lba : Nat) (chunk : Chunk) : SqEntry :=
  { opc := op.opc, nsid := 1, prp1 := chunk.prp1, prp2 := chunk.prp2,
    cdw10 := lba % 2 ^ 32, cdw11 := lba / 2 ^ 32, cdw12 := chunk.blocks - 1 }

variable {σ : Type} (io : σ → SqEntry → σ × HalStatus)

def nvmeLoop (op : Op) (bufPhys : Nat) : Nat → σ → Nat → Nat → Nat → σ × HalStatus
  | 0, s, _, _, _ => (s, .ok)
  | fuel + 1, s, lba, remaining, offset =>
    if remaining > 0 then
      let chunk := nextChunk ctrl bufPhys offset remaining
      match io s (sqEntry op lba chunk) with
      | (s, .ok) =>
        nvmeLoop op bufPhys fuel s ((lba + chunk.blocks) % 2 ^ 64) (remaining - chunk.blocks)
          (offset + chunk.blocks * ctrl.ns1BlockSize.toNat)
      | (s, st) => (s, st)
    else (s, .ok)

def nvmeRw (op : Op) (s : σ) (lba : UInt64) (count : UInt32) (bufPhys : UInt64) : σ × HalStatus :=
  if !ctrl.initialized then (s, .error)
  else if count = 0 then (s, .ok)
  else nvmeLoop ctrl io op bufPhys.toNat count.toNat s lba.toNat count.toNat 0

def nvmeRead : σ → UInt64 → UInt32 → UInt64 → σ × HalStatus := nvmeRw ctrl io .read
def nvmeWrite : σ → UInt64 → UInt32 → UInt64 → σ × HalStatus := nvmeRw ctrl io .write

def drvResult (count : UInt32) (r : σ × HalStatus) : σ × Int :=
  (r.1, if r.2 = .ok then count.toNat else -1)

def nvmeDrvRw (op : Op) (s : σ) (buf lba : UInt64) (count : UInt32) : σ × Int :=
  drvResult count (nvmeRw ctrl io op s lba count buf)

end AlJefra.Storage
