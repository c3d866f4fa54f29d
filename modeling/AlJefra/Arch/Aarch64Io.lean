/-
The DMA allocator of `arch/aarch64/io.c`: a bump allocator that takes back only what was
allocated last.
-/
import AlJefra.Hal.Memory

namespace AlJefra.Arch.Aarch64

def dmaPoolBase : Nat := 0x4E000000
def dmaPoolSize : Nat := 16 * 1024 * 1024
def dmaAligned (size : Nat) : Nat := (size + 4095) / 4096 * 4096

def halDmaAlloc (dmaNext size : Nat) : Option Nat × Nat :=
  if dmaPoolBase + dmaPoolSize < dmaNext + dmaAligned size then (none, dmaNext)
  else (some dmaNext, dmaNext + dmaAligned size)

def halDmaFree (dmaNext addr size : Nat) : Nat :=
  if addr + dmaAligned size = dmaNext then addr else dmaNext

def aarch64Dma : Hal.Dma Nat := ⟨halDmaAlloc, halDmaFree⟩

end AlJefra.Arch.Aarch64
