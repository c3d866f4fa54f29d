/-
The physical page allocators (`hal_mmu_alloc_pages`, `hal_mmu_free_pages` and
`hal_mmu_get_memory_map` of the `mmu.c` of each architecture).
-/
import AlJefra.Lib.Bitmap
import AlJefra.Lib.Run
import AlJefra.Arch.X86Mmu

namespace AlJefra.Arch

open AlJefra.Lib

structure MemRegion where
  base : UInt64
  size : UInt64
  type : UInt32
  deriving DecidableEq, Repr

structure PageHal (σ : Type) where
  halMmuInit : σ → σ
  halMmuAllocPages : σ → UInt32 → UInt64 × σ
  halMmuFreePages : σ → UInt64 → UInt32 → σ
  /-- The regions filled in for `max` entries. -/
  halMmuGetMemoryMap : σ → UInt32 → List MemRegion
  /-- The bytes of the pages `hal_mmu_init` marks as allocated. -/
  reserved : Range

/-! ## x86-64 -/

namespace X86

def pageFreeOne (s : MmuState) (phys : UInt64) : MmuState :=
  if phys < pagePoolBase ∨ phys ≥ pagePoolBase + 0x1000000 then s
  else
    let idx := ((phys - pagePoolBase) / pageSize4K).toUInt32.toNat
    { s with pageBitmap := mark false s.pageBitmap ⟨idx, 1⟩ }

def halMmuAllocPages (s : MmuState) (count : UInt32) : UInt64 × MmuState :=
  if count = 0 then (0, s)
  else if count = 1 then pageAllocOne s
  else
    match findRun s.pageBitmap count.toNat pagePoolPages 0 0 0 with
    | none => (0, s)
    | some runStart =>
      (poolPage runStart, { s with
        pageBitmap := mark true s.pageBitmap ⟨runStart, count.toNat⟩
        -- the pages are zeroed one after another
        mem := (List.range count.toNat).foldl
          (fun mem j => setPage mem (poolPage (runStart + j)) fun _ => 0) s.mem })

def halMmuFreePages (s : MmuState) (phys : UInt64) (count : UInt32) : MmuState :=
  (List.range count.toNat).foldl (fun s i => pageFreeOne s (phys + i.toUInt64 * pageSize4K)) s

def pageHal (memRegions : List MemRegion) : PageHal MmuState where
  halMmuInit s := { s with pageBitmap := fun _ => false, mmuInitialized := true }
  halMmuAllocPages := halMmuAllocPages
  halMmuFreePages := halMmuFreePages
  halMmuGetMemoryMap _ max := memRegions.take max.toNat
  reserved := ⟨pagePoolBase.toNat, 0⟩

end X86

/-! ## aarch64 and riscv64 -/

structure FrameState where
  pageBitmap : Nat → Bool
  totalRamBytes : UInt64
  freeRamBytes : UInt64

namespace FrameState

def halMmuInit (basePfn reservedPages : Nat) (_ : FrameState) : FrameState where
  pageBitmap := mark true (fun _ => false) ⟨basePfn, reservedPages⟩
  totalRamBytes := 256 * 1024 * 1024
  freeRamBytes := 256 * 1024 * 1024 - reservedPages.toUInt64 * 4096

def halMmuAllocPages (basePfn : Nat) (s : FrameState) (count : UInt32) : UInt64 × FrameState :=
  match findRun s.pageBitmap count.toNat (s.totalRamBytes / 4096).toNat basePfn 0 0 with
  | none => (0, s)
  | some startPfn =>
    (startPfn.toUInt64 * 4096, { s with
      pageBitmap := mark true s.pageBitmap ⟨startPfn, count.toNat⟩
      freeRamBytes := s.freeRamBytes - count.toUInt64 * 4096 })

def halMmuFreePages (s : FrameState) (phys : UInt64) (count : UInt32) : FrameState :=
  { s with
    pageBitmap := mark false s.pageBitmap ⟨(phys / 4096).toNat, count.toNat⟩
    freeRamBytes := s.freeRamBytes + count.toUInt64 * 4096 }

end FrameState

namespace Aarch64

def memoryMap : List MemRegion :=
  [⟨0x40000000, 0x10000000, 1⟩, ⟨0x08000000, 0x00020000, 2⟩, ⟨0x09000000, 0x00001000, 2⟩]

def pageHal : PageHal FrameState where
  halMmuInit := FrameState.halMmuInit 0 8192
  halMmuAllocPages := FrameState.halMmuAllocPages 0
  halMmuFreePages := FrameState.halMmuFreePages
  halMmuGetMemoryMap _ max := memoryMap.take max.toNat
  reserved := ⟨0, 4096 * 8192⟩

end Aarch64

namespace Riscv64

def memoryMap : List MemRegion :=
  [⟨0x80000000, 0x10000000, 1⟩, ⟨0x0C000000, 0x04000000, 2⟩, ⟨0x02000000, 0x00010000, 2⟩]

def ramBasePfn : Nat := 0x80000

def pageHal : PageHal FrameState where
  halMmuInit := FrameState.halMmuInit ramBasePfn 32768
  halMmuAllocPages := FrameState.halMmuAllocPages ramBasePfn
  halMmuFreePages := FrameState.halMmuFreePages
  halMmuGetMemoryMap _ max := memoryMap.take max.toNat
  reserved := ⟨4096 * ramBasePfn, 4096 * 32768⟩

end Riscv64

/-! ## Sequences of calls -/

inductive PageOp where
  | alloc (count : UInt32)
  | free (phys : UInt64) (count : UInt32)

structure PageRun (σ : Type) where
  state : σ
  outstanding : List (UInt64 × UInt32)

variable {σ : Type}

namespace PageHal

def start (hal : PageHal σ) (s : σ) : PageRun σ := ⟨hal.halMmuInit s, []⟩

def step (hal : PageHal σ) (r : PageRun σ) : PageOp → PageRun σ
  | .alloc count =>
    let (phys, s) := hal.halMmuAllocPages r.state count
    ⟨s, if phys = 0 then r.outstanding else (phys, count) :: r.outstanding⟩
  | .free phys count =>
    ⟨hal.halMmuFreePages r.state phys count, r.outstanding.erase (phys, count)⟩

def Proper (r : PageRun σ) : PageOp → Prop
  | .alloc _ => True
  | .free phys count => (phys, count) ∈ r.outstanding

end PageHal

end AlJefra.Arch
