/-
`kernel/memprotect.c`: the guard page over the x86-64 page tables, and the permission changes
over any HAL that keeps its contract.
-/
import AlJefra.Arch.Riscv64Mmu

namespace AlJefra.Kernel.Memprotect

open AlJefra.Hal AlJefra.Arch.X86
open AlJefra.Arch.Riscv64 (halPageRead)

def pageSize : UInt64 := 4096
def pageAlignDown (addr : UInt64) : UInt64 := addr &&& ~~~(pageSize - 1)

def memprotectGuardPage (s : MmuState) (addr : UInt64) : Option (Int × MmuState) :=
  (halMmuUnmap s (pageAlignDown addr) pageSize).map fun r => (0, r.2)

def pageAlignUp (addr : UInt64) : UInt64 := (addr + pageSize - 1) &&& ~~~(pageSize - 1)

def PageIn (virt size : UInt64) (page : Nat) : Prop :=
  virt.toNat ≤ page * 4096 ∧ page * 4096 < virt.toNat + size.toNat

instance (virt size : UInt64) (page : Nat) : Decidable (PageIn virt size page) :=
  inferInstanceAs (Decidable (_ ∧ _))

structure MmuHal (σ : Type) where
  rights : σ → Nat → Option UInt32
  map : σ → UInt64 → UInt64 → UInt64 → UInt32 → HalMemType → HalStatus × σ
  unmap : σ → UInt64 → UInt64 → HalStatus × σ
  map_in : ∀ s virt phys size perms type page, (map s virt phys size perms type).1 = .ok →
    PageIn virt size page → rights (map s virt phys size perms type).2 page = some perms
  map_out : ∀ s virt phys size perms type page, ¬ PageIn virt size page →
    rights (map s virt phys size perms type).2 page = rights s page
  unmap_in : ∀ s virt size page, (unmap s virt size).1 = .ok → PageIn virt size page →
    rights (unmap s virt size).2 page = none
  unmap_out : ∀ s virt size page, ¬ PageIn virt size page →
    rights (unmap s virt size).2 page = rights s page

variable {σ : Type} (hal : MmuHal σ)

def MmuHal.Allows (bit : UInt32) (s : σ) (page : Nat) : Prop :=
  ∃ perms, hal.rights s page = some perms ∧ perms &&& bit ≠ 0

-- The status of the unmap is dropped; `hal_mmu_invalidate` changes no mapping.
def memprotectSet (perms : UInt32) (s : σ) (addr size : UInt64) : Int × σ :=
  if size = 0 then (0, s)
  else
    let addr := pageAlignDown addr
    let size := pageAlignUp size
    let r := hal.map (hal.unmap s addr size).2 addr addr size perms .normal
    (if r.1 = .ok then 0 else -1, r.2)

def memprotectSetNx : σ → UInt64 → UInt64 → Int × σ :=
  memprotectSet hal (halPageRead ||| halPageWrite)

def memprotectSetRo : σ → UInt64 → UInt64 → Int × σ :=
  memprotectSet hal (halPageRead ||| halPageExec)

end AlJefra.Kernel.Memprotect
