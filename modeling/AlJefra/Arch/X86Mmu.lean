/-
The x86-64 page tables of `arch/x86_64/mmu.c`: the hardware walk, `hal_mmu_map` and `hal_mmu_unmap`.

The code runs under the tables it changes and takes a table's physical address for a pointer, so
`hal_mmu_map` is written over `deref`, which sends each of its pointers through the walk.
`hal_mmu_unmap` and the page allocator are written over the frames themselves.
-/
import AlJefra.Hal.Memory
import AlJefra.Lib.RadixTree
import AlJefra.Lib.Word

namespace AlJefra.Arch.X86

open AlJefra.Lib AlJefra.Hal

abbrev PhysMem := WordStore UInt64 (Fin 512) UInt64

structure MmuState where
  mem : PhysMem
  cr3 : UInt64
  pageBitmap : Nat → Bool
  mmuInitialized : Bool

/-! ## The hardware walk -/

def tableIndex (shift va : UInt64) : Fin 512 := Fin.ofNat 512 ((va >>> shift) &&& 0x1FF).toNat
def pml4Index : UInt64 → Fin 512 := tableIndex 39
def pdptIndex : UInt64 → Fin 512 := tableIndex 30
def pdIndex : UInt64 → Fin 512 := tableIndex 21
def ptIndex : UInt64 → Fin 512 := tableIndex 12
def path (va : UInt64) : List (Fin 512) := [pml4Index va, pdptIndex va, pdIndex va, ptIndex va]
def frameAddr (entry : UInt64) : UInt64 := entry &&& 0x000FFFFFFFFFF000

def nextTable (depth : Nat) (entry : UInt64) : Option UInt64 :=
  if depth ≤ 2 ∧ bit entry 0 ∧ (depth = 0 ∨ ¬ bit entry 7) then some (frameAddr entry) else none

inductive Leaf where
  | absent
  | page1G (entry : UInt64)
  | page2M (entry : UInt64)
  | page4K (entry : UInt64)
  deriving DecidableEq

structure View where
  writable : Bool
  user : Bool
  noExecute : Bool
  leaf : Leaf
  deriving DecidableEq

def viewOf (tables : List UInt64) (leaf : Leaf) : View where
  writable := tables.all (bit · 1)
  user := tables.all (bit · 2)
  noExecute := tables.any (bit · 63)
  leaf := leaf

def leafOf (kind : UInt64 → Leaf) (entry : UInt64) : Leaf :=
  if bit entry 0 then kind entry else .absent

def readTrace : List UInt64 → View
  | [_] => viewOf [] .absent
  | [e4, e3] => viewOf [e4] (leafOf .page1G e3)
  | [e4, e3, e2] => viewOf [e4, e3] (leafOf .page2M e2)
  | [e4, e3, e2, e1] => viewOf [e4, e3, e2] (leafOf .page4K e1)
  | _ => viewOf [] .absent

def view (s : MmuState) (va : UInt64) : View :=
  readTrace (trace nextTable s.mem 0 (frameAddr s.cr3) (path va))

structure Attrs where
  writable : Bool
  user : Bool
  noExecute : Bool
  pwt : Bool
  pcd : Bool
  pat : Bool
  deriving DecidableEq

structure Translation where
  phys : Nat
  attrs : Attrs
  global : Bool
  deriving DecidableEq

def View.through (v : View) (entry : UInt64) (shift patBit : Nat) (va : UInt64) : Translation where
  phys := field entry shift (52 - shift) * 2 ^ shift + va.toNat % 2 ^ shift
  attrs :=
    { writable := v.writable && bit entry 1
      user := v.user && bit entry 2
      noExecute := v.noExecute || bit entry 63
      pwt := bit entry 3
      pcd := bit entry 4
      pat := bit entry patBit }
  global := bit entry 8

def View.translate (v : View) (va : UInt64) : Option Translation :=
  match v.leaf with
  | .absent => none
  | .page1G entry => some (v.through entry 30 12 va)
  | .page2M entry => some (v.through entry 21 12 va)
  | .page4K entry => some (v.through entry 12 7 va)

def Canonical (va : UInt64) : Prop := va.toNat < 2 ^ 47 ∨ 2 ^ 64 - 2 ^ 47 ≤ va.toNat

instance (va : UInt64) : Decidable (Canonical va) := inferInstanceAs (Decidable (_ ∨ _))

def translate (s : MmuState) (va : UInt64) : Option Translation :=
  if Canonical va then (view s va).translate va else none

/-! ## Constants of the source -/

def pagePresent : UInt64 := (1 : UInt64) <<< 0
def pageWritable : UInt64 := (1 : UInt64) <<< 1
def pageUser : UInt64 := (1 : UInt64) <<< 2
def pagePwt : UInt64 := (1 : UInt64) <<< 3
def pagePcd : UInt64 := (1 : UInt64) <<< 4
def pageHuge : UInt64 := (1 : UInt64) <<< 7
def pageNx : UInt64 := (1 : UInt64) <<< 63
def pageSize4K : UInt64 := 0x1000
def halPage2M : UInt64 := 2 * 1024 * 1024
def halPage1G : UInt64 := 1024 * 1024 * 1024
def pagePoolBase : UInt64 := 0x01000000
def pagePoolPages : Nat := 4096
def halPageWrite : UInt32 := (1 : UInt32) <<< 1
def halPageExec : UInt32 := (1 : UInt32) <<< 2
def halPageUser : UInt32 := (1 : UInt32) <<< 3

inductive HalMemType where
  | normal
  | device
  | wc
  deriving DecidableEq

def tableBase (entry : UInt64) : UInt64 := entry &&& ~~~0xFFF

/-! ## The page pool -/

def poolPage (i : Nat) : UInt64 := pagePoolBase + i.toUInt64 * pageSize4K

def pageAllocOne (s : MmuState) : UInt64 × MmuState :=
  match (List.range pagePoolPages).find? (fun i => !s.pageBitmap i) with
  | none => (0, s)
  | some i =>
    (poolPage i, { s with
      pageBitmap := fun j => if j = i then true else s.pageBitmap j
      mem := setPage s.mem (poolPage i) (fun _ => 0) })

/-! ## Memory through the tables -/

def MmuState.write (s : MmuState) (table : UInt64) (i : Fin 512) (entry : UInt64) : MmuState :=
  { s with mem := setWord s.mem table i entry }

/-- The frame a pointer reaches. `none` is a page fault; a store to a read-only page is one, as
`memprotect_init` sets `CR0.WP`. -/
def MmuState.deref (s : MmuState) (ptr : UInt64) (store : Bool) : Option UInt64 :=
  (translate s ptr).bind fun t =>
    if store && !t.attrs.writable then none else some t.phys.toUInt64

def MmuState.load (s : MmuState) (table : UInt64) (i : Fin 512) : Option UInt64 :=
  (s.deref table false).map fun frame => s.mem frame i

def MmuState.store (s : MmuState) (table : UInt64) (i : Fin 512) (entry : UInt64) :
    Option MmuState :=
  (s.deref table true).map fun frame => s.write frame i entry

/-- A loop over the words of one page: the processor keeps the translation over its 512 stores. -/
def MmuState.storePage (s : MmuState) (page : UInt64) (c : Fin 512 → UInt64) : Option MmuState :=
  (s.deref page true).map fun frame => { s with mem := setPage s.mem frame c }

/-! ## Mapping -/

/-- `page_alloc_one` as the map code calls it, the page zeroed through its pointer. -/
def allocTable (s : MmuState) : Option (UInt64 × MmuState) :=
  match (List.range pagePoolPages).find? (fun i => !s.pageBitmap i) with
  | none => some (0, s)
  | some i =>
    ({ s with pageBitmap := fun j => if j = i then true else s.pageBitmap j }.storePage
      (poolPage i) fun _ => 0).map fun s => (poolPage i, s)

def ensureTable (s : MmuState) (table : UInt64) (i : Fin 512) : Option (Bool × MmuState) := do
  let entry ← s.load table i
  if entry &&& pagePresent = 0 then
    let (newPage, s) ← allocTable s
    if newPage = 0 then return (false, s)
    else return (true, ← s.store table i (newPage ||| pagePresent ||| pageWritable ||| pageUser))
  else return (true, s)

def splitEntry (leaf : UInt64) (i : Fin 512) : UInt64 :=
  ((leaf &&& ~~~0x1FFFFF) + i.val.toUInt64 * pageSize4K) ||| pagePresent ||| pageWritable

def splitHuge (s : MmuState) (pd : UInt64) (pdi : Fin 512) : Option (Bool × MmuState) := do
  let leaf ← s.load pd pdi
  if leaf &&& pageHuge ≠ 0 then
    let (newPtPage, s) ← allocTable s
    if newPtPage = 0 then return (false, s)
    else
      let s ← s.storePage newPtPage (splitEntry leaf)
      return (true, ← s.store pd pdi (newPtPage ||| pagePresent ||| pageWritable ||| pageUser))
  else return (true, s)

def pteFlags (perms : UInt32) (type : HalMemType) : UInt64 :=
  let flags := pagePresent
  let flags := if perms &&& halPageWrite ≠ 0 then flags ||| pageWritable else flags
  let flags := if perms &&& halPageUser ≠ 0 then flags ||| pageUser else flags
  let flags := if perms &&& halPageExec = 0 then flags ||| pageNx else flags
  match type with
  | .device => flags ||| (pagePcd ||| pagePwt)
  | .wc => flags ||| pagePwt
  | .normal => flags

/-- One round: the stride, or none when the pool is exhausted. -/
def mapStep (s : MmuState) (va pa : UInt64) (perms : UInt32) (type : HalMemType) :
    Option (Option UInt64 × MmuState) := do
  let pml4 := tableBase s.cr3
  match ← ensureTable s pml4 (pml4Index va) with
  | (false, s) => return (none, s)
  | (true, s) =>
    let pdpt := tableBase (← s.load pml4 (pml4Index va))
    match ← ensureTable s pdpt (pdptIndex va) with
    | (false, s) => return (none, s)
    | (true, s) =>
      let entry ← s.load pdpt (pdptIndex va)
      if entry &&& pageHuge ≠ 0 then return (some halPage1G, s)
      else
        let pd := tableBase entry
        match ← ensureTable s pd (pdIndex va) with
        | (false, s) => return (none, s)
        | (true, s) =>
          match ← splitHuge s pd (pdIndex va) with
          | (false, s) => return (none, s)
          | (true, s) =>
            let pt := tableBase (← s.load pd (pdIndex va))
            return (some pageSize4K, ← s.store pt (ptIndex va) (pa ||| pteFlags perms type))

/-- `none` is a page fault, or the end of the fuel. -/
def mapLoop (virt phys size : UInt64) (perms : UInt32) (type : HalMemType) :
    Nat → MmuState → UInt64 → Option (HalStatus × MmuState)
  | fuel, s, offset =>
    if ¬ offset < size then some (.ok, s)
    else match fuel with
    | 0 => none
    | fuel + 1 =>
      match mapStep s (virt + offset) (phys + offset) perms type with
      | none => none
      | some (none, s) => some (.noMemory, s)
      | some (some stride, s) => mapLoop virt phys size perms type fuel s (offset + stride)

def halMmuMap (s : MmuState) (virt phys size : UInt64) (perms : UInt32) (type : HalMemType) :
    Option (HalStatus × MmuState) :=
  if ¬ s.mmuInitialized then some (.error, s)
  else mapLoop virt phys size perms type (2 ^ 52) s 0

/-! ## Unmapping -/

def unmapStep (s : MmuState) (va : UInt64) : UInt64 × MmuState :=
  let pml4 := tableBase s.cr3
  if s.mem pml4 (pml4Index va) &&& pagePresent = 0 then (pageSize4K, s)
  else
    let pdpt := tableBase (s.mem pml4 (pml4Index va))
    if s.mem pdpt (pdptIndex va) &&& pagePresent = 0 then (pageSize4K, s)
    else if s.mem pdpt (pdptIndex va) &&& pageHuge ≠ 0 then (halPage1G, s)
    else
      let pd := tableBase (s.mem pdpt (pdptIndex va))
      if s.mem pd (pdIndex va) &&& pagePresent = 0 then (pageSize4K, s)
      else if s.mem pd (pdIndex va) &&& pageHuge ≠ 0 then (halPage2M, s)
      else
        let pt := tableBase (s.mem pd (pdIndex va))
        (pageSize4K, s.write pt (ptIndex va) 0)

def unmapLoop (virt size : UInt64) : Nat → MmuState → UInt64 → Option (HalStatus × MmuState)
  | fuel, s, offset =>
    if ¬ offset < size then some (.ok, s)
    else match fuel with
    | 0 => none
    | fuel + 1 =>
      match unmapStep s (virt + offset) with
      | (stride, s) => unmapLoop virt size fuel s (offset + stride)

def halMmuUnmap (s : MmuState) (virt size : UInt64) : Option (HalStatus × MmuState) :=
  if ¬ s.mmuInitialized then some (.error, s)
  else unmapLoop virt size (2 ^ 52) s 0

end AlJefra.Arch.X86
