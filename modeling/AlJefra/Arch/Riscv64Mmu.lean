/- The Sv39 page tables of `arch/riscv64/mmu.c`. -/
import AlJefra.Arch.X86Mmu

namespace AlJefra.Arch.Riscv64

open AlJefra.Lib AlJefra.Hal
open AlJefra.Arch.X86 (tableIndex halPageWrite halPageExec halPageUser HalMemType)

structure MmuState where
  mem : WordStore UInt64 (Fin 512) UInt64
  /-- The address of `pt_pool`. -/
  ptPool : UInt64
  ptPoolNext : Nat

/-! ## Constants of the source -/

def pteV : UInt64 := (1 : UInt64) <<< 0
def pteR : UInt64 := (1 : UInt64) <<< 1
def pteW : UInt64 := (1 : UInt64) <<< 2
def pteX : UInt64 := (1 : UInt64) <<< 3
def pteU : UInt64 := (1 : UInt64) <<< 4
def pteG : UInt64 := (1 : UInt64) <<< 5
def pteA : UInt64 := (1 : UInt64) <<< 6
def pteD : UInt64 := (1 : UInt64) <<< 7
def halPageRead : UInt32 := (1 : UInt32) <<< 0
def ptPoolPages : Nat := 64
def megapage : UInt64 := 2 * 1024 * 1024
def paToPpn (pa : UInt64) : UInt64 := (pa >>> 12) <<< 10
def ppnToPa (pte : UInt64) : UInt64 := ((pte >>> 10) &&& 0xFFFFFFFFFFF) <<< 12
def vpn2 : UInt64 → Fin 512 := tableIndex 30
def vpn1 : UInt64 → Fin 512 := tableIndex 21
def vpn0 : UInt64 → Fin 512 := tableIndex 12

/-! ## The hardware walk -/

def Canonical (va : UInt64) : Prop := va.toNat < 2 ^ 38 ∨ 2 ^ 64 - 2 ^ 38 ≤ va.toNat

instance (va : UInt64) : Decidable (Canonical va) := inferInstanceAs (Decidable (_ ∨ _))

structure Translation where
  phys : Nat
  readable : Bool
  writable : Bool
  executable : Bool
  user : Bool
  deriving DecidableEq

inductive Pte where
  | fault
  | leaf
  | table (page : UInt64)
  deriving DecidableEq

def decode (pte : UInt64) : Pte :=
  if ¬ bit pte 0 ∨ (¬ bit pte 1 ∧ bit pte 2) ∨ pte.toNat / 2 ^ 54 ≠ 0 then .fault
  else if bit pte 1 ∨ bit pte 3 then .leaf
  else .table (ppnToPa pte)

def through (pte : UInt64) (shift : Nat) (va : UInt64) : Option Translation :=
  if field pte 10 (shift - 12) ≠ 0 then none
  else some
    { phys := field pte 10 44 * 4096 + va.toNat % 2 ^ shift
      readable := bit pte 1
      writable := bit pte 2
      executable := bit pte 3
      user := bit pte 4 }

def translate (s : MmuState) (va : UInt64) : Option Translation :=
  if ¬ Canonical va then none
  else
    let pte := s.mem s.ptPool (vpn2 va)
    match decode pte with
    | .fault => none
    | .leaf => through pte 30 va
    | .table l1 =>
      let pte := s.mem l1 (vpn1 va)
      match decode pte with
      | .fault => none
      | .leaf => through pte 21 va
      | .table l0 =>
        let pte := s.mem l0 (vpn0 va)
        match decode pte with
        | .leaf => through pte 12 va
        | _ => none

/-! ## Building tables -/

def MmuState.poolPage (s : MmuState) (i : Nat) : UInt64 := s.ptPool + i.toUInt64 * 4096

def MmuState.write (s : MmuState) (table : UInt64) (i : Fin 512) (pte : UInt64) : MmuState :=
  { s with mem := setWord s.mem table i pte }

def allocPtPage (s : MmuState) : Option UInt64 × MmuState :=
  if s.ptPoolNext ≥ ptPoolPages then (none, s)
  else
    let page := s.poolPage s.ptPoolNext
    (some page, { s with mem := setPage s.mem page fun _ => 0, ptPoolNext := s.ptPoolNext + 1 })

def mapGigapage (s : MmuState) (va pa flags : UInt64) : MmuState :=
  s.write s.ptPool (vpn2 va)
    (paToPpn (pa &&& ~~~0x3FFFFFFF) ||| pteV ||| pteA ||| pteD ||| pteG ||| flags)

def megaPte (pa flags : UInt64) : UInt64 :=
  paToPpn (pa &&& ~~~0x1FFFFF) ||| pteV ||| pteA ||| pteD ||| pteG ||| flags

def setMegapage (s : MmuState) (va pa flags : UInt64) : MmuState :=
  s.write (ppnToPa (s.mem s.ptPool (vpn2 va))) (vpn1 va) (megaPte pa flags)

def mapMegapage (s : MmuState) (va pa flags : UInt64) : MmuState :=
  if s.mem s.ptPool (vpn2 va) &&& pteV = 0 then
    match allocPtPage s with
    | (none, s) => s
    | (some l1, s) => setMegapage (s.write s.ptPool (vpn2 va) (paToPpn l1 ||| pteV)) va pa flags
  else if s.mem s.ptPool (vpn2 va) &&& (pteR ||| pteW ||| pteX) ≠ 0 then s
  else setMegapage s va pa flags

/-! ## The interface -/

def halMmuInit (s : MmuState) : MmuState :=
  let s := { s with mem := setPage s.mem s.ptPool fun _ => 0, ptPoolNext := 1 }
  let s := mapGigapage s 0x00000000 0x00000000 (pteR ||| pteW)
  let s := mapGigapage s 0x40000000 0x40000000 (pteR ||| pteW)
  let s := mapGigapage s 0x80000000 0x80000000 (pteR ||| pteW ||| pteX)
  mapGigapage s 0xC0000000 0xC0000000 (pteR ||| pteW ||| pteX)

def pteFlags (perms : UInt32) : UInt64 :=
  let flags := 0
  let flags := if perms &&& halPageRead ≠ 0 then flags ||| pteR else flags
  let flags := if perms &&& halPageWrite ≠ 0 then flags ||| pteW else flags
  let flags := if perms &&& halPageExec ≠ 0 then flags ||| pteX else flags
  let flags := if perms &&& halPageUser ≠ 0 then flags ||| pteU else flags
  if flags &&& (pteR ||| pteW ||| pteX) = 0 then pteR ||| pteW else flags

def mapLoop (stop flags : UInt64) : Nat → MmuState → UInt64 → UInt64 → Option MmuState
  | fuel, s, virt, phys =>
    if ¬ virt < stop then some s
    else match fuel with
    | 0 => none
    | fuel + 1 =>
      if virt &&& 0x1FFFFF = 0 ∧ phys &&& 0x1FFFFF = 0 ∧ stop - virt ≥ megapage then
        mapLoop stop flags fuel (mapMegapage s virt phys flags) (virt + megapage) (phys + megapage)
      else
        mapLoop stop flags fuel
          (mapMegapage s (virt &&& ~~~0x1FFFFF) (phys &&& ~~~0x1FFFFF) flags)
          (virt + 4096) (phys + 4096)

def halMmuMap (s : MmuState) (virt phys size : UInt64) (perms : UInt32) (_type : HalMemType) :
    Option (HalStatus × MmuState) :=
  (mapLoop (virt + size) (pteFlags perms) (2 ^ 52) s virt phys).map fun s => (.ok, s)

def unmapLoop (l1 stop : UInt64) : Nat → MmuState → UInt64 → Option MmuState
  | fuel, s, a =>
    if ¬ a < stop then some s
    else match fuel with
    | 0 => none
    | fuel + 1 => unmapLoop l1 stop fuel (s.write l1 (vpn1 a) 0) (a + megapage)

def halMmuUnmap (s : MmuState) (virt size : UInt64) : Option (HalStatus × MmuState) :=
  if s.mem s.ptPool (vpn2 virt) &&& pteV = 0 then some (.ok, s)
  else if s.mem s.ptPool (vpn2 virt) &&& (pteR ||| pteW ||| pteX) ≠ 0 then
    some (.ok, s.write s.ptPool (vpn2 virt) 0)
  else
    (unmapLoop (ppnToPa (s.mem s.ptPool (vpn2 virt))) (virt + size) (2 ^ 52) s virt).map
      fun s => (.ok, s)

end AlJefra.Arch.Riscv64
