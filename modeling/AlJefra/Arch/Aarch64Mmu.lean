/- The translation tables of `arch/aarch64/mmu.c`. -/
import AlJefra.Arch.X86Mmu

namespace AlJefra.Arch.Aarch64

open AlJefra.Lib AlJefra.Hal
open AlJefra.Arch.X86 (tableIndex halPageWrite halPageExec halPageUser HalMemType)

structure MmuState where
  mem : WordStore UInt64 (Fin 512) UInt64
  /-- The address of `pt_pool`. -/
  ptPool : UInt64
  ptPoolNext : Nat

/-! ## The hardware walk -/

def l0Index : UInt64 → Fin 512 := tableIndex 39
def l1Index : UInt64 → Fin 512 := tableIndex 30
def l2Index : UInt64 → Fin 512 := tableIndex 21
def l3Index : UInt64 → Fin 512 := tableIndex 12
def path (va : UInt64) : List (Fin 512) := [l0Index va, l1Index va, l2Index va, l3Index va]
def tableAddr (desc : UInt64) : UInt64 := desc &&& 0x0000FFFFFFFFF000

def nextTable (depth : Nat) (desc : UInt64) : Option UInt64 :=
  if depth ≤ 2 ∧ bit desc 0 ∧ bit desc 1 then some (tableAddr desc) else none

structure Translation where
  phys : Nat
  readOnly : Bool
  el0 : Bool
  pxn : Bool
  uxn : Bool
  attrIndx : Nat
  shareability : Nat
  deriving DecidableEq

def through (tables : List UInt64) (desc : UInt64) (shift : Nat) (va : UInt64) :
    Option Translation :=
  if ¬ bit desc 10 then none
  else some
    { phys := field desc shift (48 - shift) * 2 ^ shift + va.toNat % 2 ^ shift
      readOnly := bit desc 7 || tables.any (bit · 62)
      el0 := bit desc 6 && !tables.any (bit · 61)
      pxn := bit desc 53 || tables.any (bit · 59)
      uxn := bit desc 54 || tables.any (bit · 60)
      attrIndx := field desc 2 3
      shareability := field desc 8 2 }

def throughBlock (tables : List UInt64) (desc : UInt64) (shift : Nat) (va : UInt64) :
    Option Translation :=
  if bit desc 0 ∧ ¬ bit desc 1 then through tables desc shift va else none

def readTrace (va : UInt64) : List UInt64 → Option Translation
  | [d0, d1] => throughBlock [d0] d1 30 va
  | [d0, d1, d2] => throughBlock [d0, d1] d2 21 va
  | [d0, d1, d2, d3] =>
    if bit d3 0 ∧ bit d3 1 then through [d0, d1, d2] d3 12 va else none
  | _ => none

def translate (s : MmuState) (va : UInt64) : Option Translation :=
  if va.toNat < 2 ^ 48 then readTrace va (trace nextTable s.mem 0 s.ptPool (path va)) else none

/-! ## Constants of the source -/

def pteValid : UInt64 := (1 : UInt64) <<< 0
def pteTable : UInt64 := (1 : UInt64) <<< 1
def pteBlock : UInt64 := (0 : UInt64) <<< 1
def pteAf : UInt64 := (1 : UInt64) <<< 10
def pteShIsh : UInt64 := (3 : UInt64) <<< 8
def pteApRwEl1 : UInt64 := (0 : UInt64) <<< 6
def pteApRoEl1 : UInt64 := (2 : UInt64) <<< 6
def pteApRwAll : UInt64 := (1 : UInt64) <<< 6
def pteUxn : UInt64 := (1 : UInt64) <<< 54
def ptePxn : UInt64 := (1 : UInt64) <<< 53
def pteAttrDevice : UInt64 := (0 : UInt64) <<< 2
def pteAttrNormal : UInt64 := (1 : UInt64) <<< 2
def pteAttrWc : UInt64 := (2 : UInt64) <<< 2
def ptPoolPages : Nat := 64
def pageSize : UInt64 := 4096
def blockSize : UInt64 := 2 * 1024 * 1024

/-! ## Building tables -/

def MmuState.poolPage (s : MmuState) (i : Nat) : UInt64 := s.ptPool + i.toUInt64 * 4096

def MmuState.write (s : MmuState) (table : UInt64) (i : Fin 512) (desc : UInt64) : MmuState :=
  { s with mem := setWord s.mem table i desc }

def allocPtPage (s : MmuState) : Option UInt64 × MmuState :=
  if s.ptPoolNext ≥ ptPoolPages then (none, s)
  else
    let page := s.poolPage s.ptPoolNext
    (some page, { s with mem := setPage s.mem page fun _ => 0, ptPoolNext := s.ptPoolNext + 1 })

def ensureTable (s : MmuState) (table : UInt64) (i : Fin 512) : Option UInt64 × MmuState :=
  if s.mem table i &&& pteValid = 0 then
    match allocPtPage s with
    | (none, s) => (none, s)
    | (some page, s) =>
      let s := s.write table i (page ||| pteValid ||| pteTable)
      (some (s.mem table i &&& ~~~0xFFF), s)
  else (some (s.mem table i &&& ~~~0xFFF), s)

def blockDesc (phys attrBits : UInt64) : UInt64 :=
  (phys &&& ~~~0x1FFFFF) ||| pteValid ||| pteBlock ||| pteAf ||| pteShIsh ||| attrBits

def map2mbBlock (s : MmuState) (phys attrBits : UInt64) : MmuState :=
  match ensureTable s s.ptPool (l0Index phys) with
  | (none, s) => s
  | (some l1, s) =>
    match ensureTable s l1 (l1Index phys) with
    | (none, s) => s
    | (some l2, s) => s.write l2 (l2Index phys) (blockDesc phys attrBits)

/-! ## The interface -/

def blockAddrs (start stop : Nat) : List UInt64 :=
  (List.range ((stop - start) / 2097152)).map fun k => (start + k * 2097152).toUInt64

def identityMap (s : MmuState) (start stop : Nat) (attrBits : UInt64) : MmuState :=
  (blockAddrs start stop).foldl (fun s addr => map2mbBlock s addr attrBits) s

def halMmuInit (s : MmuState) : MmuState :=
  let s := { s with mem := setPage s.mem s.ptPool fun _ => 0, ptPoolNext := 1 }
  let s := identityMap s 0 0x40000000 (pteAttrDevice ||| pteApRwEl1 ||| ptePxn ||| pteUxn)
  let s := identityMap s 0x40000000 0x50000000 (pteAttrNormal ||| pteApRwEl1)
  identityMap s 0x4010000000 0x4020000000 (pteAttrDevice ||| pteApRwEl1 ||| ptePxn ||| pteUxn)

def attrBits (perms : UInt32) (type : HalMemType) : UInt64 :=
  let attr := pteApRwEl1
  let attr := match type with
    | .device => attr ||| (pteAttrDevice ||| ptePxn ||| pteUxn)
    | .wc => attr ||| pteAttrWc
    | .normal => attr ||| pteAttrNormal
  let attr := if perms &&& halPageUser ≠ 0 then (attr &&& ~~~pteApRwEl1) ||| pteApRwAll else attr
  let attr := if perms &&& halPageWrite = 0 then (attr &&& ~~~pteApRwEl1) ||| pteApRoEl1 else attr
  if perms &&& halPageExec = 0 then attr ||| (ptePxn ||| pteUxn) else attr

def mapLoop (stop attr : UInt64) : Nat → MmuState → UInt64 → UInt64 → Option MmuState
  | fuel, s, virt, phys =>
    if ¬ virt < stop then some s
    else match fuel with
    | 0 => none
    | fuel + 1 =>
      if virt &&& 0x1FFFFF = 0 ∧ phys &&& 0x1FFFFF = 0 ∧ stop - virt ≥ blockSize then
        mapLoop stop attr fuel (map2mbBlock s phys attr) (virt + blockSize) (phys + blockSize)
      else
        mapLoop stop attr fuel (map2mbBlock s (phys &&& ~~~0x1FFFFF) attr)
          (virt + pageSize) (phys + pageSize)

def halMmuMap (s : MmuState) (virt phys size : UInt64) (perms : UInt32) (type : HalMemType) :
    Option (HalStatus × MmuState) :=
  (mapLoop (virt + size) (attrBits perms type) (2 ^ 52) s virt phys).map fun s => (.ok, s)

def unmapLoop (l2 stop : UInt64) : Nat → MmuState → UInt64 → Option MmuState
  | fuel, s, a =>
    if ¬ a < stop then some s
    else match fuel with
    | 0 => none
    | fuel + 1 => unmapLoop l2 stop fuel (s.write l2 (l2Index a) 0) (a + blockSize)

def halMmuUnmap (s : MmuState) (virt size : UInt64) : Option (HalStatus × MmuState) :=
  if s.mem s.ptPool (l0Index virt) &&& pteValid ≠ 0 then
    let l1 := s.mem s.ptPool (l0Index virt) &&& ~~~0xFFF
    if s.mem l1 (l1Index virt) &&& pteValid ≠ 0 then
      let l2 := s.mem l1 (l1Index virt) &&& ~~~0xFFF
      (unmapLoop l2 (virt + size) (2 ^ 52) s virt).map fun s => (.ok, s)
    else some (.ok, s)
  else some (.ok, s)

end AlJefra.Arch.Aarch64
