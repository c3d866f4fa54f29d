/- The table parser of `drivers/bus/acpi_lite.c`. -/
import Mathlib.Logic.Function.Iterate
import AlJefra.Hal.Memory

namespace AlJefra.Bus.Acpi

open AlJefra.Hal
open AlJefra.Lib

/-! ## Tables -/

def leAt (mem : Pointer) (addr n : Nat) : Nat := leNat (mem.bytes addr n)
def declared (mem : Pointer) (table : Nat) : Nat := leAt mem (table + 4) 4

structure Read where
  table : Nat
  offset : Nat
  len : Nat
  deriving DecidableEq, Repr

def Read.Inside (mem : Pointer) (r : Read) : Prop := r.offset + r.len ≤ declared mem r.table

instance (mem : Pointer) (r : Read) : Decidable (r.Inside mem) :=
  inferInstanceAs (Decidable (_ ≤ _))

def AllInside (mem : Pointer) (reads : List Read) : Prop := ∀ r ∈ reads, r.Inside mem
def sdtHeaderSize : Nat := 36
def madtSize : Nat := 44
def mcfgSize : Nat := 44
def mcfgEntrySize : Nat := 16

def entryCount (length size width : Nat) : Nat :=
  (length + 0x10000000000000000 - size) % 0x10000000000000000 / width % 0x100000000

/-! ## `acpi_find_table` -/

def acpiSigMatch (mem : Pointer) : Nat → List UInt8 → Bool × Nat
  | _, [] => (true, 0)
  | addr, c :: sig =>
    if mem addr ≠ c then (false, 1)
    else
      let r := acpiSigMatch mem (addr + 1) sig
      (r.1, r.2 + 1)

def acpiChecksum (mem : Pointer) (addr : Nat) : Nat → UInt8
  | 0 => 0
  | len + 1 => acpiChecksum mem addr len + mem (addr + len)

def tryTable (mem : Pointer) (sig : List UInt8) (hdr : Nat) : Bool × List Read :=
  if hdr = 0 then (false, [])
  else
    let m := acpiSigMatch mem hdr sig
    if m.1 then
      (acpiChecksum mem hdr (declared mem hdr) = 0,
        [⟨hdr, 0, m.2⟩, ⟨hdr, 4, 4⟩, ⟨hdr, 0, declared mem hdr⟩])
    else (false, [⟨hdr, 0, m.2⟩])

def entryAt (mem : Pointer) (table width i : Nat) : Nat :=
  leAt mem (table + sdtHeaderSize + width * i) width

def findLoop (mem : Pointer) (sig : List UInt8) (table width : Nat) :
    Nat → Nat → Option Nat × List Read
  | 0, _ => (none, [])
  | n + 1, i =>
    let hdr := entryAt mem table width i
    let t := tryTable mem sig hdr
    let reads := ⟨table, sdtHeaderSize + width * i, width⟩ :: t.2
    if t.1 then (some hdr, reads)
    else
      let rest := findLoop mem sig table width n (i + 1)
      (rest.1, reads ++ rest.2)

def rootTable (mem : Pointer) (rsdp : Nat) (useXsdt : Bool) : Nat × Nat :=
  if useXsdt ∧ 2 ≤ (mem (rsdp + 15)).toNat then (leAt mem (rsdp + 24) 8, 8)
  else (leAt mem (rsdp + 16) 4, 4)

def acpiFindTable (mem : Pointer) (rsdp : Nat) (useXsdt : Bool) (sig : List UInt8) :
    Option Nat × List Read :=
  let root := rootTable mem rsdp useXsdt
  if root.1 = 0 then (none, [])
  else
    let entries := entryCount (declared mem root.1) sdtHeaderSize root.2
    let r := findLoop mem sig root.1 root.2 entries 0
    (r.1, ⟨root.1, 4, 4⟩ :: r.2)

/-! ## `acpi_parse_madt` -/

def acpiMaxLapics : Nat := 256
def acpiMaxIoapics : Nat := 8

inductive EntryType where
  | lapic
  | ioapic
  | lapicOverride
  | x2apic
  | other
  deriving DecidableEq, Repr

def EntryType.ofByte (b : UInt8) : EntryType :=
  if b = 0 then .lapic else if b = 1 then .ioapic else if b = 5 then .lapicOverride
  else if b = 9 then .x2apic else .other

structure MadtInfo where
  lapicAddr : Nat
  lapicIds : List UInt8
  ioapics : List (Nat × Nat)
  deriving DecidableEq, Repr

def madtEntry (mem : Pointer) (madt o len : Nat) (info : MadtInfo) : MadtInfo × List Read :=
  match EntryType.ofByte (mem (madt + o)) with
  | .lapic =>
    let flags := leAt mem (madt + o + 4) 4
    if flags % 4 ≠ 0 ∧ info.lapicIds.length < acpiMaxLapics then
      ({ info with lapicIds := info.lapicIds ++ [mem (madt + o + 3)] },
        [⟨madt, o + 4, 4⟩, ⟨madt, o + 3, 1⟩])
    else (info, [⟨madt, o + 4, 4⟩])
  | .ioapic =>
    if info.ioapics.length < acpiMaxIoapics then
      ({ info with
          ioapics := info.ioapics ++ [(leAt mem (madt + o + 4) 4, leAt mem (madt + o + 8) 4)] },
        [⟨madt, o + 4, 4⟩, ⟨madt, o + 8, 4⟩])
    else (info, [])
  | .lapicOverride =>
    if 12 ≤ len then
      ({ info with lapicAddr := leAt mem (madt + o + 4) 8 % 0x100000000 }, [⟨madt, o + 4, 8⟩])
    else (info, [])
  | .x2apic =>
    if 16 ≤ len ∧ info.lapicIds.length < acpiMaxLapics then
      let flags := leAt mem (madt + o + 8) 4
      if flags % 4 ≠ 0 then
        ({ info with lapicIds := info.lapicIds ++ [UInt8.ofNat (leAt mem (madt + o + 4) 4)] },
          [⟨madt, o + 8, 4⟩, ⟨madt, o + 4, 4⟩])
      else (info, [⟨madt, o + 8, 4⟩])
    else (info, [])
  | .other => (info, [])

structure MadtState where
  offset : Nat
  info : MadtInfo
  reads : List Read
  finished : Bool
  deriving DecidableEq, Repr

def entryLength (mem : Pointer) (madt o : Nat) : Nat := (mem (madt + o + 1)).toNat

def MadtState.goesOn (mem : Pointer) (madt : Nat) (s : MadtState) : Prop :=
  s.finished = false ∧ (s.offset + 2) % 0x100000000 ≤ declared mem madt

instance (mem : Pointer) (madt : Nat) (s : MadtState) : Decidable (s.goesOn mem madt) :=
  inferInstanceAs (Decidable (_ ∧ _))

def madtStep (mem : Pointer) (madt : Nat) (s : MadtState) : MadtState :=
  if s.goesOn mem madt then
    let len := entryLength mem madt s.offset
    if len < 2 then
      { s with reads := s.reads ++ [⟨madt, s.offset + 1, 1⟩], finished := true }
    else
      let r := madtEntry mem madt s.offset len s.info
      { s with
        offset := (s.offset + len) % 0x100000000
        info := r.1
        reads := s.reads ++ [⟨madt, s.offset + 1, 1⟩, ⟨madt, s.offset, 1⟩] ++ r.2 }
  else { s with finished := true }

def madtStart (mem : Pointer) (madt : Nat) : MadtState where
  offset := madtSize
  info := ⟨leAt mem (madt + 36) 4, [], []⟩
  reads := [⟨madt, 36, 4⟩, ⟨madt, 4, 4⟩]
  finished := false

def acpiParseMadt (mem : Pointer) (madt n : Nat) : MadtState :=
  (madtStep mem madt)^[n] (madtStart mem madt)

/-! ## `acpi_parse_mcfg` -/

structure EcamInfo where
  ecamBase : Nat
  ecamStartBus : UInt8
  ecamEndBus : UInt8
  ecamFound : Bool
  deriving DecidableEq, Repr

def acpiParseMcfg (mem : Pointer) (mcfg : Nat) (info : EcamInfo) : EcamInfo × List Read :=
  if 0 < entryCount (declared mem mcfg) mcfgSize mcfgEntrySize then
    (⟨leAt mem (mcfg + 44) 8, mem (mcfg + 54), mem (mcfg + 55), true⟩,
      [⟨mcfg, 4, 4⟩, ⟨mcfg, 44, 8⟩, ⟨mcfg, 54, 1⟩, ⟨mcfg, 55, 1⟩])
  else (info, [⟨mcfg, 4, 4⟩])

end AlJefra.Bus.Acpi
