/-
The in-kernel BMFS filesystem of `kernel/fs.c`. The storage driver is a parameter
(`StorageOps`), so a statement over every `StorageOps` is one over every pattern of failing
reads and writes.
-/
import AlJefra.Lib.LittleEndian
import AlJefra.Lib.Run
import AlJefra.Lib.SlotTable

namespace AlJefra.Kernel.Fs

open AlJefra.Lib

/-! ## Constants and on-disk structures -/

def bmfsBlockSize : UInt64 := 2 * 1024 * 1024
def bmfsDirOffset : UInt64 := 4096
def bmfsDirSize : UInt32 := 4096
def bmfsTagOffset : UInt64 := 1024
abbrev bmfsMaxFiles : Nat := 64
abbrev bmfsMaxFilename : Nat := 32
def bmfsEntryEnd : UInt8 := 0x00
def bmfsEntryDeleted : UInt8 := 0x01
def fsSectorSize : UInt64 := 512

structure CStr where
  bytes : List UInt8
  noNul : (0 : UInt8) ∉ bytes
  deriving DecidableEq

structure BmfsEntry where
  filename : Table UInt8 bmfsMaxFilename
  startingBlock : UInt64
  reservedBlocks : UInt64
  fileSize : UInt64
  unused : UInt64
  deriving DecidableEq

structure FsFd where
  inUse : Bool
  dirIndex : Nat
  startingBlock : UInt64
  reservedBlocks : UInt64
  fileSize : UInt64
  filename : Table UInt8 bmfsMaxFilename
  deriving DecidableEq

def BmfsEntry.first (e : BmfsEntry) : UInt8 := e.filename.get 0

def BmfsEntry.tag (e : BmfsEntry) : Tag :=
  if e.first = bmfsEntryEnd then .fin
  else if e.first = bmfsEntryDeleted then .deleted
  else .live

def BmfsEntry.setFirst (b : UInt8) (e : BmfsEntry) : BmfsEntry :=
  { e with filename := e.filename.set 0 b }

def BmfsEntry.withSize (n : UInt64) (e : BmfsEntry) : BmfsEntry := { e with fileSize := n }

def le64 (x : UInt64) : List UInt8 :=
  (List.range 8).map (fun i => (x >>> (8 * i.toUInt64)).toUInt8)

def BmfsEntry.encode (e : BmfsEntry) : List UInt8 :=
  e.filename.slots ++ le64 e.startingBlock ++ le64 e.reservedBlocks ++
    le64 e.fileSize ++ le64 e.unused

def u64At (bs : List UInt8) (off : Nat) : UInt64 := UInt64.ofNat (leNat ((bs.drop off).take 8))

def BmfsEntry.decode (bs : List UInt8) : BmfsEntry where
  filename := Table.ofList 0 (bs.take bmfsMaxFilename)
  startingBlock := u64At bs 32
  reservedBlocks := u64At bs 40
  fileSize := u64At bs 48
  unused := u64At bs 56

def dirOfBytes (bs : List UInt8) : Table BmfsEntry bmfsMaxFiles :=
  Table.ofFn (fun i => BmfsEntry.decode ((bs.drop (64 * i.val)).take 64))

/-! ## The storage driver -/

/-- A call returns the number of sectors transferred, or a negative value. -/
structure StorageOps (σ : Type) where
  read : Option (σ → UInt64 → UInt32 → Int × List UInt8 × σ)
  write : Option (σ → List UInt8 → UInt64 → UInt32 → Int × σ)
  read_le : ∀ f ∈ read, ∀ d lba n, (f d lba n).1 ≤ n.toNat
  write_le : ∀ f ∈ write, ∀ d buf lba n, (f d buf lba n).1 ≤ n.toNat

structure SectorDisk where
  sectors : Nat
  byte : Nat → UInt8
  sectors_le : sectors ≤ 2 ^ 55

namespace SectorDisk

def put (d : SectorDisk) (a len : Nat) (buf : List UInt8) : SectorDisk :=
  { d with byte := fun x => if a ≤ x ∧ x < a + len then buf.getD (x - a) 0 else d.byte x }

def slice (d : SectorDisk) (a len : Nat) : List UInt8 :=
  (List.range len).map (fun i => d.byte (a + i))

def read (d : SectorDisk) (lba : UInt64) (n : UInt32) : Int × List UInt8 × SectorDisk :=
  if lba.toNat + n.toNat ≤ d.sectors then
    (n.toNat, d.slice (512 * lba.toNat) (512 * n.toNat), d)
  else (-1, [], d)

def write (d : SectorDisk) (buf : List UInt8) (lba : UInt64) (n : UInt32) : Int × SectorDisk :=
  if lba.toNat + n.toNat ≤ d.sectors then
    (n.toNat, d.put (512 * lba.toNat) (512 * n.toNat) buf)
  else (-1, d)

end SectorDisk

def sectorDriver : StorageOps SectorDisk where
  read := some SectorDisk.read
  write := some SectorDisk.write
  read_le := by
    rintro f hf d lba n
    cases hf
    unfold SectorDisk.read
    split <;> simp only <;> omega
  write_le := by
    rintro f hf d buf lba n
    cases hf
    unfold SectorDisk.write
    split <;> simp only <;> omega

structure FsState (σ : Type) where
  dir : Table BmfsEntry bmfsMaxFiles
  fds : Table FsFd bmfsMaxFiles
  partitionLba : UInt64
  initialized : Bool
  dev : σ

section Model

variable {σ : Type} (drv : StorageOps σ)

def fsReadSectors (s : FsState σ) (lba : UInt64) (count : UInt32) :
    Option (List UInt8) × FsState σ :=
  match drv.read with
  | none => (none, s)
  | some rd =>
    let (rc, buf, dev) := rd s.dev (s.partitionLba + lba) count
    (if 0 < rc then some buf else none, { s with dev := dev })

def fsWriteSectors (s : FsState σ) (buf : List UInt8) (lba : UInt64) (count : UInt32) :
    Int × FsState σ :=
  match drv.write with
  | none => (-1, s)
  | some wr =>
    let (rc, dev) := wr s.dev buf (s.partitionLba + lba) count
    (if 0 < rc then 0 else -1, { s with dev := dev })

def byteToSector (byteOffset : UInt64) : UInt64 := byteOffset / fsSectorSize

def dirBytes (dir : Table BmfsEntry bmfsMaxFiles) : List UInt8 :=
  dir.slots.flatMap BmfsEntry.encode

def dirWrite (s : FsState σ) : Int × FsState σ :=
  fsWriteSectors drv s (dirBytes s.dir) (byteToSector bmfsDirOffset)
    (bmfsDirSize / fsSectorSize.toUInt32)

/-! ## Directory helpers -/

def nameMatchLoop : List UInt8 → List UInt8 → Bool
  | _, [] => true
  | [], e :: _ => e == 0
  | c :: cs, e :: es => if c != e then false else nameMatchLoop cs es

def nameMatch (name : CStr) (e : BmfsEntry) : Bool :=
  nameMatchLoop name.bytes e.filename.slots

def dirFindLoop (name : CStr) : Nat → List BmfsEntry → Option Nat
  | _, [] => none
  | i, e :: es =>
    if e.first = bmfsEntryEnd then none
    else if e.first = bmfsEntryDeleted then dirFindLoop name (i + 1) es
    else if nameMatch name e then some i
    else dirFindLoop name (i + 1) es

def dirFind (dir : Table BmfsEntry bmfsMaxFiles) (name : CStr) : Option Nat :=
  dirFindLoop name 0 dir.slots

def dirFindFreeLoop : Nat → List BmfsEntry → Option Nat
  | _, [] => none
  | i, e :: es =>
    if e.first = bmfsEntryDeleted then some i
    else if e.first = bmfsEntryEnd then some i
    else dirFindFreeLoop (i + 1) es

def dirFindFree (dir : Table BmfsEntry bmfsMaxFiles) : Option Nat :=
  dirFindFreeLoop 0 dir.slots

/-! ## Block allocation -/

structure Region where
  start : UInt64
  count : UInt64
  deriving DecidableEq, Repr

def collectRegions : List BmfsEntry → List Region
  | [] => []
  | e :: es =>
    if e.first = bmfsEntryEnd then []
    else if e.first = bmfsEntryDeleted then collectRegions es
    else ⟨e.startingBlock, e.reservedBlocks⟩ :: collectRegions es

def insertRegion (tmp : Region) : List Region → List Region
  | [] => [tmp]
  | r :: rs => if tmp.start < r.start then r :: insertRegion tmp rs else tmp :: r :: rs

def sortRegions (regions : List Region) : List Region :=
  (regions.foldl (fun sorted r => insertRegion r sorted) []).reverse

def scanGaps (needed : UInt64) : UInt64 → List Region → UInt64
  | candidate, [] => candidate
  | candidate, r :: rs =>
    if candidate + needed ≤ r.start then candidate
    else
      let «end» := r.start + r.count
      scanGaps needed (if candidate < «end» then «end» else candidate) rs

def findFreeBlocks (dir : Table BmfsEntry bmfsMaxFiles) (needed : UInt64) : UInt64 :=
  scanGaps needed 1 (sortRegions (collectRegions dir.slots))

/-! ## Byte ranges through sectors -/

def wholeSectors (count : UInt64) : UInt32 :=
  let nsectors := (count / fsSectorSize).toUInt32
  if 256 < nsectors then 256 else nsectors

def offsetInSector (byteOffset : UInt64) : UInt32 := (byteOffset % fsSectorSize).toUInt32

def partialBytes (byteOffset count : UInt64) : UInt32 :=
  let avail := fsSectorSize.toUInt32 - offsetInSector byteOffset
  if count < avail.toUInt64 then count.toUInt32 else avail

def fsReadBytesLoop : Nat → FsState σ → UInt64 → UInt64 → List UInt8 →
    Option (List UInt8) × FsState σ
  | fuel, s, byteOffset, count, acc =>
    if count = 0 then (some acc, s)
    else match fuel with
    | 0 => (none, s)
    | fuel + 1 =>
      let sector := byteToSector byteOffset
      if offsetInSector byteOffset = 0 ∧ fsSectorSize ≤ count then
        let nsectors := wholeSectors count
        match fsReadSectors drv s sector nsectors with
        | (none, s) => (none, s)
        | (some buf, s) =>
          let bytes := nsectors.toUInt64 * fsSectorSize
          fsReadBytesLoop fuel s (byteOffset + bytes) (count - bytes)
            (acc ++ buf.take bytes.toNat)
      else
        match fsReadSectors drv s sector 1 with
        | (none, s) => (none, s)
        | (some buf, s) =>
          let toCopy := partialBytes byteOffset count
          fsReadBytesLoop fuel s (byteOffset + toCopy.toUInt64) (count - toCopy.toUInt64)
            (acc ++ (buf.drop (offsetInSector byteOffset).toNat).take toCopy.toNat)

def fsReadBytes (s : FsState σ) (byteOffset count : UInt64) : Option (List UInt8) × FsState σ :=
  fsReadBytesLoop drv count.toNat s byteOffset count []

def overwrite (buf : List UInt8) (off : Nat) (src : List UInt8) : List UInt8 :=
  buf.take off ++ src ++ buf.drop (off + src.length)

def fsWriteBytesLoop : Nat → FsState σ → List UInt8 → UInt64 → UInt64 → Int × FsState σ
  | fuel, s, src, byteOffset, count =>
    if count = 0 then (0, s)
    else match fuel with
    | 0 => (-1, s)
    | fuel + 1 =>
      let sector := byteToSector byteOffset
      if offsetInSector byteOffset = 0 ∧ fsSectorSize ≤ count then
        let nsectors := wholeSectors count
        let bytes := nsectors.toUInt64 * fsSectorSize
        match fsWriteSectors drv s (src.take bytes.toNat) sector nsectors with
        | (rc, s) =>
          if rc < 0 then (-1, s)
          else fsWriteBytesLoop fuel s (src.drop bytes.toNat) (byteOffset + bytes) (count - bytes)
      else
        match fsReadSectors drv s sector 1 with
        | (none, s) => (-1, s)
        | (some buf, s) =>
          let toCopy := partialBytes byteOffset count
          match fsWriteSectors drv s
              (overwrite buf (offsetInSector byteOffset).toNat (src.take toCopy.toNat)) sector
                1 with
          | (rc, s) =>
            if rc < 0 then (-1, s)
            else fsWriteBytesLoop fuel s (src.drop toCopy.toNat)
              (byteOffset + toCopy.toUInt64) (count - toCopy.toUInt64)

def fsWriteBytes (s : FsState σ) (buf : List UInt8) (byteOffset count : UInt64) : Int × FsState σ :=
  fsWriteBytesLoop drv count.toNat s buf byteOffset count

/-! ## Public API -/

def dirRead (s : FsState σ) : Option (Table BmfsEntry bmfsMaxFiles) × FsState σ :=
  match fsReadSectors drv s (byteToSector bmfsDirOffset)
      (bmfsDirSize / fsSectorSize.toUInt32) with
  | (none, s) => (none, s)
  | (some buf, s) => (some (dirOfBytes buf), s)

def bmfsTag : List UInt8 := [0x42, 0x4D, 0x46, 0x53]

def FsState.reset (s : FsState σ) (partitionLba : UInt64) : FsState σ :=
  { s with
    fds := ⟨s.fds.slots.map (fun f => { f with inUse := false }),
      by rw [List.length_map, s.fds.length_slots]⟩
    initialized := false
    partitionLba := partitionLba }

def fsInit (s : FsState σ) (partitionLba : UInt64) : Int × FsState σ :=
  let s := s.reset partitionLba
  if drv.read.isNone then (-1, s)
  else match fsReadBytes drv s bmfsTagOffset 4 with
  | (none, s) => (-1, s)
  | (some tag, s) =>
    if tag ≠ bmfsTag then (-1, s)
    else match dirRead drv s with
    | (none, s) => (-1, s)
    | (some dir, s) => (0, { s with dir := dir, initialized := true })

def fsListLoop : List BmfsEntry → List (Table UInt8 bmfsMaxFilename × UInt64)
  | [] => []
  | e :: es =>
    if e.first = bmfsEntryEnd then []
    else if e.first = bmfsEntryDeleted then fsListLoop es
    else (e.filename, e.fileSize) :: fsListLoop es

def fsList (s : FsState σ) : Option (List (Table UInt8 bmfsMaxFilename × UInt64)) :=
  if s.initialized then some (fsListLoop s.dir.slots) else none

def toInt64 (x : UInt64) : Int := x.toBitVec.toInt

def fsOpen (s : FsState σ) (name : Option CStr) : Option Nat × FsState σ :=
  match name with
  | none => (none, s)
  | some name =>
    if ¬ s.initialized then (none, s)
    else match dirFind s.dir name with
    | none => (none, s)
    | some idx =>
      match s.fds.slots.findIdx? (fun f => f.inUse && f.dirIndex == idx) with
      | some fd => (some fd, s)
      | none =>
        match s.fds.slots.findIdx? (fun f => !f.inUse), s.dir.slots[idx]? with
        | some fd, some e =>
          let f : FsFd :=
            { inUse := true, dirIndex := idx, startingBlock := e.startingBlock,
              reservedBlocks := e.reservedBlocks, fileSize := e.fileSize,
              filename := e.filename }
          (some fd, { s with fds := s.fds.set fd f })
        | _, _ => (none, s)

def openFd (s : FsState σ) (fd : Int) : Option FsFd :=
  if ¬ s.initialized ∨ fd < 0 ∨ (bmfsMaxFiles : Int) ≤ fd then none
  else s.fds.slots[fd.toNat]?.filter (·.inUse)

def clampSize (available size : UInt64) : UInt64 :=
  if available < size then available else size

def fsRead (s : FsState σ) (fd : Int) (haveBuf : Bool) (offset size : UInt64) :
    (Int × List UInt8) × FsState σ :=
  match openFd s fd with
  | none => ((-1, []), s)
  | some f =>
    if ¬ haveBuf ∨ size = 0 then ((0, []), s)
    else if f.fileSize ≤ offset then ((0, []), s)
    else
      let available := f.fileSize - offset
      let size := clampSize available size
      let fileDiskStart := f.startingBlock * bmfsBlockSize
      match fsReadBytes drv s (fileDiskStart + offset) size with
      | (none, s) => ((-1, []), s)
      | (some bytes, s) => ((toInt64 size, bytes), s)

def recordSize (s : FsState σ) (fd : Int) (f : FsFd) (newEnd : UInt64) : FsState σ :=
  if f.fileSize < newEnd then
    (dirWrite drv { s with
      fds := s.fds.modify fd.toNat (fun f => { f with fileSize := newEnd })
      dir := s.dir.modify f.dirIndex (BmfsEntry.withSize newEnd) }).2
  else s

def fsWrite (s : FsState σ) (fd : Int) (buf : Option (List UInt8)) (offset size : UInt64) :
    Int × FsState σ :=
  match openFd s fd with
  | none => (-1, s)
  | some f =>
    if drv.write.isNone then (-1, s)
    else match buf with
    | none => (0, s)
    | some buf =>
      if size = 0 then (0, s)
      else if f.reservedBlocks * bmfsBlockSize < offset + size then (-1, s)
      else match fsWriteBytes drv s buf (f.startingBlock * bmfsBlockSize + offset) size with
      | (rc, s) =>
        if rc < 0 then (-1, s)
        else (toInt64 size, recordSize drv s fd f (offset + size))

def fsSize (s : FsState σ) (fd : Int) : UInt64 :=
  match openFd s fd with
  | none => 0
  | some f => f.fileSize

def fsClose (s : FsState σ) (fd : Int) : FsState σ :=
  if fd < 0 ∨ (bmfsMaxFiles : Int) ≤ fd then s
  else { s with fds := s.fds.modify fd.toNat (fun f => { f with inUse := false }) }

def fsCreateSlot (s : FsState σ) (name : CStr) : Option Nat :=
  if ¬ s.initialized then none
  else if drv.write.isNone then none
  else if bmfsMaxFilename ≤ name.bytes.length then none
  else match name.bytes with
  | [] => none
  | c :: _ =>
    if c = bmfsEntryEnd ∨ c = bmfsEntryDeleted then none
    else if (dirFind s.dir name).isSome then none
    else dirFindFree s.dir

def newEntry (name : CStr) (startBlock reservedBlocks : UInt64) : BmfsEntry where
  filename := Table.ofFn (fun i => name.bytes.getD i 0)
  startingBlock := startBlock
  reservedBlocks := reservedBlocks
  fileSize := 0
  unused := 0

def placeEntry (dir : Table BmfsEntry bmfsMaxFiles) (slot : Nat) (e : BmfsEntry) :
    Table BmfsEntry bmfsMaxFiles :=
  let dir := dir.set slot e
  let hasEnd := (dir.slots.drop (slot + 1)).any (fun e => e.first = bmfsEntryEnd)
  if !hasEnd ∧ slot + 1 < bmfsMaxFiles then
    dir.modify (slot + 1) (BmfsEntry.setFirst bmfsEntryEnd)
  else dir

def atLeastOne (reservedBlocks : UInt64) : UInt64 :=
  if reservedBlocks = 0 then 1 else reservedBlocks

def fsCreate (s : FsState σ) (name : Option CStr) (reservedBlocks : UInt64) : Int × FsState σ :=
  match name with
  | none => (-1, s)
  | some name =>
    match fsCreateSlot drv s name with
    | none => (-1, s)
    | some slot =>
      let reservedBlocks := atLeastOne reservedBlocks
      let startBlock := findFreeBlocks s.dir reservedBlocks
      if startBlock = 0 then (-1, s)
      else
        let s := { s with
          dir := placeEntry s.dir slot (newEntry name startBlock reservedBlocks) }
        let (rc, s) := dirWrite drv s
        if rc < 0 then (-1, s) else (0, s)

def fsDelete (s : FsState σ) (name : Option CStr) : Int × FsState σ :=
  match name with
  | none => (-1, s)
  | some name =>
    if ¬ s.initialized then (-1, s)
    else if drv.write.isNone then (-1, s)
    else match dirFind s.dir name with
    | none => (-1, s)
    | some idx =>
      let closeIdx := fun f : FsFd =>
        if f.inUse && f.dirIndex == idx then { f with inUse := false } else f
      let s := { s with
        fds := ⟨s.fds.slots.map closeIdx, by rw [List.length_map, s.fds.length_slots]⟩
        dir := s.dir.modify idx (BmfsEntry.setFirst bmfsEntryDeleted) }
      let (rc, s) := dirWrite drv s
      if rc < 0 then (-1, s) else (0, s)

inductive Op where
  | create (name : Option CStr) (reservedBlocks : UInt64)
  | delete (name : Option CStr)
  | open (name : Option CStr)
  | close (fd : Int)
  | read (fd : Int) (haveBuf : Bool) (offset size : UInt64)
  | write (fd : Int) (buf : Option (List UInt8)) (offset size : UInt64)

def step (s : FsState σ) : Op → FsState σ
  | .create name n => (fsCreate drv s name n).2
  | .delete name => (fsDelete drv s name).2
  | .open name => (fsOpen s name).2
  | .close fd => fsClose s fd
  | .read fd haveBuf offset size => (fsRead drv s fd haveBuf offset size).2
  | .write fd buf offset size => (fsWrite drv s fd buf offset size).2

end Model

end AlJefra.Kernel.Fs
