/- One filesystem over two drivers. -/
import AlJefra.Kernel.FsFailTheorems
import AlJefra.Kernel.FsMountTheorems

namespace AlJefra.Kernel.Fs

open AlJefra.Lib List

/-! ## Corresponding drivers -/

def FsState.map {σ τ : Type} (φ : σ → τ) (s : FsState σ) : FsState τ where
  dir := s.dir
  fds := s.fds
  partitionLba := s.partitionLba
  initialized := s.initialized
  dev := φ s.dev

def Lifts {σ τ α : Type} (φ : σ → τ) (P : σ → Prop) (r : α × FsState σ) (r' : α × FsState τ) :
    Prop :=
  r' = (r.1, r.2.map φ) ∧ P r.2.dev

structure MirrorsReads {σ τ : Type} (drv : StorageOps σ) (drv' : StorageOps τ) (φ : σ → τ)
    (P : σ → Prop) : Prop where
  noRead : drv'.read.isNone = drv.read.isNone
  read : ∀ s lba n, P s.dev →
    Lifts φ P (fsReadSectors drv s lba n) (fsReadSectors drv' (s.map φ) lba n)

structure Mirrors {σ τ : Type} (drv : StorageOps σ) (drv' : StorageOps τ) (φ : σ → τ)
    (P : σ → Prop) : Prop extends MirrorsReads drv drv' φ P where
  noWrite : drv'.write.isNone = drv.write.isNone
  write : ∀ s buf lba n, P s.dev →
    Lifts φ P (fsWriteSectors drv s buf lba n) (fsWriteSectors drv' (s.map φ) buf lba n)

section Mirror

variable {σ τ : Type} {drv : StorageOps σ} {drv' : StorageOps τ} {φ : σ → τ} {P : σ → Prop}

theorem lifts_mk {α : Type} (a : α) {s : FsState σ} (h : P s.dev) :
    Lifts φ P (a, s) (a, s.map φ) := ⟨rfl, h⟩

theorem openFd_map (s : FsState σ) (fd : Int) : openFd (s.map φ) fd = openFd s fd := rfl

section Reads

variable (hm : MirrorsReads drv drv' φ P)
include hm

theorem fsReadBytesLoop_map : ∀ (fuel : Nat) (s : FsState σ) (off count : UInt64)
    (acc : List UInt8), P s.dev →
    Lifts φ P (fsReadBytesLoop drv fuel s off count acc)
      (fsReadBytesLoop drv' fuel (s.map φ) off count acc) := by
  intro fuel
  induction fuel with
  | zero =>
    intro s off count acc hP
    unfold fsReadBytesLoop
    split <;> exact lifts_mk _ hP
  | succ fuel ih =>
    intro s off count acc hP
    unfold fsReadBytesLoop
    split
    · exact lifts_mk _ hP
    · dsimp only
      split
      · -- whole sectors
        obtain ⟨heq, hP'⟩ := hm.read s (byteToSector off) (wholeSectors count) hP
        rw [heq]
        generalize fsReadSectors drv s (byteToSector off) (wholeSectors count) = r at hP' ⊢
        obtain ⟨_ | buf, t⟩ := r
        · exact lifts_mk _ hP'
        · exact ih t _ _ _ hP'
      · -- part of one sector
        obtain ⟨heq, hP'⟩ := hm.read s (byteToSector off) 1 hP
        rw [heq]
        generalize fsReadSectors drv s (byteToSector off) 1 = r at hP' ⊢
        obtain ⟨_ | buf, t⟩ := r
        · exact lifts_mk _ hP'
        · exact ih t _ _ _ hP'

theorem fsRead_map (s : FsState σ) (fd : Int) (haveBuf : Bool) (off size : UInt64) (hP : P s.dev) :
    Lifts φ P (fsRead drv s fd haveBuf off size) (fsRead drv' (s.map φ) fd haveBuf off size) := by
  unfold fsRead
  rw [openFd_map]
  cases openFd s fd with
  | none => exact lifts_mk _ hP
  | some f =>
    dsimp only
    split
    · exact lifts_mk _ hP
    · split
      · exact lifts_mk _ hP
      · obtain ⟨heq, hP'⟩ := fsReadBytesLoop_map hm _ s
          (f.startingBlock * bmfsBlockSize + off) (clampSize (f.fileSize - off) size) [] hP
        unfold fsReadBytes
        rw [heq]
        generalize fsReadBytesLoop drv _ s _ _ _ = r at hP' ⊢
        obtain ⟨_ | bytes, t⟩ := r
        · exact lifts_mk _ hP'
        · exact lifts_mk _ hP'

theorem fsInit_map (s : FsState σ) (lba : UInt64) (hP : P s.dev) :
    Lifts φ P (fsInit drv s lba) (fsInit drv' (s.map φ) lba) := by
  have hreset : (s.map φ).reset lba = (s.reset lba).map φ := rfl
  unfold fsInit
  rw [hm.noRead, hreset]
  dsimp only
  split
  · exact lifts_mk _ hP
  · obtain ⟨heq, hP'⟩ := fsReadBytesLoop_map hm (4 : UInt64).toNat (s.reset lba) bmfsTagOffset 4
      [] hP
    unfold fsReadBytes
    rw [heq]
    generalize fsReadBytesLoop drv _ _ _ _ _ = r at hP' ⊢
    obtain ⟨_ | tag, t⟩ := r
    · exact lifts_mk _ hP'
    · dsimp only
      split
      · exact lifts_mk _ hP'
      · unfold dirRead
        obtain ⟨heq', hP''⟩ := hm.read t (byteToSector bmfsDirOffset)
          (bmfsDirSize / fsSectorSize.toUInt32) hP'
        rw [heq']
        generalize fsReadSectors drv t _ _ = r at hP'' ⊢
        obtain ⟨_ | buf, u⟩ := r
        · exact lifts_mk _ hP''
        · exact ⟨rfl, hP''⟩

end Reads

variable (hm : Mirrors drv drv' φ P)
include hm

theorem fsWriteBytesLoop_map : ∀ (fuel : Nat) (s : FsState σ) (src : List UInt8)
    (off count : UInt64), P s.dev →
    Lifts φ P (fsWriteBytesLoop drv fuel s src off count)
      (fsWriteBytesLoop drv' fuel (s.map φ) src off count) := by
  intro fuel
  induction fuel with
  | zero =>
    intro s src off count hP
    unfold fsWriteBytesLoop
    split <;> exact lifts_mk _ hP
  | succ fuel ih =>
    intro s src off count hP
    unfold fsWriteBytesLoop
    split
    · exact lifts_mk _ hP
    · dsimp only
      split
      · -- whole sectors
        obtain ⟨heq, hP'⟩ := hm.write s
          (src.take ((wholeSectors count).toUInt64 * fsSectorSize).toNat) (byteToSector off)
          (wholeSectors count) hP
        rw [heq]
        generalize fsWriteSectors drv s _ _ _ = r at hP' ⊢
        obtain ⟨rc, t⟩ := r
        split
        · exact lifts_mk _ hP'
        · exact ih t _ _ _ hP'
      · -- part of one sector: read, patch, write
        obtain ⟨heq, hP'⟩ := hm.read s (byteToSector off) 1 hP
        rw [heq]
        generalize fsReadSectors drv s (byteToSector off) 1 = r at hP' ⊢
        obtain ⟨_ | buf, t⟩ := r
        · exact lifts_mk _ hP'
        · dsimp only
          obtain ⟨heq', hP''⟩ := hm.write t (overwrite buf (offsetInSector off).toNat
            (src.take (partialBytes off count).toNat)) (byteToSector off) 1 hP'
          rw [heq']
          generalize fsWriteSectors drv t _ _ _ = r at hP'' ⊢
          obtain ⟨rc, u⟩ := r
          split
          · exact lifts_mk _ hP''
          · exact ih u _ _ _ hP''

theorem dirWrite_map (s : FsState σ) (hP : P s.dev) :
    Lifts φ P (dirWrite drv s) (dirWrite drv' (s.map φ)) := hm.write s _ _ _ hP

theorem recordSize_map (s : FsState σ) (fd : Int) (f : FsFd) (newEnd : UInt64) (hP : P s.dev) :
    recordSize drv' (s.map φ) fd f newEnd = (recordSize drv s fd f newEnd).map φ ∧
      P (recordSize drv s fd f newEnd).dev := by
  unfold recordSize
  split
  · obtain ⟨heq, hP'⟩ := dirWrite_map hm { s with
      fds := s.fds.modify fd.toNat (fun f => { f with fileSize := newEnd })
      dir := s.dir.modify f.dirIndex (BmfsEntry.withSize newEnd) } hP
    exact ⟨congrArg Prod.snd heq, hP'⟩
  · exact ⟨rfl, hP⟩

theorem fsWrite_map (s : FsState σ) (fd : Int) (buf : Option (List UInt8)) (off size : UInt64)
    (hP : P s.dev) :
    Lifts φ P (fsWrite drv s fd buf off size) (fsWrite drv' (s.map φ) fd buf off size) := by
  unfold fsWrite
  rw [openFd_map, hm.noWrite]
  cases openFd s fd with
  | none => exact lifts_mk _ hP
  | some f =>
    dsimp only
    split
    · exact lifts_mk _ hP
    · cases buf with
      | none => exact lifts_mk _ hP
      | some buf =>
        dsimp only
        split
        · exact lifts_mk _ hP
        · split
          · exact lifts_mk _ hP
          · obtain ⟨heq, hP'⟩ := fsWriteBytesLoop_map hm size.toNat s buf
              (f.startingBlock * bmfsBlockSize + off) size hP
            unfold fsWriteBytes
            rw [heq]
            generalize fsWriteBytesLoop drv size.toNat s _ _ _ = r at hP' ⊢
            obtain ⟨rc, t⟩ := r
            split
            · exact lifts_mk _ hP'
            · obtain ⟨hrec, hP''⟩ := recordSize_map hm t fd f (off + size) hP'
              rw [hrec]
              exact lifts_mk _ hP''

theorem fsCreateSlot_map (s : FsState σ) (name : CStr) :
    fsCreateSlot drv' (s.map φ) name = fsCreateSlot drv s name := by
  unfold fsCreateSlot
  rw [hm.noWrite]
  rfl

theorem pending_map (s : FsState σ) (call : DirCall) :
    call.pending drv' (s.map φ) = (call.pending drv s).map (FsState.map φ) := by
  cases call with
  | create name n =>
    cases name with
    | none => rfl
    | some name =>
      simp only [DirCall.pending, createPending, fsCreateSlot_map hm]
      cases fsCreateSlot drv s name with
      | none => rfl
      | some slot =>
        by_cases hb : findFreeBlocks s.dir (atLeastOne n) = 0 <;> simp [FsState.map, hb]
  | delete name =>
    cases name with
    | none => rfl
    | some name =>
      simp only [DirCall.pending, deletePending, hm.noWrite, FsState.map]
      by_cases hinit : s.initialized = true
      · by_cases hw : drv.write.isNone = true
        · simp [hinit, hw]
        · simp only [hinit, hw, if_false, not_true_eq_false]
          cases dirFind s.dir name with
          | none | some idx => rfl
      · simp [hinit]

theorem dirCall_map (s : FsState σ) (call : DirCall) (hP : P s.dev) :
    Lifts φ P (call.exec drv s) (call.exec drv' (s.map φ)) := by
  rw [call.exec_eq drv, call.exec_eq drv', pending_map hm]
  cases hp : call.pending drv s with
  | none => exact lifts_mk _ hP
  | some t =>
    obtain ⟨heq, hP'⟩ := dirWrite_map hm t (by rwa [(pending_frame hp).1])
    simp only [Option.map_some, flush, heq]
    split <;> exact lifts_mk _ hP'

end Mirror

/-! ## Calls and their replies -/

section Exec

variable {σ : Type} (drv : StorageOps σ)

def exec (s : FsState σ) : Op → Int × FsState σ
  | .create name n => fsCreate drv s name n
  | .delete name => fsDelete drv s name
  | .open name => (((fsOpen s name).1.map Int.ofNat).getD (-1), (fsOpen s name).2)
  | .close fd => (0, fsClose s fd)
  | .read fd haveBuf off size =>
    ((fsRead drv s fd haveBuf off size).1.1, (fsRead drv s fd haveBuf off size).2)
  | .write fd buf off size => fsWrite drv s fd buf off size

end Exec

variable {σ τ : Type}

theorem fsOpen_map (φ : σ → τ) (s : FsState σ) (name : Option CStr) :
    fsOpen (s.map φ) name = ((fsOpen s name).1, (fsOpen s name).2.map φ) := by
  obtain ⟨dir, fds, lba, initialized, dev⟩ := s
  cases name with
  | none => rfl
  | some name =>
    cases initialized with
    | false => rfl
    | true =>
      simp only [fsOpen, FsState.map, not_true_eq_false, if_false]
      cases dirFind dir name with
      | none => rfl
      | some idx =>
        dsimp only
        cases findIdx? (fun f => f.inUse && f.dirIndex == idx) fds.slots with
        | some fd => rfl
        | none =>
          cases findIdx? (fun f => !f.inUse) fds.slots with
          | none => rfl
          | some fd =>
            cases dir.slots[idx]? with
            | none | some e => rfl

theorem fsClose_map (φ : σ → τ) (s : FsState σ) (fd : Int) :
    fsClose (s.map φ) fd = (fsClose s fd).map φ := by
  unfold fsClose
  split <;> rfl

theorem exec_map {drv : StorageOps σ} {drv' : StorageOps τ} {φ : σ → τ} {P : σ → Prop}
    (hm : Mirrors drv drv' φ P) (s : FsState σ) (op : Op) (hP : P s.dev) :
    Lifts φ P (exec drv s op) (exec drv' (s.map φ) op) := by
  cases op with
  | create name n => exact dirCall_map hm s (.create name n) hP
  | delete name => exact dirCall_map hm s (.delete name) hP
  | «open» name =>
    have hdev : (fsOpen s name).2.dev = s.dev := by
      unfold fsOpen
      split
      · rfl
      · split
        · rfl
        · split
          · rfl
          · split
            · rfl
            · split <;> rfl
    simp only [exec, fsOpen_map]
    exact lifts_mk _ (by rwa [hdev])
  | close fd =>
    have hdev : (fsClose s fd).dev = s.dev := by
      unfold fsClose
      split <;> rfl
    simp only [exec, fsClose_map]
    exact lifts_mk _ (by rwa [hdev])
  | read fd haveBuf off size =>
    obtain ⟨heq, hP'⟩ := fsRead_map hm.toMirrorsReads s fd haveBuf off size hP
    simp only [exec, heq]
    exact lifts_mk _ hP'
  | write fd buf off size => exact fsWrite_map hm s fd buf off size hP

/-! ## A disk whose writes may fail -/

structure FlakyDisk where
  disk : SectorDisk
  outcomes : List Bool

namespace FlakyDisk

def read (d : FlakyDisk) (lba : UInt64) (n : UInt32) : Int × List UInt8 × FlakyDisk :=
  ((d.disk.read lba n).1, (d.disk.read lba n).2.1, { d with disk := (d.disk.read lba n).2.2 })

def write (d : FlakyDisk) (buf : List UInt8) (lba : UInt64) (n : UInt32) : Int × FlakyDisk :=
  if d.outcomes.headD true then
    ((d.disk.write buf lba n).1, ⟨(d.disk.write buf lba n).2, d.outcomes.tail⟩)
  else (-1, { d with outcomes := d.outcomes.tail })

def Reliable (d : FlakyDisk) : Prop := ∀ o ∈ d.outcomes, o = true

end FlakyDisk

def flakyDriver : StorageOps FlakyDisk where
  read := some FlakyDisk.read
  write := some FlakyDisk.write
  read_le := by
    rintro f hf d lba n
    cases hf
    exact sectorDriver.read_le _ rfl d.disk lba n
  write_le := by
    rintro f hf d buf lba n
    cases hf
    have h := sectorDriver.write_le _ rfl d.disk buf lba n
    unfold FlakyDisk.write
    split
    · exact h
    · dsimp only
      omega

def FsState.solid (s : FsState FlakyDisk) : FsState SectorDisk := s.map FlakyDisk.disk

theorem flaky_reads (P : FlakyDisk → Prop) :
    MirrorsReads flakyDriver sectorDriver FlakyDisk.disk P where
  noRead := rfl
  read := by
    intro s lba n hP
    have hsame : (s.dev.disk.read (s.partitionLba + lba) n).2.2 = s.dev.disk := by
      unfold SectorDisk.read
      split <;> rfl
    refine ⟨rfl, ?_⟩
    simp only [fsReadSectors, flakyDriver, FlakyDisk.read, hsame]
    exact hP

theorem flaky_mirrors : Mirrors flakyDriver sectorDriver FlakyDisk.disk FlakyDisk.Reliable where
  toMirrorsReads := flaky_reads FlakyDisk.Reliable
  noWrite := rfl
  write := by
    intro s buf lba n hP
    have hhead : s.dev.outcomes.headD true = true := by
      cases ho : s.dev.outcomes with
      | nil => rfl
      | cons o os => exact hP o (by rw [ho]; exact mem_cons_self)
    have htail : ∀ o ∈ s.dev.outcomes.tail, o = true := fun o ho => hP o (mem_of_mem_tail ho)
    constructor
    · simp only [fsWriteSectors, flakyDriver, sectorDriver, FlakyDisk.write, hhead, if_true,
        FsState.map]
      rfl
    · simp only [fsWriteSectors, flakyDriver, FlakyDisk.write, hhead, if_true]
      exact htail

end AlJefra.Kernel.Fs
