/-
What `fs_init` finds on a disk: a volume whose directory sectors hold the flushed directory and
whose tag is intact mounts with exactly that directory (`fsInit_flushed`).
-/
import AlJefra.Kernel.FsIoTheorems

namespace AlJefra.Kernel.Fs

open AlJefra.Lib List

/-! ## The round trip of a directory -/

theorem byte_eq (x : UInt64) (k : UInt64) (hk : k.toNat < 64) :
    (x >>> k).toUInt8 = UInt8.ofNat (x.toNat / 2 ^ k.toNat) := by
  apply UInt8.toNat_inj.mp
  rw [UInt64.toNat_toUInt8, UInt64.toNat_shiftRight, Nat.mod_eq_of_lt hk,
    Nat.shiftRight_eq_div_pow, UInt8.toNat_ofNat']

theorem leNat_le64 (x : UInt64) : leNat (le64 x) = x.toNat := by
  have h : le64 x = leBytes 8 x.toNat := by
    change [(x >>> 0).toUInt8, (x >>> 8).toUInt8, (x >>> 16).toUInt8, (x >>> 24).toUInt8,
      (x >>> 32).toUInt8, (x >>> 40).toUInt8, (x >>> 48).toUInt8, (x >>> 56).toUInt8] = _
    simp (disch := decide) only [byte_eq, leBytes, UInt64.reduceToNat, Nat.reducePow, Nat.div_one,
      Nat.div_div_eq_div_mul, Nat.reduceMul]
  rw [h, leNat_leBytes]
  exact Nat.mod_eq_of_lt x.toNat_lt

theorem length_le64 (x : UInt64) : (le64 x).length = 8 := by simp [le64]

theorem u64At_append {pre : List UInt8} {off : Nat} (h : pre.length = off) (x : UInt64)
    (post : List UInt8) : u64At (pre ++ (le64 x ++ post)) off = x := by
  subst h
  rw [u64At, drop_left, ← length_le64 x, take_left, leNat_le64, UInt64.ofNat_toNat]

theorem length_encode (e : BmfsEntry) : e.encode.length = 64 := by
  simp [BmfsEntry.encode, length_le64, e.filename.length_slots, bmfsMaxFilename]

theorem ofList_slots {α : Type} {n : Nat} (fill : α) (t : Table α n) :
    Table.ofList fill t.slots = t := by
  obtain ⟨slots, h⟩ := t
  simp only [Table.ofList, Table.mk.injEq]
  subst h
  exact take_left

theorem decode_encode (e : BmfsEntry) : BmfsEntry.decode e.encode = e := by
  have h32 : e.filename.slots.length = 32 := e.filename.length_slots
  have hname : e.encode.take bmfsMaxFilename = e.filename.slots := by
    simp only [BmfsEntry.encode, append_assoc]
    exact take_left' h32
  have hstart : u64At e.encode 32 = e.startingBlock := by
    simp only [BmfsEntry.encode, append_assoc]
    exact u64At_append h32 _ _
  have hres : u64At e.encode 40 = e.reservedBlocks := by
    simp only [BmfsEntry.encode]
    rw [append_assoc, append_assoc]
    exact u64At_append (by simp [h32, length_le64]) _ _
  have hsize : u64At e.encode 48 = e.fileSize := by
    simp only [BmfsEntry.encode]
    rw [append_assoc (_ ++ le64 e.reservedBlocks)]
    exact u64At_append (by simp [h32, length_le64]) _ _
  have hunused : u64At e.encode 56 = e.unused := by
    have hlen : (e.filename.slots ++ le64 e.startingBlock ++ le64 e.reservedBlocks ++
        le64 e.fileSize).length = 56 := by
      simp [h32, length_le64]
    have h := u64At_append hlen e.unused []
    rwa [append_nil] at h
  simp only [BmfsEntry.decode, hname, hstart, hres, hsize, hunused, ofList_slots]

theorem flatMap_encode_slot : ∀ (es : List BmfsEntry) (i : Nat) (h : i < es.length),
    ((es.flatMap BmfsEntry.encode).drop (64 * i)).take 64 = (es.get ⟨i, h⟩).encode := by
  intro es
  induction es with
  | nil => intro i h; cases h
  | cons e es ih =>
    intro i h
    have he := length_encode e
    cases i with
    | zero =>
      rw [flatMap_cons, Nat.mul_zero, drop_zero, ← he, take_left]
      rfl
    | succ i =>
      rw [flatMap_cons, show 64 * (i + 1) = e.encode.length + 64 * i by omega,
        ← drop_drop, drop_left, ih i (by simpa using h)]
      rfl

theorem dirOfBytes_dirBytes (dir : Table BmfsEntry bmfsMaxFiles) :
    dirOfBytes (dirBytes dir) = dir := by
  obtain ⟨slots, h⟩ := dir
  simp only [dirOfBytes, dirBytes, Table.ofFn, Table.mk.injEq]
  refine ext_getElem (by simp [h]) fun i h1 h2 => ?_
  rw [List.getElem_ofFn, flatMap_encode_slot slots i h2, decode_encode]
  rfl

theorem length_dirBytes (dir : Table BmfsEntry bmfsMaxFiles) : (dirBytes dir).length = 4096 := by
  have h : ∀ es : List BmfsEntry, (es.flatMap BmfsEntry.encode).length = 64 * es.length := by
    intro es
    induction es with
    | nil => rfl
    | cons e es ih => simp only [flatMap_cons, length_append, length_encode, ih, length_cons]; omega
  rw [dirBytes, h, dir.length_slots, bmfsMaxFiles]

/-! ## The directory sectors -/

theorem slice_put_same (d : SectorDisk) (a : Nat) (buf : List UInt8) :
    (d.put a buf.length buf).slice a buf.length = buf := by
  refine ext_getElem (by simp [SectorDisk.slice]) fun i h1 h2 => ?_
  simp only [SectorDisk.slice, SectorDisk.put, getElem_map, getElem_range]
  rw [if_pos (by omega), Nat.add_sub_cancel_left, getD_eq_getElem?_getD,
    getElem?_eq_getElem h2, Option.getD_some]

theorem slice_congr {d d' : SectorDisk} {a len : Nat}
    (h : ∀ x, a ≤ x → x < a + len → d'.byte x = d.byte x) : d'.slice a len = d.slice a len := by
  refine map_congr_left fun i hi => ?_
  have := mem_range.mp hi
  exact h (a + i) (by omega) (by omega)

def dirAddr (s : FsState SectorDisk) : Nat := 512 * s.partitionLba.toNat + 4096

def flushedDisk (s : FsState SectorDisk) : SectorDisk :=
  s.dev.put (dirAddr s) 4096 (dirBytes s.dir)

variable {s : FsState SectorDisk}

theorem flushedDisk_byte {a : Nat} (h : a < dirAddr s ∨ dirAddr s + 4096 ≤ a) :
    (flushedDisk s).byte a = s.dev.byte a := by
  simp only [flushedDisk, SectorDisk.put]
  rw [if_neg (by omega)]

theorem dirWrite_disk (h : DirOnDisk s) :
    dirWrite sectorDriver s = (0, s.withDev (flushedDisk s)) := by
  have hp := partitionLba_le h
  have h8 : (byteToSector bmfsDirOffset).toNat = 8 := by decide
  have hn : (bmfsDirSize / fsSectorSize.toUInt32).toNat = 8 := by decide
  unfold dirWrite flushedDisk dirAddr
  rw [fsWriteSectors_disk _ (by rw [h8]; omega) (by rw [hn]; omega) (by rw [h8, hn]; exact h),
    h8, hn, Nat.mul_add]

/-! ## Mounting -/

structure Flushed (s : FsState SectorDisk) : Prop where
  onDisk : DirOnDisk s
  dir : s.dev.slice (dirAddr s) 4096 = dirBytes s.dir
  tag : s.dev.slice (512 * s.partitionLba.toNat + 1024) 4 = bmfsTag

def FsState.closeAll {σ : Type} (s : FsState σ) : FsState σ :=
  { s.reset s.partitionLba with initialized := true }

theorem dirRead_disk (hdisk : DirOnDisk s) (hdir : s.dev.slice (dirAddr s) 4096 = dirBytes s.dir) :
    dirRead sectorDriver s = (some s.dir, s) := by
  have hon : s.partitionLba.toNat + 16 ≤ s.dev.sectors := hdisk
  have hp := partitionLba_le hdisk
  have h8 : (byteToSector bmfsDirOffset).toNat = 8 := by decide
  have hn : (bmfsDirSize / fsSectorSize.toUInt32).toNat = 8 := by decide
  have haddr : 512 * (s.partitionLba.toNat + 8) = dirAddr s := by
    rw [dirAddr]
    omega
  rw [dirRead, fsReadSectors_disk (by rw [h8]; omega), h8, hn, if_pos (by omega), haddr]
  simp only [hdir, dirOfBytes_dirBytes]

theorem readTag_disk (hdisk : DirOnDisk s) : fsReadBytes sectorDriver s bmfsTagOffset 4 =
      (some (s.dev.slice (512 * s.partitionLba.toNat + 1024) 4), s) := by
  have hon : s.partitionLba.toNat + 16 ≤ s.dev.sectors := hdisk
  have hoff : (bmfsTagOffset : UInt64).toNat = 1024 := by decide
  have htrans : transfers s.partitionLba.toNat s.dev.sectors
      (4 : UInt64).toNat bmfsTagOffset 4 := by
    have hsec : (chunkSectors bmfsTagOffset 4).toNat = 1 := by decide
    have hrest : (4 : UInt64) - chunkBytes bmfsTagOffset 4 = 0 := by decide
    exact .inr ⟨by rw [hsec]; omega, by rw [hsec, hoff]; omega, .inl hrest⟩
  rw [fsReadBytes, fsReadBytesLoop_spec _ s _ _ [] (partitionLba_le hdisk) htrans,
    nil_append, hoff, ← slice_eq_gather s.partitionLba.toNat s.dev (by decide)]
  rfl

theorem fsInit_disk (hdisk : DirOnDisk s) (hdir : s.dev.slice (dirAddr s) 4096 = dirBytes s.dir) :
    fsInit sectorDriver s s.partitionLba =
      if s.dev.slice (512 * s.partitionLba.toNat + 1024) 4 = bmfsTag then (0, s.closeAll)
      else (-1, s.reset s.partitionLba) := by
  have hread : sectorDriver.read.isNone = false := rfl
  have hdisk' : DirOnDisk (s.reset s.partitionLba) := hdisk
  have htag := readTag_disk hdisk'
  have hdir' := dirRead_disk hdisk' hdir
  simp only [fsInit, hread, Bool.false_eq_true, if_false, htag, hdir', ne_eq, ite_not]
  rfl

theorem fsInit_flushed (h : Flushed s) :
    fsInit sectorDriver s s.partitionLba = (0, s.closeAll) := by
  rw [fsInit_disk h.onDisk h.dir, if_pos h.tag]

end AlJefra.Kernel.Fs
