/-
What survives a remount: every file as the calls left it, in every run whose calls meet a condition
on the state before them.
-/
import AlJefra.Kernel.FsVolumeTheorems

namespace AlJefra.Kernel.Fs

open AlJefra.Lib List

/-! ## What a mounted filesystem shows -/

def shownName (filename : Table UInt8 bmfsMaxFilename) : List UInt8 :=
  filename.slots.takeWhile (· != 0)

structure Shows {σ : Type} (drv : StorageOps σ) (s : FsState σ) (a : Files) : Prop where
  listed : ∃ l, fsList s = some l ∧ (l.map fun p => shownName p.1).Nodup ∧
    ∀ (name : CStr) (size : Nat), (∃ p ∈ l, shownName p.1 = name.bytes ∧ p.2.toNat = size) ↔
      ∃ f, a.file name = some f ∧ f.size = size
  absent : ∀ name, a.file name = none → (fsOpen s (some name)).1 = none
  present : ∀ name f, a.file name = some f → ∃ fd t, fsOpen s (some name) = (some fd, t) ∧
    (fsSize t fd).toNat = f.size ∧
    ∀ i b, f.byte i = some b → (fsRead drv t fd true (UInt64.ofNat i) 1).1 = (1, [b])

variable {σ : Type}

theorem Shows.of_map {τ : Type} {drv : StorageOps σ} {drv' : StorageOps τ} {φ : σ → τ}
    {s : FsState σ} {a : Files} (hm : MirrorsReads drv drv' φ (fun _ => True))
    (h : Shows drv' (s.map φ) a) : Shows drv s a := by
  constructor
  · exact h.listed
  · intro name hnone
    have hopen := h.absent name hnone
    rwa [fsOpen_map] at hopen
  · intro name f hf
    obtain ⟨fd, t, hopen, hsize, hbytes⟩ := h.present name f hf
    rw [fsOpen_map, Prod.mk.injEq] at hopen
    obtain ⟨hfd, rfl⟩ := hopen
    refine ⟨fd, (fsOpen s (some name)).2, Prod.ext hfd rfl, hsize, fun i b hb => ?_⟩
    obtain ⟨heq, -⟩ := fsRead_map hm (fsOpen s (some name)).2 fd true (UInt64.ofNat i) 1 trivial
    have hread := hbytes i b hb
    rwa [heq] at hread

section Remount

variable {s : FsState SectorDisk} {a : Files} {name : CStr} {idx : Nat} {e : BmfsEntry} {f : FsFd}

theorem closeAll_closed (h : f ∈ s.closeAll.fds.slots) : f.inUse = false := by
  obtain ⟨g, -, rfl⟩ := mem_map.mp h
  rfl

theorem fsOpen_closeAll (hat : At s.dir name idx e) :
    fsOpen s.closeAll (some name) = (some 0, { s.closeAll with
      fds := s.closeAll.fds.set 0
        ⟨true, idx, e.startingBlock, e.reservedBlocks, e.fileSize, e.filename⟩ }) := by
  have hidx : dirFind s.closeAll.dir name = some idx := hat.dirFind
  have hget : s.closeAll.dir.slots[idx]? = some e := hat.getElem?
  have hno : s.closeAll.fds.slots.findIdx? (fun f => f.inUse && f.dirIndex == idx) = none := by
    refine findIdx?_eq_none_iff.mpr fun f hf => ?_
    simp [closeAll_closed hf]
  have hfree : s.closeAll.fds.slots.findIdx? (fun f => !f.inUse) = some 0 := by
    have hlen := s.closeAll.fds.length_slots
    cases hslots : s.closeAll.fds.slots with
    | nil => simp [hslots] at hlen
    | cons f fs =>
      have hf := closeAll_closed (s := s) (f := f) (by rw [hslots]; exact mem_cons_self)
      simp [findIdx?_cons, hf]
  have hinit : s.closeAll.initialized = true := rfl
  simp only [fsOpen, hinit, not_true_eq_false, if_false, hidx, hno, hfree, hget]

theorem fsRead_byte {t : FsState SectorDisk} {fd : Int} (hdir : DirOnDisk t)
    (hopen : openFd t fd = some f) (hcache : Caches f e) (hb : InBounds t e) {i : Nat}
    (hi : i < e.fileSize.toNat) :
    (fsRead sectorDriver t fd true (UInt64.ofNat i) 1).1 =
      (1, [t.dev.byte (fileAddr t e + i)]) := by
  have hne : e.fileSize ≠ 0 := by
    intro h0
    rw [h0] at hi
    exact Nat.not_lt_zero _ hi
  have hon := hb.onDisk hne
  have hsec := t.dev.sectors_le
  have hoff : (UInt64.ofNat i).toNat = i :=
    UInt64.toNat_ofNat_of_lt' (lt_trans hi e.fileSize.toNat_lt)
  have hone : (1 : UInt64).toNat = 1 := rfl
  rw [fileAddr] at hon
  have hfit : 512 * t.partitionLba.toNat + (e.startingBlock.toNat * 2097152 + i) <
      512 * t.dev.sectors := by
    omega
  have habs : (absOffset f (UInt64.ofNat i)).toNat = e.startingBlock.toNat * 2097152 + i := by
    rw [absOffset_toNat, fileOffset, hcache.start, hoff]
    omega
  have htrans : transfers t.partitionLba.toNat t.dev.sectors (1 : UInt64).toNat
      (absOffset f (UInt64.ofNat i)) 1 := by
    refine transfers_onDisk hsec _ _ _ (le_refl _) (by omega) ?_
    rw [habs, hone]
    exact hfit
  have hend : (UInt64.ofNat i).toNat + (1 : UInt64).toNat ≤ f.fileSize.toNat := by
    rw [hoff, hone, hcache.size]
    exact hi
  rw [fsRead_full (partitionLba_le hdir) hopen (by decide) (by omega) hend htrans, habs, hone]
  have haddr : rangeAddr t.partitionLba.toNat (e.startingBlock.toNat * 2097152 + i) 0 =
      fileAddr t e + i := by
    rw [rangeAddr_of_lt (by omega), fileAddr]
    omega
  simp [gather, haddr]

theorem shows_closeAll (h : Volume s) (ha : Agrees s a) : Shows sectorDriver s.closeAll a := by
  constructor
  · refine ⟨fsListLoop s.dir.slots, rfl, ?_, fun name size => ⟨?_, ?_⟩⟩
    · have hnames := h.wf.nodup_name
      rw [fsListLoop_eq, map_map]
      exact hnames
    · rintro ⟨p, hp, hname, rfl⟩
      rw [fsListLoop_eq] at hp
      obtain ⟨e, he, rfl⟩ := mem_map.mp hp
      have hcstr : e.cstr = name := CStr.ext' hname
      have hrel := ha.files name
      rw [← hcstr, lookup_cstr h.wf he] at hrel
      cases hF : a.file e.cstr with
      | none => rw [hF] at hrel; cases hrel
      | some F =>
        rw [hF] at hrel
        cases hrel with
        | some hh => exact ⟨F, by rw [← hcstr, hF], hh.1.symm⟩
    · rintro ⟨F, hF, rfl⟩
      have hrel := ha.files name
      cases hl : lookup s.dir name with
      | none => rw [hl, hF] at hrel; cases hrel
      | some e =>
        rw [hl, hF] at hrel
        obtain ⟨idx, hat⟩ := at_of_lookup hl
        cases hrel with
        | some hh =>
          refine ⟨(e.filename, e.fileSize), ?_, ?_, hh.1⟩
          · rw [fsListLoop_eq]
            exact mem_map_of_mem hat.mem_visible
          · exact congrArg CStr.bytes (hat.cstr_eq h.wf)
  · intro name hnone
    have hrel := ha.files name
    rw [hnone] at hrel
    obtain hopen | ⟨fd, f, -, hidx, -⟩ | ⟨fd, idx, e, hat, -⟩ := fsOpen_cases s.closeAll name rfl
    · rw [hopen]
    · obtain ⟨e, hat⟩ := at_of_dirFind hidx
      have hlook : lookup s.dir name = some e := hat.lookup
      rw [hlook] at hrel
      cases hrel
    · have hlook : lookup s.dir name = some e := hat.lookup
      rw [hlook] at hrel
      cases hrel
  · intro name F hF
    have hrel := ha.files name
    cases hl : lookup s.dir name with
    | none => rw [hl, hF] at hrel; cases hrel
    | some e =>
      rw [hl, hF] at hrel
      obtain ⟨idx, hat⟩ := at_of_lookup hl
      cases hrel with
      | some hh =>
        refine ⟨0, _, fsOpen_closeAll hat, ?_⟩
        set g : FsFd := ⟨true, idx, e.startingBlock, e.reservedBlocks, e.fileSize, e.filename⟩
        set t : FsState SectorDisk := { s.closeAll with fds := s.closeAll.fds.set 0 g }
        have hslot : t.fds.slots[0]? = some g := by
          have hlen := s.closeAll.fds.length_slots
          simp [t, hlen]
        have hopen : openFd t ((0 : Nat) : Int) = some g := by
          rw [openFd_of_slot rfl hslot]
          rfl
        constructor
        · rw [fsSize, hopen]
          exact hh.1
        · intro i b hb
          obtain ⟨hi, hbyte⟩ := hh.2 i b hb
          have hbounds := h.bounds _ _ _ hat
          rw [fsRead_byte (t := t) h.flushed.onDisk hopen ⟨rfl, rfl, rfl⟩
            ⟨hbounds.size, hbounds.onDisk⟩ (by rw [hh.1]; exact hi)]
          exact congrArg (fun b => ((1 : Int), [b])) hbyte

end Remount

/-! ## Runs -/

structure Call where
  op : Op
  outcomes : List Bool

structure Journal where
  fs : FsState FlakyDisk
  files : Files

def FsState.arm (s : FsState FlakyDisk) (outcomes : List Bool) : FsState FlakyDisk :=
  { s with dev := { s.dev with outcomes := outcomes } }

def Journal.step (j : Journal) (c : Call) : Journal :=
  let r := exec flakyDriver (j.fs.arm c.outcomes) c.op
  ⟨r.2, j.files.reply c.op r.1⟩

def Op.isWrite : Op → Bool
  | .write .. => true
  | _ => false

/-- The call keeps the volume sound, and no write fails but the first of an `fs_write`. -/
def CallOk (j : Journal) (c : Call) : Prop :=
  OpOk j.fs.solid c.op ∧
    ((∀ o ∈ c.outcomes, o = true) ∨ (c.op.isWrite = true ∧ c.outcomes.head? = some false))

theorem fsWriteBytes_first_fails (s : FsState FlakyDisk) (buf : List UInt8) (off : UInt64)
    {size : UInt64} (hsize : size ≠ 0) (ho : s.dev.outcomes.head? = some false) :
    (fsWriteBytes flakyDriver s buf off size).1 < 0 ∧
      (fsWriteBytes flakyDriver s buf off size).2.solid = s.solid := by
  have hwrite : ∀ (t : FsState FlakyDisk) b lba n, t.dev.outcomes.head? = some false →
      (fsWriteSectors flakyDriver t b lba n).1 = -1 ∧
        (fsWriteSectors flakyDriver t b lba n).2.solid = t.solid := by
    intro t b lba n ht
    simp [fsWriteSectors, flakyDriver, FlakyDisk.write, ht, FsState.solid, FsState.map]
  obtain ⟨n, hn⟩ : ∃ n, size.toNat = n + 1 :=
    Nat.exists_eq_succ_of_ne_zero fun h0 => hsize (UInt64.toNat_inj.mp h0)
  have hneg : (-1 : Int) < 0 := by decide
  unfold fsWriteBytes
  rw [hn]
  unfold fsWriteBytesLoop
  rw [if_neg hsize]
  dsimp only
  split
  · obtain ⟨hrc, hsolid⟩ := hwrite s
      (buf.take ((wholeSectors size).toUInt64 * fsSectorSize).toNat) (byteToSector off)
      (wholeSectors size) ho
    rw [hrc, if_pos hneg]
    exact ⟨hneg, hsolid⟩
  · obtain ⟨heq, hhead⟩ := (flaky_reads (fun d => d.outcomes.head? = some false)).read s
      (byteToSector off) 1 ho
    have hsame := congrArg Prod.snd heq
    rw [fsReadSectors_state] at hsame
    generalize fsReadSectors flakyDriver s (byteToSector off) 1 = r at hhead hsame ⊢
    obtain ⟨_ | b, t⟩ := r
    · exact ⟨hneg, hsame.symm⟩
    · dsimp only
      obtain ⟨hrc, hsolid⟩ := hwrite t (overwrite b (offsetInSector off).toNat
        (buf.take (partialBytes off size).toNat)) (byteToSector off) 1 hhead
      rw [hrc, if_pos hneg]
      exact ⟨hneg, hsolid.trans hsame.symm⟩

theorem fsWrite_first_fails (s : FsState FlakyDisk) (fd : Int) (buf : Option (List UInt8))
    (off size : UInt64) (ho : s.dev.outcomes.head? = some false) :
    (fsWrite flakyDriver s fd buf off size).1 ≤ 0 ∧
      (fsWrite flakyDriver s fd buf off size).2.solid = s.solid := by
  obtain ⟨hrc, hsame⟩ | ⟨f, b, -, -, hsize, -, hfail⟩ := fsWrite_cases flakyDriver s fd buf off size
  · exact ⟨hrc, by rw [hsame]⟩
  · obtain ⟨hneg, hsolid⟩ := fsWriteBytes_first_fails s b (absOffset f off) hsize ho
    rw [hfail hneg]
    exact ⟨show (-1 : Int) ≤ 0 by decide, hsolid⟩

theorem fsWrite_mount (drv : StorageOps σ) (s : FsState σ) (fd : Int) (buf : Option (List UInt8))
    (off size : UInt64) :
    (fsWrite drv s fd buf off size).2.partitionLba = s.partitionLba ∧
      (fsWrite drv s fd buf off size).2.initialized = s.initialized := by
  have hframe : Frame drv fun s t : FsState σ =>
      t.partitionLba = s.partitionLba ∧ t.initialized = s.initialized := by
    constructor
    · exact fun s => ⟨rfl, rfl⟩
    · exact fun h h' => ⟨h'.1.trans h.1, h'.2.trans h.2⟩
    · exact fun s lba n => (fsReadSectors_same drv s lba n).2.2
    · exact fun s buf lba n => (fsWriteSectors_same drv s buf lba n).2.2
  exact hframe.fsWrite (fun _ _ _ => ⟨rfl, rfl⟩) s fd buf off size

theorem exec_partitionLba (drv : StorageOps σ) (s : FsState σ) (op : Op) :
    (exec drv s op).2.partitionLba = s.partitionLba := by
  have hdir : ∀ call : DirCall, (call.exec drv s).2.partitionLba = s.partitionLba := by
    intro call
    rw [call.exec_eq drv s]
    cases hp : call.pending drv s with
    | none => rfl
    | some t =>
      have ht := (pending_frame hp).2
      simp only [flush]
      split <;> exact (dirWrite_same drv t).2.2.1.trans ht
  cases op with
  | create name n => exact hdir (.create name n)
  | delete name => exact hdir (.delete name)
  | «open» name =>
    simp only [exec, fsOpen]
    repeat' split
    all_goals rfl
  | close fd =>
    simp only [exec, fsClose]
    split <;> rfl
  | read fd haveBuf off size => exact (fsRead_same drv s fd haveBuf off size).2.2.1
  | write fd buf off size => exact (fsWrite_mount drv s fd buf off size).1

structure Journal.Sound (lba : UInt64) (j : Journal) : Prop where
  volume : Volume j.fs.solid
  agrees : Agrees j.fs.solid j.files
  lba : j.fs.partitionLba = lba

theorem Journal.Sound.step {lba : UInt64} {j : Journal} {c : Call} (h : j.Sound lba)
    (hok : CallOk j c) : (j.step c).Sound lba := by
  obtain ⟨hop, hout⟩ := hok
  have hlba : (j.step c).fs.partitionLba = lba := by
    rw [← h.lba]
    exact exec_partitionLba flakyDriver (j.fs.arm c.outcomes) c.op
  cases hout with
  | inl hall =>
    obtain ⟨heq, -⟩ := exec_map flaky_mirrors (j.fs.arm c.outcomes) c.op hall
    have hsound := h.volume.exec h.agrees c.op hop
    change exec sectorDriver j.fs.solid c.op = _ at heq
    rw [heq] at hsound
    exact ⟨hsound.1, hsound.2, hlba⟩
  | inr hfail =>
    obtain ⟨hwrite, hhead⟩ := hfail
    obtain ⟨op, outcomes⟩ := c
    cases op with
    | write fd buf off size =>
      obtain ⟨hrc, hsolid⟩ := fsWrite_first_fails (j.fs.arm outcomes) fd buf off size hhead
      have hfiles : (j.step ⟨.write fd buf off size, outcomes⟩).files = j.files :=
        j.files.reply_write_refused fd buf off size hrc
      have hfs : (j.step ⟨.write fd buf off size, outcomes⟩).fs.solid = j.fs.solid := hsolid
      refine ⟨?_, ?_, hlba⟩
      · rw [hfs]
        exact h.volume
      · rw [hfs, hfiles]
        exact h.agrees
    | create name n => cases hwrite
    | delete name | «open» name | close fd | read fd haveBuf off size => cases hwrite

/-! ## Durability -/

def Files.ofVolume (s : FsState SectorDisk) : Files where
  file name := (lookup s.dir name).map fun e =>
    ⟨e.fileSize.toNat, fun i =>
      if i < e.fileSize.toNat then some (s.dev.byte (fileAddr s e + i)) else none⟩
  opened fd := (openFd s fd).bind fun f => nameAt s.dir f.dirIndex

theorem agrees_ofVolume (s : FsState SectorDisk) : Agrees s (.ofVolume s) := by
  refine ⟨fun name => ?_, fun fd => rfl⟩
  simp only [Files.ofVolume]
  cases lookup s.dir name with
  | none => exact .none
  | some e =>
    refine .some ⟨rfl, fun i b hb => ?_⟩
    dsimp only at hb ⊢
    split at hb
    · rename_i hi
      exact ⟨hi, Option.some.inj hb⟩
    · cases hb

/-- In every run of calls that keep a sound volume sound and whose writes do not fail, a fresh
`fs_init` shows exactly the files that the replies imply. -/
theorem fsInit_shows_run (s : FsState FlakyDisk) (hvol : Volume s.solid) (calls : List Call)
    (hok : Steps Journal.step CallOk ⟨s, .ofVolume s.solid⟩ calls) :
    ∃ t, fsInit flakyDriver (run Journal.step ⟨s, .ofVolume s.solid⟩ calls).fs s.partitionLba
        = (0, t) ∧
      Shows flakyDriver t (run Journal.step ⟨s, .ofVolume s.solid⟩ calls).files := by
  have hsound : (run Journal.step ⟨s, .ofVolume s.solid⟩ calls).Sound s.partitionLba :=
    run_invariant_of_steps (fun j c (h : j.Sound s.partitionLba) hc => h.step hc) calls _
      ⟨hvol, agrees_ofVolume s.solid, rfl⟩ hok
  generalize run Journal.step ⟨s, .ofVolume s.solid⟩ calls = j at hsound ⊢
  obtain ⟨hv, ha, hlba⟩ := hsound
  obtain ⟨heq, -⟩ := fsInit_map (flaky_reads (fun _ => True)) j.fs s.partitionLba trivial
  have hinit : fsInit sectorDriver j.fs.solid s.partitionLba = (0, j.fs.solid.closeAll) := by
    rw [← hlba]
    exact fsInit_flushed hv.flushed
  change fsInit sectorDriver j.fs.solid s.partitionLba = _ at heq
  rw [hinit, Prod.mk.injEq] at heq
  obtain ⟨hrc, hstate⟩ := heq
  refine ⟨(fsInit flakyDriver j.fs s.partitionLba).2, Prod.ext hrc.symm rfl, ?_⟩
  refine Shows.of_map (flaky_reads (fun _ => True)) ?_
  rw [← hstate]
  exact shows_closeAll hv ha

def oneByteName : CStr := ⟨[2], by decide⟩

def formatted : SectorDisk :=
  SectorDisk.put ⟨8192, fun _ => 0, by decide⟩ 1024 4 bmfsTag

def freshMount : FsState FlakyDisk where
  dir := emptyDir
  fds := Table.ofFn (fun _ => ⟨false, 0, 0, 0, 0, Table.ofFn (fun _ => 0)⟩)
  partitionLba := 0
  initialized := true
  dev := ⟨formatted, []⟩

theorem dirBytes_emptyDir : dirBytes emptyDir = List.replicate 4096 0 := by
  refine eq_replicate_iff.mpr ⟨length_dirBytes emptyDir, fun b hb => ?_⟩
  obtain ⟨e, he, hb⟩ := mem_flatMap.mp hb
  obtain ⟨i, rfl⟩ := mem_ofFn.mp he
  have hzero : ∀ b ∈ BmfsEntry.encode ⟨Table.ofFn (fun _ => 0), 0, 0, 0, 0⟩, b = 0 := by
    decide +kernel
  exact hzero b hb

theorem formatted_tag : formatted.slice 1024 4 = bmfsTag := slice_put_same _ 1024 bmfsTag

theorem formatted_dir : formatted.slice 4096 4096 = dirBytes emptyDir := by
  rw [dirBytes_emptyDir]
  refine eq_replicate_iff.mpr ⟨by simp [SectorDisk.slice], fun b hb => ?_⟩
  obtain ⟨i, -, rfl⟩ := mem_map.mp hb
  exact if_neg (by omega)

theorem flushed_freshMount : Flushed freshMount.solid := by
  constructor
  · unfold DirOnDisk
    decide
  · exact formatted_dir
  · exact formatted_tag

theorem volume_freshMount : Volume freshMount.solid := by
  have hclosed : ∀ fd, openFd freshMount.solid fd = none := by
    intro fd
    cases hf : openFd freshMount.solid fd with
    | none => rfl
    | some f =>
      obtain ⟨-, -, hget, huse⟩ := openFd_eq_some hf
      obtain ⟨i, rfl⟩ := mem_ofFn.mp (mem_of_getElem? hget)
      cases huse
  refine ⟨rfl, flushed_freshMount, wellFormed_emptyDir, blocksDisjoint_emptyDir, ?_, ?_, ?_⟩
  · intro name idx e hat
    have hmem := hat.mem_visible
    cases hmem
  · intro fd f hf
    rw [hclosed] at hf
    cases hf
  · intro fd fd' f f' hf
    rw [hclosed] at hf
    cases hf

theorem opOk_create_freshMount (name : CStr) (n : UInt64) :
    OpOk freshMount.solid (.create (some name) n) := by
  intro nm _ _
  have hfin : ∃ e ∈ emptyDir.slots, e.tag = .fin := by decide +kernel
  have hranges : ranges freshMount.solid.dir = [] := by decide +kernel
  obtain ⟨e, he, htag⟩ := hfin
  refine ⟨⟨1, le_refl 1, ?_, by simp [hranges]⟩, fun hclobbers => hclobbers.1 e he htag⟩
  have := (atLeastOne n).toNat_lt
  omega

def freshRun (calls : List Call) : Journal :=
  run Journal.step ⟨freshMount, .ofVolume freshMount.solid⟩ calls

def writeTwice : List Call :=
  [⟨.create (some oneByteName) 1, [true]⟩, ⟨.open (some oneByteName), []⟩,
    ⟨.write 0 (some [7]) 0 1, [false]⟩, ⟨.write 0 (some [7]) 0 1, [true, true]⟩]

theorem fsInit_shows_writeTwice :
    (freshRun writeTwice).files.opened 0 = some oneByteName ∧
    ∃ t, fsInit flakyDriver (freshRun writeTwice).fs 0 = (0, t) ∧
      Shows flakyDriver t (freshRun writeTwice).files := by
  have hopen : ∀ n, 2 ≤ n → n ≤ 3 → openFd (freshRun (writeTwice.take n)).fs.solid 0 =
      some ⟨true, 0, 1, 1, 0, (newEntry oneByteName 1 1).filename⟩ := by
    decide +kernel
  have hdisk : ∀ n, 2 ≤ n → n ≤ 3 → (freshRun (writeTwice.take n)).fs.solid.dev.sectors = 8192 ∧
      (freshRun (writeTwice.take n)).fs.solid.partitionLba = 0 := by
    decide +kernel
  have hwrite : ∀ n, 2 ≤ n → n ≤ 3 →
      OpOk (freshRun (writeTwice.take n)).fs.solid (.write 0 (some [7]) 0 1) := by
    intro n h2 h3 f hf b hb
    obtain rfl := Option.some.inj hb
    rw [hopen n h2 h3] at hf
    obtain rfl := Option.some.inj hf
    refine ⟨rfl, fun _ _ => ⟨by decide, by decide, ?_⟩⟩
    rw [(hdisk n h2 h3).1, (hdisk n h2 h3).2]
    decide
  refine ⟨by decide +kernel, fsInit_shows_run freshMount volume_freshMount writeTwice
    ⟨⟨opOk_create_freshMount _ _, .inl (by decide)⟩, ⟨trivial, .inl (by decide)⟩,
      ⟨hwrite 2 (by decide) (by decide), .inr ⟨rfl, rfl⟩⟩,
      ⟨hwrite 3 (by decide) (by decide), .inl (by decide)⟩, trivial⟩⟩

def writeUnflushed : List Call :=
  [⟨.create (some oneByteName) 1, [true]⟩, ⟨.open (some oneByteName), []⟩,
    ⟨.write 0 (some [7]) 0 1, [true, false]⟩]

/-- `fs_write` replies 1; after the remount the file has size zero. -/
theorem fsWrite_success_not_durable :
    Volume freshMount.solid ∧
    (exec flakyDriver ((freshRun (writeUnflushed.take 2)).fs.arm [true, false])
      (.write 0 (some [7]) 0 1)).1 = 1 ∧
    (fsInit flakyDriver (freshRun writeUnflushed).fs 0).1 = 0 ∧
    ¬ Shows flakyDriver (fsInit flakyDriver (freshRun writeUnflushed).fs 0).2
      (freshRun writeUnflushed).files := by
  refine ⟨volume_freshMount, by decide +kernel, by decide +kernel, fun h => ?_⟩
  have hexpected : ((freshRun writeUnflushed).files.file oneByteName).map File.size = some 1 := by
    decide +kernel
  obtain ⟨F, hF, hone⟩ := Option.map_eq_some_iff.mp hexpected
  obtain ⟨fd, t, hopen, hsize, -⟩ := h.present oneByteName F hF
  have hfd : (fsOpen (fsInit flakyDriver (freshRun writeUnflushed).fs 0).2
      (some oneByteName)).1 = some 0 := by decide +kernel
  have hzero : fsSize (fsOpen (fsInit flakyDriver (freshRun writeUnflushed).fs 0).2
      (some oneByteName)).2 0 = 0 := by decide +kernel
  rw [hopen] at hfd hzero
  obtain rfl := Option.some.inj hfd
  change (fsSize t 0).toNat = F.size at hsize
  rw [hone, hzero] at hsize
  cases hsize

end AlJefra.Kernel.Fs
