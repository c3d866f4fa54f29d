/- The report files of `kernel/ai_bootstrap.c`. -/
import AlJefra.Kernel.FsDurableTheorems

namespace AlJefra.Kernel.Fs

section Model

variable {σ : Type} (drv : StorageOps σ)

def openOrCreate (s : FsState σ) (name : CStr) : Option Nat × FsState σ :=
  match fsOpen s (some name) with
  | (some fd, s) => (some fd, s)
  | (none, _) =>
    -- a call of `fs_open` that fails changes nothing
    match fsCreate drv s (some name) 2 with
    | (rc, s) => if rc < 0 then (none, s) else fsOpen s (some name)

def persistTextFile (s : FsState σ) (name text : Option CStr) : FsState σ :=
  match name, text with
  | some name, some text =>
    match openOrCreate drv s name with
    | (none, s) => s
    | (some fd, s) =>
      fsClose (fsWrite drv s fd (some text.bytes) 0 (UInt64.ofNat text.bytes.length)).2 fd
  | _, _ => s

def readBack (s : FsState σ) (name : CStr) : Option (Int × List UInt8) :=
  match fsOpen s (some name) with
  | (none, _) => none
  | (some fd, s) => some (fsRead drv s fd true 0 (fsSize s fd)).1

end Model

/-! ## Working storage -/

structure Works (s : FsState SectorDisk) (name : CStr) (size : UInt64) : Prop where
  create : OpOk s (.create (some name) 2)
  opens : ∃ fd t, openOrCreate sectorDriver s name = (some fd, t)
  room : ∀ fd t f, openOrCreate sectorDriver s name = (some fd, t) → openFd t fd = some f →
    ¬ f.reservedBlocks * bmfsBlockSize < 0 + size ∧ WriteOk t f 0 size

section Persist

variable {s t : FsState SectorDisk} {a : Files} {name : CStr} {fd : Nat}

theorem Agrees.of_opened {fd : Int} (ha : Agrees t a) (h : Volume t)
    (hopened : a.opened fd = some name) :
    ∃ f e F, openFd t fd = some f ∧ At t.dir name f.dirIndex e ∧ Caches f e ∧
      a.file name = some F ∧ Holds t e F := by
  rw [ha.opened fd] at hopened
  obtain ⟨f, hf, hname⟩ := Option.bind_eq_some_iff.mp hopened
  obtain ⟨name', e, hat, hcache⟩ := h.fds fd f hf
  rw [hat.nameAt h.wf] at hname
  obtain rfl := Option.some.inj hname
  have hrel := ha.files name'
  rw [hat.lookup] at hrel
  cases hF : a.file name' with
  | none => rw [hF] at hrel; cases hrel
  | some F =>
    rw [hF] at hrel
    cases hrel with
    | some hh => exact ⟨f, e, F, hf, hat, hcache, rfl, hh⟩

theorem Volume.fsOpen_some (h : Volume s) (ha : Agrees s a)
    (hopen : fsOpen s (some name) = (some fd, t)) :
    Volume t ∧ Agrees t (a.bind fd (some name)) := by
  have hexec := h.exec ha (.open (some name)) trivial
  simp only [Fs.exec, hopen, Option.map_some, Option.getD_some, Files.reply] at hexec
  rwa [if_pos (show 0 ≤ Int.ofNat fd from Int.natCast_nonneg fd)] at hexec

theorem openOrCreate_spec (h : Volume s) (hok : OpOk s (.create (some name) 2))
    (hopen : openOrCreate sectorDriver s name = (some fd, t)) :
    Volume t ∧ ∃ a F, Agrees t a ∧ a.opened fd = some name ∧ a.file name = some F ∧
      F.size = ((lookup s.dir name).map fun e => e.fileSize.toNat).getD 0 := by
  have ha := agrees_ofVolume s
  unfold openOrCreate at hopen
  split at hopen
  · -- the file is there
    rename_i fd' t' hfirst
    rw [Prod.mk.injEq, Option.some.injEq] at hopen
    obtain ⟨rfl, rfl⟩ := hopen
    obtain ⟨hv, ha'⟩ := h.fsOpen_some ha hfirst
    have hopened : ((Files.ofVolume s).bind fd' (some name)).opened fd' = some name := by
      simp [Files.bind]
    obtain ⟨f, e, F, -, -, -, hF, -⟩ := ha'.of_opened hv hopened
    refine ⟨hv, _, F, ha', hopened, hF, ?_⟩
    simp only [Files.bind, Files.ofVolume] at hF
    obtain ⟨e', hl, rfl⟩ := Option.map_eq_some_iff.mp hF
    simp [hl]
  · -- it is created, so it was not there
    split at hopen
    rename_i rc s₁ hcreate
    split at hopen
    · cases hopen
    · rename_i hrc
      obtain ⟨hv, ha'⟩ := h.exec ha (.create (some name) 2) hok
      have hexec := DirCall.exec_eq sectorDriver s (.create (some name) 2)
      simp only [DirCall.exec, DirCall.pending, hcreate] at hexec
      cases hp : createPending sectorDriver s name 2 with
      | none =>
        rw [hp] at hexec
        exact absurd (Prod.mk.inj hexec).1 (by omega)
      | some t₁ =>
        obtain ⟨slot, hslot, ht₁⟩ := createPending_eq_some hp
        have hon : DirOnDisk t₁ := by
          rw [ht₁]
          exact h.flushed.onDisk
        rw [hp] at hexec
        simp only [flush_disk hon] at hexec
        obtain ⟨rfl, -⟩ := Prod.mk.inj hexec
        simp only [Fs.exec, hcreate, Files.reply, if_true] at hv ha'
        obtain ⟨hv', ha''⟩ := hv.fsOpen_some ha' hopen
        refine ⟨hv', _, File.empty, ha'', by simp [Files.bind], by simp [Files.bind, Files.put], ?_⟩
        have hnone : lookup s.dir name = none := by
          simp [lookup, (fsCreateSlot_eq_some sectorDriver hslot).2.2.1]
        simp [hnone, File.empty]

theorem fsOpen_fsClose {fd : Int} {f : FsFd} {idx : Nat} (hinit : s.initialized = true)
    (hopen : openFd s fd = some f) (hidx : dirFind s.dir name = some idx) :
    ∃ fd' t, fsOpen (fsClose s fd) (some name) = (some fd', t) := by
  obtain ⟨hlo, hhi, hget, -⟩ := openFd_eq_some hopen
  have hclosed : (fsClose s fd).fds.slots[fd.toNat]? = some { f with inUse := false } := by
    rw [fsClose, if_neg (by omega)]
    simp [Lib.Table.modify, hget]
  have hfree : (fsClose s fd).fds.slots.findIdx? (fun f => !f.inUse) ≠ none := by
    intro hnone
    have := List.findIdx?_eq_none_iff.mp hnone _ (List.mem_of_getElem? hclosed)
    simp at this
  have hdir : (fsClose s fd).dir = s.dir ∧ (fsClose s fd).initialized = s.initialized := by
    unfold fsClose
    split <;> exact ⟨rfl, rfl⟩
  obtain ⟨e, hat⟩ := at_of_dirFind hidx
  obtain ⟨fd', hfd'⟩ := Option.ne_none_iff_exists'.mp hfree
  simp only [fsOpen, hdir.1, hdir.2, hinit, hidx, hfd', hat.getElem?, not_true_eq_false, if_false]
  split <;> exact ⟨_, _, rfl⟩

theorem fsRead_all_ret {fd : Int} {f : FsFd} (hopen : openFd t fd = some f) (hne : f.fileSize ≠ 0) :
    (fsRead sectorDriver t fd true 0 f.fileSize).1.1 = -1 ∨
      (fsRead sectorDriver t fd true 0 f.fileSize).1.1 = toInt64 f.fileSize := by
  have hle : ¬ f.fileSize ≤ 0 := by
    intro h
    exact hne (UInt64.toNat_inj.mp (Nat.le_zero.mp (UInt64.le_iff_toNat_le.mp h)))
  have hclamp : clampSize (f.fileSize - 0) f.fileSize = f.fileSize := by
    simp [clampSize]
  simp only [fsRead, hopen, hne, hle, hclamp, not_true_eq_false, or_self, if_false]
  split
  · exact .inl rfl
  · exact .inr rfl

theorem fsRead_known {fd : Int} {f : FsFd} {e : BmfsEntry} {text : List UInt8} (h : Volume t)
    (hopen : openFd t fd = some f) (hat : At t.dir name f.dirIndex e) (hcache : Caches f e)
    (hsize : e.fileSize.toNat = text.length) (hpos : 0 < text.length) (hlt : text.length < 2 ^ 41)
    (hbyte : ∀ i < text.length, t.dev.byte (fileAddr t e + i) = text.getD i 0) :
    (fsRead sectorDriver t fd true 0 f.fileSize).1 = ((text.length : Int), text) := by
  have hne : e.fileSize ≠ 0 := by
    intro h0
    rw [h0] at hsize
    exact absurd hsize (by simp; omega)
  have hon := (h.bounds _ _ _ hat).onDisk hne
  have hsec := t.dev.sectors_le
  rw [fileAddr] at hon
  have habs : (absOffset f 0).toNat = e.startingBlock.toNat * 2097152 := by
    rw [absOffset_toNat, fileOffset, hcache.start, UInt64.toNat_zero]
    omega
  have htrans : transfers t.partitionLba.toNat t.dev.sectors e.fileSize.toNat (absOffset f 0)
      e.fileSize :=
    transfers_onDisk hsec _ _ _ (le_refl _) (by omega) (by omega)
  rw [hcache.size, fsRead_full (partitionLba_le h.flushed.onDisk) hopen hne (by omega)
    (by rw [hcache.size, UInt64.toNat_zero]; omega) htrans, habs, hsize]
  rw [gather_eq fun i hi => ?_]
  rw [rangeAddr_of_lt (by omega), ← hbyte i hi, fileAddr]

theorem readBack_write {f : FsFd} {F : File} {text : List UInt8} {size : UInt64} (h : Volume t)
    (ha : Agrees t a) (hopened : a.opened fd = some name) (hf : openFd t fd = some f)
    (hF : a.file name = some F) (hne : size ≠ 0) (hsize : text.length = size.toNat)
    (hmax : ¬ f.reservedBlocks * bmfsBlockSize < 0 + size) (hwrite : WriteOk t f 0 size) :
    ∃ t' fd' g e, Volume t' ∧ openFd t' fd' = some g ∧ At t'.dir name g.dirIndex e ∧
      Caches g e ∧ Holds t' e (F.write 0 text) ∧
      readBack sectorDriver (fsClose (fsWrite sectorDriver t fd (some text) 0 size).2 fd) name
        = some (fsRead sectorDriver t' fd' true 0 g.fileSize).1 := by
  obtain ⟨d, -, hret⟩ := fsWrite_accepted h.flushed.onDisk hf hne hsize (hwrite.accepted hne hmax)
  have hpos : size.toNat ≠ 0 := fun h0 => hne (UInt64.toNat_inj.mp h0)
  have hok : OpOk t (.write fd (some text) 0 size) := by
    intro f' hf' b hb
    obtain rfl := Option.some.inj hb
    obtain rfl := Option.some.inj (hf.symm.trans hf')
    exact ⟨hsize, fun _ _ => hwrite⟩
  have hreply : a.reply (.write fd (some text) 0 size)
      (fsWrite sectorDriver t fd (some text) 0 size).1 = a.put name (some (F.write 0 text)) := by
    rw [hret]
    simp only [Files.reply, hopened, hF, Option.map_some]
    rw [if_pos (by omega)]
    rfl
  obtain ⟨hv₁, ha₁⟩ := h.write ha hok
  rw [hreply] at ha₁
  generalize (fsWrite sectorDriver t fd (some text) 0 size).2 = t₁ at hv₁ ha₁ ⊢
  -- closed and opened again, the file is the same to the client
  have hopened₁ : (a.put name (some (F.write 0 text))).opened fd = some name := hopened
  obtain ⟨f₁, e₁, -, hf₁, hat₁, -⟩ := ha₁.of_opened hv₁ hopened₁
  obtain ⟨fd', t', hopen⟩ := fsOpen_fsClose hv₁.mounted hf₁ hat₁.dirFind
  have hclose : Volume (fsClose t₁ fd) ∧
      Agrees (fsClose t₁ fd) ((a.put name (some (F.write 0 text))).bind fd none) := hv₁.close ha₁
  obtain ⟨hv', ha'⟩ := hclose.1.fsOpen_some hclose.2 hopen
  have hopened' : (((a.put name (some (F.write 0 text))).bind fd none).bind fd'
      (some name)).opened fd' = some name := by
    simp [Files.bind]
  obtain ⟨g, e, F', hg, hat, hcache, hF', hholds⟩ := ha'.of_opened hv' hopened'
  obtain rfl : F.write 0 text = F' := by
    simpa [Files.bind, Files.put] using hF'
  refine ⟨t', fd', g, e, hv', hg, hat, hcache, hholds, ?_⟩
  simp only [readBack, hopen, fsSize, hg]

/-- On working storage the file reads back as the text exactly if it was not longer before. -/
theorem persist_replaces_iff (s : FsState SectorDisk) (name text : CStr) (h : Volume s)
    (hpos : 1 ≤ text.bytes.length) (hlen : text.bytes.length ≤ 4095)
    (hw : Works s name (UInt64.ofNat text.bytes.length)) :
    readBack sectorDriver (persistTextFile sectorDriver s (some name) (some text)) name
        = some ((text.bytes.length : Int), text.bytes) ↔
      ∀ e, lookup s.dir name = some e → e.fileSize.toNat ≤ text.bytes.length := by
  have hsize : (UInt64.ofNat text.bytes.length).toNat = text.bytes.length :=
    UInt64.toNat_ofNat_of_lt' (Nat.lt_of_le_of_lt hlen (by decide))
  have hne : UInt64.ofNat text.bytes.length ≠ 0 := by
    intro h0
    rw [h0] at hsize
    exact absurd hsize (by simp; omega)
  obtain ⟨fd, t, hopen⟩ := hw.opens
  obtain ⟨hv, a, F, ha, hopened, hF, hold⟩ := openOrCreate_spec h hw.create hopen
  obtain ⟨f, -, -, hf, -⟩ := ha.of_opened hv hopened
  obtain ⟨hmax, hwrite⟩ := hw.room fd t f hopen hf
  obtain ⟨t', fd', g, e, hv', hg, hat, hcache, hholds, hback⟩ :=
    readBack_write hv ha hopened hf hF hne hsize.symm hmax hwrite
  have hnew : e.fileSize.toNat = max F.size text.bytes.length := by
    rw [hholds.1]
    simp [File.write]
  have hcond : (∀ e, lookup s.dir name = some e → e.fileSize.toNat ≤ text.bytes.length) ↔
      F.size ≤ text.bytes.length := by
    rw [hold]
    cases lookup s.dir name with
    | none | some e => simp
  simp only [persistTextFile, hopen, hback, hcond, Option.some.injEq]
  constructor
  · -- the value returned is the size of the file
    intro hread
    have hg0 : g.fileSize ≠ 0 := by
      intro h0
      rw [← hcache.size, h0] at hnew
      exact absurd hnew (by simp; omega)
    have hret : toInt64 g.fileSize = text.bytes.length := by
      obtain hfail | hall := fsRead_all_ret hg hg0
      · rw [hread] at hfail
        exact absurd hfail (by simp)
      · rw [← hall, hread]
    rw [hcache.size] at hret
    by_cases hbig : e.fileSize.toNat < 2 ^ 63
    · rw [toInt64_of_lt hbig] at hret
      omega
    · have := toInt64_neg_of_le (Nat.not_lt.mp hbig)
      omega
  · intro hle
    refine fsRead_known hv' hg hat hcache (by omega) hpos (by omega) fun i hi => ?_
    have hbyte : (F.write 0 text.bytes).byte i = some (text.bytes.getD i 0) := by
      simp [File.write, hi, List.getD_eq_getElem?_getD]
    exact (hholds.2 i _ hbyte).2

end Persist

def oneLetter : CStr := ⟨[65], by decide⟩
def twoLetters : CStr := ⟨[66, 66], by decide⟩

theorem persist_on_freshMount :
    readBack sectorDriver (persistTextFile sectorDriver freshMount.solid (some oneByteName)
      (some oneLetter)) oneByteName = some (1, [65]) := by
  have hfd : (openOrCreate sectorDriver freshMount.solid oneByteName).1 = some 0 := by
    decide +kernel
  have hopen : openFd (openOrCreate sectorDriver freshMount.solid oneByteName).2 0 =
      some ⟨true, 0, 1, 2, 0, (newEntry oneByteName 1 2).filename⟩ := by
    decide +kernel
  have hdisk : (openOrCreate sectorDriver freshMount.solid oneByteName).2.dev.sectors = 8192 ∧
      (openOrCreate sectorDriver freshMount.solid oneByteName).2.partitionLba = 0 := by
    decide +kernel
  refine (persist_replaces_iff freshMount.solid oneByteName oneLetter volume_freshMount (by decide)
    (by decide) ⟨opOk_create_freshMount _ _, ⟨0, _, Prod.ext hfd rfl⟩, ?_⟩).mpr ?_
  · intro fd t f hcall hf
    rw [hcall] at hfd hopen hdisk
    obtain rfl := Option.some.inj hfd
    obtain rfl := Option.some.inj (hopen.symm.trans hf)
    refine ⟨by decide, by decide, by decide, ?_⟩
    rw [hdisk.1, hdisk.2]
    decide
  · intro e he
    have hnone : lookup freshMount.solid.dir oneByteName = none := by decide +kernel
    rw [hnone] at he
    cases he

/-- The file keeps the last letter of a longer text. -/
theorem persist_keeps_old_end :
    readBack sectorDriver (persistTextFile sectorDriver (persistTextFile sectorDriver
      freshMount.solid (some oneByteName) (some twoLetters)) (some oneByteName) (some oneLetter))
        oneByteName = some (2, [65, 66]) := by
  decide +kernel

end AlJefra.Kernel.Fs
