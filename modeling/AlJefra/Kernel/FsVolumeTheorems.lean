/-
A mounted volume and what its client knows of it. `Volume` is the invariant of the concrete side
and `Agrees` relates the two.
-/
import AlJefra.Kernel.FsDriverTheorems
import AlJefra.Kernel.FsIndexTheorems

namespace AlJefra.Kernel.Fs

open AlJefra.Lib List Option UInt64

/-! ## What the replies imply -/

structure File where
  size : Nat
  byte : Nat → Option UInt8

def File.empty : File := ⟨0, fun _ => none⟩

def File.write (f : File) (off : Nat) (buf : List UInt8) : File where
  size := max f.size (off + buf.length)
  byte i := if off ≤ i ∧ i < off + buf.length then buf[i - off]? else f.byte i

structure Files where
  file : CStr → Option File
  opened : Int → Option CStr

def Files.put (a : Files) (name : CStr) (f : Option File) : Files :=
  { a with file := fun n => if n = name then f else a.file n }

def Files.bind (a : Files) (fd : Int) (name : Option CStr) : Files :=
  { a with opened := fun k => if k = fd then name else a.opened k }

def Files.reply (a : Files) : Op → Int → Files
  | .create (some name) _, rc => if rc = 0 then a.put name (some .empty) else a
  | .delete (some name), rc =>
    if rc = 0 then
      { a.put name none with
        opened := fun k => if a.opened k = some name then none else a.opened k }
    else a
  | .open (some name), rc => if 0 ≤ rc then a.bind rc (some name) else a
  | .close fd, _ => a.bind fd none
  | .write fd (some buf) off _, rc =>
    if 0 < rc then
      match a.opened fd with
      | none => a
      | some name => a.put name ((a.file name).map (·.write off.toNat buf))
    else a
  | _, _ => a

/-! ## The invariant of a volume -/

def fileAddr (s : FsState SectorDisk) (e : BmfsEntry) : Nat :=
  512 * s.partitionLba.toNat + e.startingBlock.toNat * 2097152

structure Caches (f : FsFd) (e : BmfsEntry) : Prop where
  start : f.startingBlock = e.startingBlock
  reserved : f.reservedBlocks = e.reservedBlocks
  size : f.fileSize = e.fileSize

structure InBounds (s : FsState SectorDisk) (e : BmfsEntry) : Prop where
  size : e.fileSize.toNat ≤ e.reservedBlocks.toNat * 2097152
  onDisk : e.fileSize ≠ 0 → fileAddr s e + e.fileSize.toNat ≤ 512 * s.dev.sectors

structure Volume (s : FsState SectorDisk) : Prop where
  mounted : s.initialized = true
  flushed : Flushed s
  wf : WellFormed s.dir
  disjoint : BlocksDisjoint s.dir
  bounds : ∀ name idx e, At s.dir name idx e → InBounds s e
  fds : ∀ fd f, openFd s fd = some f → ∃ name e, At s.dir name f.dirIndex e ∧ Caches f e
  distinct : ∀ fd fd' f f', openFd s fd = some f → openFd s fd' = some f' →
    f.dirIndex = f'.dirIndex → fd = fd'

def Holds (s : FsState SectorDisk) (e : BmfsEntry) (f : File) : Prop :=
  e.fileSize.toNat = f.size ∧
    ∀ i b, f.byte i = some b → i < f.size ∧ s.dev.byte (fileAddr s e + i) = b

structure Agrees (s : FsState SectorDisk) (a : Files) : Prop where
  files : ∀ name, Option.Rel (Holds s) (lookup s.dir name) (a.file name)
  opened : ∀ fd, a.opened fd = (openFd s fd).bind fun f => nameAt s.dir f.dirIndex

variable {s t : FsState SectorDisk}

theorem Volume.fileAddr_ge {name : CStr} {idx : Nat} {e : BmfsEntry} (h : Volume s)
    (hat : At s.dir name idx e) : 512 * s.partitionLba.toNat + 2097152 ≤ fileAddr s e := by
  have hpos := hat.start_pos h.disjoint
  unfold fileAddr
  omega

theorem flushed_flushedDisk (h : DirOnDisk s)
    (htag : s.dev.slice (512 * s.partitionLba.toNat + 1024) 4 = bmfsTag) (hdev : t.dev = s.dev)
    (hlba : t.partitionLba = s.partitionLba) : Flushed (t.withDev (flushedDisk t)) := by
  constructor
  · change t.partitionLba.toNat + 16 ≤ t.dev.sectors
    rwa [hdev, hlba]
  · have hput := slice_put_same t.dev (dirAddr t) (dirBytes t.dir)
    rwa [length_dirBytes] at hput
  · rw [← htag]
    change (flushedDisk t).slice (512 * t.partitionLba.toNat + 1024) 4 = _
    rw [hlba, ← hdev]
    refine slice_congr fun x hx hx' => flushedDisk_byte (.inl ?_)
    rw [dirAddr, hlba]
    omega

theorem flush_disk (h : DirOnDisk t) : flush sectorDriver t = (0, t.withDev (flushedDisk t)) := by
  simp [flush, dirWrite_disk h]

/-! ## Directory updates -/

section Steps

variable {s t : FsState SectorDisk} {a : Files} {e : BmfsEntry} {name : CStr} {σ : Type}
  {fds : Table FsFd bmfsMaxFiles} {i : Nat} {fd : Int} {f : FsFd}

theorem Holds.flush {f : File} (h : Holds s e f)
    (haddr : 512 * s.partitionLba.toNat + 2097152 ≤ fileAddr s e) (hdev : t.dev = s.dev)
    (hlba : t.partitionLba = s.partitionLba) : Holds (t.withDev (flushedDisk t)) e f := by
  refine ⟨h.1, fun i b hb => ⟨(h.2 i b hb).1, ?_⟩⟩
  have hsame : fileAddr (t.withDev (flushedDisk t)) e = fileAddr s e := by
    simp only [fileAddr, FsState.withDev, hlba]
  rw [hsame, ← (h.2 i b hb).2, ← hdev]
  refine flushedDisk_byte (.inr ?_)
  rw [dirAddr, hlba]
  omega

theorem InBounds.flush (h : InBounds s e) (hdev : t.dev = s.dev)
    (hlba : t.partitionLba = s.partitionLba) : InBounds (t.withDev (flushedDisk t)) e := by
  refine ⟨h.size, fun hne => ?_⟩
  have hb := h.onDisk hne
  simp only [fileAddr, FsState.withDev, flushedDisk, SectorDisk.put, hdev, hlba] at hb ⊢
  exact hb

theorem rel_refl_holds {o : Option BmfsEntry} {o' : Option File} {s' : FsState SectorDisk}
    (h : Option.Rel (Holds s) o o') (hstep : ∀ e f, o = some e → Holds s e f → Holds s' e f) :
    Option.Rel (Holds s') o o' := by
  cases h with
  | none => exact .none
  | some hh => exact .some (hstep _ _ rfl hh)

theorem exec_pending {c : DirCall} (h : DirOnDisk s) (hp : c.pending sectorDriver s = some t)
    (hdev : t.dev = s.dev) (hlba : t.partitionLba = s.partitionLba) :
    c.exec sectorDriver s = (0, t.withDev (flushedDisk t)) := by
  rw [DirCall.exec_eq, hp]
  refine flush_disk ?_
  rwa [DirOnDisk, hdev, hlba]

theorem Volume.create {n : UInt64} (h : Volume s) (ha : Agrees s a)
    (hp : createPending sectorDriver s name n = some t) (hrun : FreeRun s.dir (atLeastOne n))
    (hc : ¬ Clobbers s.dir) :
    Volume (t.withDev (flushedDisk t)) ∧
      Agrees (t.withDev (flushedDisk t)) (a.put name (some .empty)) := by
  obtain ⟨slot, hslot, ht⟩ := createPending_eq_some hp
  have hdev : t.dev = s.dev := by rw [ht]
  have hlba : t.partitionLba = s.partitionLba := by rw [ht]
  have hexec : fsCreate sectorDriver s (some name) n = (0, t.withDev (flushedDisk t)) :=
    exec_pending (c := .create (some name) n) h.flushed.onDisk hp hdev hlba
  have hdir : (fsCreate sectorDriver s (some name) n).2.dir = t.dir := by rw [hexec]; rfl
  have hwf : WellFormed t.dir := hdir ▸ wellFormed_fsCreate h.wf (some name) n
  have hdisjoint : BlocksDisjoint t.dir := hdir ▸ blocksDisjoint_fsCreate h.disjoint (some name) n
    (fun _ _ _ => ⟨hrun, not_reveals_of_tailShape h.wf.tail⟩)
  obtain ⟨hlen, ⟨c, cs, hcs, hc0, hc1⟩, hnone, hfree⟩ := fsCreateSlot_eq_some sectorDriver hslot
  -- the new file is in its slot, every other one where it was
  set e := newEntry name (findFreeBlocks s.dir (atLeastOne n)) (atLeastOne n) with he
  have hlive : e.tag = .live := newEntry_live hcs hlen hc0 hc1 _ _
  have hself : At t.dir name slot e := by
    rw [ht]
    exact at_placeEntry_self hfree hnone hlive ((nameMatch_newEntry hlen _ _).mpr rfl)
  have hkeep : ∀ other idx e', At s.dir other idx e' → At t.dir other idx e' := by
    intro other idx e' hat
    rw [ht]
    refine hat.placeEntry hc hfree (passes_newEntry hlen hlive ?_)
    rintro rfl
    rw [hat.dirFind] at hnone
    cases hnone
  have hother : ∀ other, other ≠ name → lookup t.dir other = lookup s.dir other := by
    have hok : (fsCreate sectorDriver s (some name) n).1 = 0 := by rw [hexec]
    exact (hdir ▸ (fsCreate_exact_iff_not_clobbers h.wf name n hok).mpr hc).others
  have hopen : ∀ fd, openFd (t.withDev (flushedDisk t)) fd = openFd s fd := by
    intro fd
    rw [ht]
    rfl
  refine ⟨⟨?_, flushed_flushedDisk h.flushed.onDisk h.flushed.tag hdev hlba, hwf, hdisjoint,
    ?_, ?_, ?_⟩, ⟨?_, ?_⟩⟩
  · rw [ht]
    exact h.mounted
  · intro other idx e' hat
    by_cases hn : other = name
    · subst hn
      obtain ⟨-, rfl⟩ := hself.unique hat
      exact ⟨by simp [he, newEntry], fun hne => absurd rfl hne⟩
    · have hlook := hother other hn
      obtain ⟨idx', hat'⟩ := at_of_lookup (hlook.symm.trans hat.lookup)
      exact (h.bounds _ _ _ hat').flush hdev hlba
  · intro fd f hf
    rw [hopen] at hf
    obtain ⟨nm, e', hat, hcache⟩ := h.fds fd f hf
    exact ⟨nm, e', hkeep _ _ _ hat, hcache⟩
  · intro fd fd' f f' hf hf'
    rw [hopen] at hf hf'
    exact h.distinct fd fd' f f' hf hf'
  · intro other
    by_cases hn : other = name
    · subst hn
      simp only [Files.put, if_true]
      change Option.Rel _ (lookup t.dir other) _
      rw [hself.lookup]
      exact .some ⟨by simp [he, newEntry, File.empty], fun i b hb => by simp [File.empty] at hb⟩
    · simp only [Files.put, if_neg hn]
      change Option.Rel _ (lookup t.dir other) _
      rw [hother other hn]
      refine rel_refl_holds (ha.files other) fun e' f hlook hh => ?_
      obtain ⟨idx, hat⟩ := at_of_lookup hlook
      exact hh.flush (h.fileAddr_ge hat) hdev hlba
  · intro fd
    rw [hopen]
    change a.opened fd = _
    rw [ha.opened fd]
    cases hf : openFd s fd with
    | none => rfl
    | some f =>
      obtain ⟨nm, e', hat, -⟩ := h.fds fd f hf
      change nameAt s.dir f.dirIndex = nameAt t.dir f.dirIndex
      rw [hat.nameAt h.wf, (hkeep _ _ _ hat).nameAt hwf]

theorem openFd_closeIndex (s : FsState σ) (idx : Nat) (dir : Table BmfsEntry bmfsMaxFiles) (dev : σ)
    (fd : Int) :
    openFd { s with
      fds := ⟨s.fds.slots.map (closeIndex idx), by rw [length_map, s.fds.length_slots]⟩
      dir := dir
      dev := dev } fd = (openFd s fd).filter (fun f => f.dirIndex != idx) := by
  unfold openFd
  split
  · rfl
  · rw [getElem?_map]
    cases s.fds.slots[fd.toNat]? with
    | none => rfl
    | some f =>
      by_cases hu : f.inUse = true
      · by_cases hi : f.dirIndex = idx <;> simp [closeIndex, Option.filter, hu, hi]
      · simp [closeIndex, Option.filter, hu]

theorem Volume.delete (h : Volume s) (ha : Agrees s a)
    (hp : deletePending sectorDriver s name = some t) :
    Volume (t.withDev (flushedDisk t)) ∧
      Agrees (t.withDev (flushedDisk t)) (a.reply (.delete (some name)) 0) := by
  obtain ⟨-, idx, hidx, ht⟩ := deletePending_eq_some hp
  obtain ⟨e₀, hat₀⟩ := at_of_dirFind hidx
  have hdev : t.dev = s.dev := by rw [ht]
  have hlba : t.partitionLba = s.partitionLba := by rw [ht]
  have hexec : fsDelete sectorDriver s (some name) = (0, t.withDev (flushedDisk t)) :=
    exec_pending (c := .delete (some name)) h.flushed.onDisk hp hdev hlba
  have hdir : (fsDelete sectorDriver s (some name)).2.dir = t.dir := by rw [hexec]; rfl
  have hwf : WellFormed t.dir := hdir ▸ wellFormed_fsDelete h.wf (some name)
  have hdisjoint : BlocksDisjoint t.dir := hdir ▸ blocksDisjoint_fsDelete h.disjoint (some name)
  have hexact : DeleteExact s.dir t.dir name := hdir ▸ fsDelete_exact h.wf name (by rw [hexec])
  have hkeep : ∀ other k e, At s.dir other k e → k ≠ idx → At t.dir other k e := by
    intro other k e hat hne
    rw [ht]
    exact hat.setDeleted hat₀ hne
  have hopen : ∀ fd, openFd (t.withDev (flushedDisk t)) fd =
      (openFd s fd).filter (fun f => f.dirIndex != idx) := by
    intro fd
    subst ht
    exact openFd_closeIndex s idx _ _ fd
  refine ⟨⟨?_, flushed_flushedDisk h.flushed.onDisk h.flushed.tag hdev hlba, hwf, hdisjoint,
    ?_, ?_, ?_⟩, ⟨?_, ?_⟩⟩
  · rw [ht]
    exact h.mounted
  · intro other k e hat
    by_cases hn : other = name
    · subst hn
      have hsome : lookup t.dir other = some e := hat.lookup
      rw [hexact.gone] at hsome
      cases hsome
    · obtain ⟨k', hat'⟩ := at_of_lookup ((hexact.others other hn).symm.trans hat.lookup)
      exact (h.bounds _ _ _ hat').flush hdev hlba
  · intro fd f hf
    rw [hopen, filter_eq_some_iff] at hf
    obtain ⟨nm, e, hat, hcache⟩ := h.fds fd f hf.1
    exact ⟨nm, e, hkeep _ _ _ hat (by simpa using hf.2), hcache⟩
  · intro fd fd' f f' hf hf'
    rw [hopen, filter_eq_some_iff] at hf hf'
    exact h.distinct fd fd' f f' hf.1 hf'.1
  · intro other
    by_cases hn : other = name
    · subst hn
      simp only [Files.reply, Files.put, if_true]
      change Option.Rel _ (lookup t.dir other) _
      rw [hexact.gone]
      exact .none
    · simp only [Files.reply, Files.put, if_true, if_neg hn]
      change Option.Rel _ (lookup t.dir other) _
      rw [hexact.others other hn]
      refine rel_refl_holds (ha.files other) fun e f hlook hh => ?_
      obtain ⟨k, hat⟩ := at_of_lookup hlook
      exact hh.flush (h.fileAddr_ge hat) hdev hlba
  · intro fd
    rw [hopen]
    simp only [Files.reply, if_true]
    rw [ha.opened fd]
    cases hf : openFd s fd with
    | none => rfl
    | some f =>
      obtain ⟨nm, e, hat, -⟩ := h.fds fd f hf
      simp only [bind_some, hat.nameAt h.wf]
      by_cases hi : f.dirIndex = idx
      · -- the descriptor of the deleted file
        rw [hi] at hat
        obtain rfl := hat.name_eq h.wf hat₀
        simp [Option.filter, hi]
      · have hne : nm ≠ name := by
          rintro rfl
          exact hi (hat.unique hat₀).1
        have hfilter : (some f).filter (fun f => f.dirIndex != idx) = some f := by
          simp [Option.filter, hi]
        rw [if_neg (by simpa using hne), hfilter, bind_some]
        exact ((hkeep _ _ _ hat hi).nameAt hwf).symm

/-! ## Descriptors -/

theorem openFd_congr {s : FsState σ} (hinit : s.initialized = true) (hi : i < bmfsMaxFiles)
    (hsame : ∀ j, j ≠ i → fds.slots[j]? = s.fds.slots[j]?) (fd : Int) :
    openFd { s with fds := fds } fd =
      if fd = i then fds.slots[i]?.filter (·.inUse) else openFd s fd := by
  unfold openFd
  simp only [hinit, not_true_eq_false, false_or]
  by_cases hfd : fd < 0 ∨ (bmfsMaxFiles : Int) ≤ fd
  · rw [if_pos hfd, if_pos hfd, if_neg]
    rintro rfl
    omega
  · rw [if_neg hfd, if_neg hfd]
    by_cases heq : fd = i
    · rw [if_pos heq, heq]
      rfl
    · rw [if_neg heq, hsame]
      omega

theorem openFd_eq_some {s : FsState σ} (h : openFd s fd = some f) :
    0 ≤ fd ∧ fd < bmfsMaxFiles ∧ s.fds.slots[fd.toNat]? = some f ∧ f.inUse = true := by
  unfold openFd at h
  split at h
  · cases h
  · obtain ⟨hget, huse⟩ := filter_eq_some_iff.mp h
    exact ⟨by omega, by omega, hget, huse⟩

theorem openFd_of_slot {s : FsState σ} (hinit : s.initialized = true) (h : s.fds.slots[i]? = some f)
    : openFd s i = (some f).filter (·.inUse) := by
  have hi : i < bmfsMaxFiles := by
    have := (List.getElem?_eq_some_iff.mp h).1
    rwa [s.fds.length_slots] at this
  unfold openFd
  rw [if_neg]
  · rw [Int.toNat_natCast, h]
  · simp only [hinit, not_true_eq_false, false_or, not_or]
    omega

theorem fsOpen_cases (s : FsState σ) (name : CStr) (hinit : s.initialized = true) :
    fsOpen s (some name) = (none, s) ∨
    (∃ fd f, openFd s (fd : Nat) = some f ∧ dirFind s.dir name = some f.dirIndex ∧
      fsOpen s (some name) = (some fd, s)) ∨
    ∃ fd idx e, At s.dir name idx e ∧ fd < bmfsMaxFiles ∧ openFd s (fd : Nat) = none ∧
      (∀ fd' f', openFd s fd' = some f' → f'.dirIndex ≠ idx) ∧
      fsOpen s (some name) = (some fd, { s with
        fds := s.fds.set fd
          ⟨true, idx, e.startingBlock, e.reservedBlocks, e.fileSize, e.filename⟩ }) := by
  unfold fsOpen
  simp only [hinit, not_true_eq_false, if_false]
  cases hidx : dirFind s.dir name with
  | none => exact .inl rfl
  | some idx =>
    obtain ⟨e, hat⟩ := at_of_dirFind hidx
    dsimp only
    cases hopen : s.fds.slots.findIdx? (fun f => f.inUse && f.dirIndex == idx) with
    | some fd =>
      obtain ⟨hlt, hf, -⟩ := findIdx?_eq_some_iff_getElem.mp hopen
      simp only [Bool.and_eq_true, beq_iff_eq] at hf
      refine .inr (.inl ⟨fd, s.fds.slots[fd], ?_, by rw [hf.2], rfl⟩)
      rw [openFd_of_slot hinit (getElem?_eq_getElem hlt)]
      simp [hf.1]
    | none =>
      cases hslot : s.fds.slots.findIdx? (fun f => !f.inUse) with
      | none => exact .inl rfl
      | some fd =>
        obtain ⟨hlt, hf, -⟩ := findIdx?_eq_some_iff_getElem.mp hslot
        rw [hat.getElem?]
        refine .inr (.inr ⟨fd, idx, e, hat, by rwa [s.fds.length_slots] at hlt, ?_, ?_, rfl⟩)
        · rw [openFd_of_slot hinit (getElem?_eq_getElem hlt)]
          simpa [Option.filter] using hf
        · intro fd' f' hf' hidx'
          obtain ⟨-, -, hget, huse⟩ := openFd_eq_some hf'
          have hno := findIdx?_eq_none_iff.mp hopen f' (mem_of_getElem? hget)
          simp [huse, hidx'] at hno

theorem Volume.withFds (h : Volume s)
    (hfds : ∀ fd f, openFd { s with fds := fds } fd = some f →
      ∃ name e, At s.dir name f.dirIndex e ∧ Caches f e)
    (hdistinct : ∀ fd fd' f f', openFd { s with fds := fds } fd = some f →
      openFd { s with fds := fds } fd' = some f' → f.dirIndex = f'.dirIndex → fd = fd') :
    Volume { s with fds := fds } where
  mounted := h.mounted
  flushed := ⟨h.flushed.onDisk, h.flushed.dir, h.flushed.tag⟩
  wf := h.wf
  disjoint := h.disjoint
  bounds := fun name idx e hat =>
    ⟨(h.bounds name idx e hat).size, (h.bounds name idx e hat).onDisk⟩
  fds := hfds
  distinct := hdistinct

theorem Volume.open (h : Volume s) (ha : Agrees s a) :
    Volume (exec sectorDriver s (.open (some name))).2 ∧
      Agrees (exec sectorDriver s (.open (some name))).2
        (a.reply (.open (some name)) (exec sectorDriver s (.open (some name))).1) := by
  obtain hnone | ⟨fd, f, hopen, hidx, heq⟩ | ⟨fd, idx, e, hat, hlt, hfree, hno, heq⟩ :=
    fsOpen_cases s name h.mounted
  · simp only [exec, hnone]
    exact ⟨h, ha⟩
  · -- already open: the descriptor is known to lead to `name`
    simp only [exec, heq]
    refine ⟨h, ha.files, fun k => ?_⟩
    simp only [Files.reply, map_some, getD_some, Int.ofNat_eq_natCast]
    rw [if_pos (by omega)]
    simp only [Files.bind]
    split
    · rename_i hk
      obtain ⟨e, hat⟩ := at_of_dirFind hidx
      rw [hk, hopen, bind_some, hat.nameAt h.wf]
    · exact ha.opened k
  · set g : FsFd := ⟨true, idx, e.startingBlock, e.reservedBlocks, e.fileSize, e.filename⟩ with hg
    have hopen : ∀ k, openFd { s with fds := s.fds.set fd g } k =
        if k = fd then some g else openFd s k := by
      intro k
      rw [openFd_congr h.mounted hlt (fun j hj => by simp [Ne.symm hj])]
      have hget : (s.fds.set fd g).slots[fd]? = some g := by
        simp [s.fds.length_slots, hlt]
      rw [hget]
      rfl
    simp only [exec, heq]
    refine ⟨h.withFds ?_ ?_, ha.files, fun k => ?_⟩
    · intro k f hf
      rw [hopen] at hf
      split at hf
      · cases hf
        exact ⟨name, e, hat, rfl, rfl, rfl⟩
      · exact h.fds k f hf
    · intro k k' f f' hf hf' hidx
      rw [hopen] at hf hf'
      split at hf
      · cases hf
        split at hf'
        · omega
        · exact absurd hidx.symm (hno k' f' hf')
      · split at hf'
        · cases hf'
          exact absurd hidx (hno k f hf)
        · exact h.distinct k k' f f' hf hf' hidx
    · rw [hopen]
      simp only [Files.reply, map_some, getD_some, Int.ofNat_eq_natCast]
      rw [if_pos (by omega)]
      simp only [Files.bind]
      split
      · exact (hat.nameAt h.wf).symm
      · exact ha.opened k

theorem Volume.close (h : Volume s) (ha : Agrees s a) :
    Volume (fsClose s fd) ∧ Agrees (fsClose s fd) (a.bind fd none) := by
  unfold fsClose
  by_cases hfd : fd < 0 ∨ (bmfsMaxFiles : Int) ≤ fd
  · rw [if_pos hfd]
    refine ⟨h, ha.files, fun k => ?_⟩
    simp only [Files.bind]
    split
    · rename_i hk
      rw [hk, openFd, if_pos (by simpa [h.mounted] using hfd)]
      rfl
    · exact ha.opened k
  · rw [if_neg hfd]
    have hlt : fd.toNat < bmfsMaxFiles := by omega
    have hopen : ∀ k, openFd
        { s with fds := s.fds.modify fd.toNat (fun f => { f with inUse := false }) } k =
        if k = fd then none else openFd s k := by
      intro k
      rw [openFd_congr h.mounted hlt (fun j hj => by
        simp [Ne.symm hj])]
      have hcast : ((fd.toNat : Nat) : Int) = fd := by omega
      rw [hcast]
      split
      · rw [Table.slots_modify, getElem?_modify_eq]
        cases s.fds.slots[fd.toNat]? with
        | none | some f => rfl
      · rfl
    refine ⟨h.withFds ?_ ?_, ha.files, fun k => ?_⟩
    · intro k f hf
      rw [hopen] at hf
      split at hf
      · cases hf
      · exact h.fds k f hf
    · intro k k' f f' hf hf'
      rw [hopen] at hf hf'
      split at hf
      · cases hf
      · split at hf'
        · cases hf'
        · exact h.distinct k k' f f' hf hf'
    · rw [hopen]
      simp only [Files.bind]
      split
      · rfl
      · exact ha.opened k

/-! ## Writing -/

structure WriteOk (s : FsState SectorDisk) (f : FsFd) (off size : UInt64) : Prop where
  noWrap : off.toNat + size.toNat < 2 ^ 64
  small : size.toNat < 2 ^ 41
  onDisk : 512 * s.partitionLba.toNat + (fileOffset f off + size.toNat) ≤ 512 * s.dev.sectors

section Write

variable {fd : Int} {f : FsFd} {off size : UInt64} {buf : List UInt8} {name : CStr}
  {e : BmfsEntry} {d : SectorDisk}

theorem WriteOk.absOffset_eq (h : WriteOk s f off size) (hsize : size ≠ 0) :
    (absOffset f off).toNat = fileOffset f off := by
  have hpos : size.toNat ≠ 0 := fun h0 => hsize (UInt64.toNat_inj.mp h0)
  have hon := h.onDisk
  have hsec := s.dev.sectors_le
  rw [absOffset_toNat]
  omega

theorem WriteOk.accepted (h : WriteOk s f off size) (hsize : size ≠ 0)
    (hmax : ¬ f.reservedBlocks * bmfsBlockSize < off + size) : Accepted s f off size := by
  refine ⟨hmax, transfers_onDisk s.dev.sectors_le _ _ _ (le_refl _) h.small ?_, ?_⟩
  · rw [h.absOffset_eq hsize]
    have := h.onDisk
    omega
  · have := h.small
    omega

theorem WriteOk.end_le (h : WriteOk s f off size)
    (hmax : ¬ f.reservedBlocks * bmfsBlockSize < off + size) :
    off.toNat + size.toNat ≤ f.reservedBlocks.toNat * 2097152 := by
  have hblock : bmfsBlockSize.toNat = 2097152 := by decide
  have hnw := h.noWrap
  rw [UInt64.lt_iff_toNat_lt, UInt64.toNat_mul, UInt64.toNat_add, hblock] at hmax
  omega

structure Patched (s : FsState SectorDisk) (e : BmfsEntry) (off : UInt64) (buf : List UInt8)
    (d : SectorDisk) : Prop where
  sectors : d.sectors = s.dev.sectors
  data : ∀ i b, buf[i]? = some b → d.byte (fileAddr s e + off.toNat + i) = b
  frame : ∀ x, x < fileAddr s e + off.toNat ∨ fileAddr s e + off.toNat + buf.length ≤ x →
    d.byte x = s.dev.byte x

theorem patched_of_laid (hcache : Caches f e) (h : WriteOk s f off size) (hsize : size ≠ 0)
    (hbuf : buf.length = size.toNat)
    (hlaid : Laid s.partitionLba.toNat s.dev d (absOffset f off).toNat buf) :
    Patched s e off buf d := by
  have habs := h.absOffset_eq hsize
  have hon := h.onDisk
  have hsec := s.dev.sectors_le
  have haddr : ∀ i, i < buf.length →
      rangeAddr s.partitionLba.toNat (absOffset f off).toNat i = fileAddr s e + off.toNat + i := by
    intro i hi
    rw [rangeAddr_of_lt (by omega), habs, fileOffset, hcache.start, fileAddr]
    omega
  constructor
  · exact hlaid.sectors
  · intro i b hb
    obtain ⟨hi, rfl⟩ := List.getElem?_eq_some_iff.mp hb
    rw [← haddr i hi, hlaid.data i hi, getD_eq_getElem?_getD, hb, getD_some]
  · intro x hx
    refine hlaid.frame x fun i hi => ?_
    rw [haddr i hi]
    omega

variable {F : File} {e' : BmfsEntry} {other : CStr} {idx k : Nat}

theorem Holds.write {t : FsState SectorDisk} (h : Holds s e F) (hpatch : Patched s e off buf d)
    (hstart : fileAddr t e' = fileAddr s e)
    (hsize : e'.fileSize.toNat = max F.size (off.toNat + buf.length))
    (hbytes : ∀ i, t.dev.byte (fileAddr s e + i) = d.byte (fileAddr s e + i)) :
    Holds t e' (F.write off.toNat buf) := by
  refine ⟨hsize, fun i b hb => ?_⟩
  rw [hstart, hbytes]
  simp only [File.write] at hb ⊢
  split at hb
  · have hdata := hpatch.data (i - off.toNat) b hb
    rw [show fileAddr s e + off.toNat + (i - off.toNat) = fileAddr s e + i by omega] at hdata
    exact ⟨by omega, hdata⟩
  · obtain ⟨hi, hbyte⟩ := h.2 i b hb
    rw [hpatch.frame _ (by omega)]
    exact ⟨by omega, hbyte⟩

theorem Volume.patched_other (h : Volume s) (hat : At s.dir name idx e) (hat' : At s.dir other k e')
    (hne : idx ≠ k) (hpatch : Patched s e off buf d)
    (hend : off.toNat + buf.length ≤ e.reservedBlocks.toNat * 2097152) {i : Nat}
    (hi : i < e'.fileSize.toNat) : d.byte (fileAddr s e' + i) = s.dev.byte (fileAddr s e' + i) := by
  have hb := (h.bounds _ _ _ hat').size
  by_contra hchanged
  -- a byte in both files would lie in a block of both
  have hin : fileAddr s e + off.toNat ≤ fileAddr s e' + i ∧
      fileAddr s e' + i < fileAddr s e + off.toNat + buf.length := by
    by_contra hno
    exact hchanged (hpatch.frame _ (by omega))
  refine hat.apart h.disjoint hat' hne ((e'.startingBlock.toNat * 2097152 + i) / 2097152) ?_
  simp only [fileAddr] at hin
  simp only [Range.Mem, Range.stop, Region.range, BmfsEntry.region]
  omega

theorem Volume.holds_other (h : Volume s) (hat : At s.dir name idx e) (hat' : At s.dir other k e')
    (hn : other ≠ name) (hpatch : Patched s e off buf d)
    (hend : off.toNat + buf.length ≤ e.reservedBlocks.toNat * 2097152) (hh : Holds s e' F) :
    Holds (s.withDev d) e' F := by
  refine ⟨hh.1, fun i b hb => ?_⟩
  obtain ⟨hi, hbyte⟩ := hh.2 i b hb
  have hne : idx ≠ k := by
    rintro rfl
    exact hn (hat'.name_eq h.wf hat)
  refine ⟨hi, ?_⟩
  rw [← hbyte]
  exact h.patched_other hat hat' hne hpatch hend (by rw [hh.1]; exact hi)

theorem Volume.patched_low (h : Volume s) (hat : At s.dir name idx e)
    (hpatch : Patched s e off buf d) {x : Nat} (hx : x < 512 * s.partitionLba.toNat + 2097152) :
    d.byte x = s.dev.byte x := by
  have hge := h.fileAddr_ge hat
  exact hpatch.frame x (.inl (by omega))

theorem Volume.write_inside (h : Volume s) (ha : Agrees s a) (hat : At s.dir name idx e)
    (hpatch : Patched s e off buf d)
    (hend : off.toNat + buf.length ≤ e.reservedBlocks.toNat * 2097152)
    (hle : off.toNat + buf.length ≤ e.fileSize.toNat) :
    Volume (s.withDev d) ∧
      Agrees (s.withDev d) (a.put name ((a.file name).map (·.write off.toNat buf))) := by
  refine ⟨⟨h.mounted, ⟨?_, ?_, ?_⟩, h.wf, h.disjoint, ?_, h.fds, h.distinct⟩, ?_, ha.opened⟩
  · have hon : s.partitionLba.toNat + 16 ≤ s.dev.sectors := h.flushed.onDisk
    change s.partitionLba.toNat + 16 ≤ d.sectors
    rwa [hpatch.sectors]
  · change d.slice (dirAddr s) 4096 = dirBytes s.dir
    rw [← h.flushed.dir]
    refine slice_congr fun x hx hx' => h.patched_low hat hpatch ?_
    rw [dirAddr] at hx'
    omega
  · change d.slice (512 * s.partitionLba.toNat + 1024) 4 = bmfsTag
    rw [← h.flushed.tag]
    exact slice_congr fun x hx hx' => h.patched_low hat hpatch (by omega)
  · intro other k e' hat'
    refine ⟨(h.bounds _ _ _ hat').size, fun hne => ?_⟩
    change fileAddr s e' + _ ≤ 512 * d.sectors
    rw [hpatch.sectors]
    exact (h.bounds _ _ _ hat').onDisk hne
  · intro other
    have hrel := ha.files other
    change Option.Rel _ (lookup s.dir other) _
    by_cases hn : other = name
    · subst hn
      simp only [Files.put, if_true]
      rw [hat.lookup] at hrel ⊢
      cases hF : a.file other with
      | none => rw [hF] at hrel; cases hrel
      | some F =>
        rw [hF] at hrel
        cases hrel with
        | some hh =>
          refine .some (hh.write hpatch rfl ?_ fun _ => rfl)
          rw [← hh.1]
          omega
    · simp only [Files.put, if_neg hn]
      refine rel_refl_holds hrel fun e' F hlook hh => ?_
      obtain ⟨k, hat'⟩ := at_of_lookup hlook
      exact h.holds_other hat hat' hn hpatch hend hh

def grown (s : FsState SectorDisk) (fd : Int) (f : FsFd) (d : SectorDisk) (newEnd : UInt64) :
    FsState SectorDisk :=
  { s with
    fds := s.fds.modify fd.toNat (fun f => { f with fileSize := newEnd })
    dir := s.dir.modify f.dirIndex (BmfsEntry.withSize newEnd)
    dev := d }

theorem openFd_grown (hinit : s.initialized = true) (hopen : openFd s fd = some f)
    (newEnd : UInt64) (k : Int) : openFd (grown s fd f d newEnd) k =
      if k = fd then some { f with fileSize := newEnd } else openFd s k := by
  obtain ⟨hnn, hlt, hget, huse⟩ := openFd_eq_some hopen
  have hlt' : fd.toNat < bmfsMaxFiles := by omega
  have hcast : ((fd.toNat : Nat) : Int) = fd := by omega
  have hmod : ((s.fds.modify fd.toNat
      (fun f => { f with fileSize := newEnd })).slots[fd.toNat]?).filter
      (·.inUse) = some { f with fileSize := newEnd } := by
    rw [Table.slots_modify, getElem?_modify_eq, hget]
    simp [huse]
  have hsame : ∀ j, j ≠ fd.toNat →
      (s.fds.modify fd.toNat (fun f => { f with fileSize := newEnd })).slots[j]? =
        s.fds.slots[j]? := by
    intro j hj
    simp [Ne.symm hj]
  have h := openFd_congr hinit hlt' hsame k
  rw [hcast, hmod] at h
  exact h

theorem Volume.write_grown {newEnd : UInt64} (h : Volume s) (ha : Agrees s a)
    (hopen : openFd s fd = some f) (hat : At s.dir name f.dirIndex e) (hcache : Caches f e)
    (hpatch : Patched s e off buf d)
    (hend : off.toNat + buf.length ≤ e.reservedBlocks.toNat * 2097152)
    (honDisk : fileAddr s e + (off.toNat + buf.length) ≤ 512 * s.dev.sectors)
    (hnew : newEnd.toNat = off.toNat + buf.length) (hgrow : e.fileSize.toNat < newEnd.toNat)
    (hwf : WellFormed (grown s fd f d newEnd).dir)
    (hdisjoint : BlocksDisjoint (grown s fd f d newEnd).dir) :
    let t := grown s fd f d newEnd
    Volume (t.withDev (flushedDisk t)) ∧ Agrees (t.withDev (flushedDisk t))
        (a.put name ((a.file name).map (·.write off.toNat buf))) := by
  intro t
  have hself : At t.dir name f.dirIndex (e.withSize newEnd) := hat.withSize_self newEnd
  have hkeep : ∀ other k e', At s.dir other k e' → k ≠ f.dirIndex → At t.dir other k e' :=
    fun other k e' hat' hne => hat'.modify_other hat hne id
  -- every name leads to the slot it led to before
  have hback : ∀ other k e', At t.dir other k e' → other ≠ name → At s.dir other k e' := by
    intro other k e' hat' hn
    have hfind : dirFind s.dir other = some k := by
      rw [← dirFind_withSize s.dir f.dirIndex newEnd]
      exact hat'.dirFind
    obtain ⟨e'', hat''⟩ := at_of_dirFind hfind
    have hne : k ≠ f.dirIndex := by
      rintro rfl
      exact hn (hat''.name_eq h.wf hat)
    obtain ⟨-, rfl⟩ := hat'.unique (hkeep _ _ _ hat'' hne)
    exact hat''
  have hopen' : ∀ k, openFd (t.withDev (flushedDisk t)) k =
      if k = fd then some { f with fileSize := newEnd } else openFd s k :=
    openFd_grown h.mounted hopen newEnd
  have htag : (s.withDev d).dev.slice (512 * s.partitionLba.toNat + 1024) 4 = bmfsTag := by
    rw [← h.flushed.tag]
    exact slice_congr fun x hx hx' => h.patched_low hat hpatch (by omega)
  have hon : DirOnDisk (s.withDev d) := by
    have := h.flushed.onDisk
    change s.partitionLba.toNat + 16 ≤ d.sectors
    rwa [hpatch.sectors]
  refine ⟨⟨h.mounted, flushed_flushedDisk hon htag rfl rfl, hwf, hdisjoint, ?_, ?_, ?_⟩, ?_, ?_⟩
  · intro other k e' hat'
    by_cases hn : other = name
    · subst hn
      obtain ⟨-, rfl⟩ := hself.unique hat'
      refine ⟨by change newEnd.toNat ≤ _; rw [hnew]; exact hend, fun _ => ?_⟩
      change fileAddr s e + newEnd.toNat ≤ 512 * d.sectors
      rw [hnew, hpatch.sectors]
      exact honDisk
    · have hb := h.bounds _ _ _ (hback _ _ _ hat' hn)
      refine ⟨hb.size, fun hne => ?_⟩
      change fileAddr s e' + _ ≤ 512 * d.sectors
      rw [hpatch.sectors]
      exact hb.onDisk hne
  · intro k g hg
    rw [hopen'] at hg
    split at hg
    · cases hg
      exact ⟨name, _, hself, hcache.start, hcache.reserved, rfl⟩
    · rename_i hk
      obtain ⟨nm, e', hat', hc'⟩ := h.fds k g hg
      refine ⟨nm, e', hkeep _ _ _ hat' fun hidx => hk ?_, hc'⟩
      exact h.distinct k fd g f hg hopen hidx
  · intro k k' g g' hg hg' hidx
    rw [hopen'] at hg hg'
    split at hg
    · cases hg
      split at hg'
      · omega
      · rename_i hk hk'
        exact absurd (h.distinct fd k' f g' hopen hg' hidx).symm hk'
    · split at hg'
      · cases hg'
        rename_i hk hk'
        exact absurd (h.distinct k fd g f hg hopen hidx) hk
      · exact h.distinct k k' g g' hg hg' hidx
  · intro other
    have hrel := ha.files other
    change Option.Rel _ (lookup t.dir other) _
    by_cases hn : other = name
    · subst hn
      simp only [Files.put, if_true]
      rw [hat.lookup] at hrel
      rw [hself.lookup]
      cases hF : a.file other with
      | none => rw [hF] at hrel; cases hrel
      | some F =>
        rw [hF] at hrel
        cases hrel with
        | some hh =>
          have hw : Holds (s.withDev d) (e.withSize newEnd) (F.write off.toNat buf) := by
            refine hh.write hpatch rfl ?_ fun _ => rfl
            change newEnd.toNat = _
            have := hh.1
            omega
          have hge := h.fileAddr_ge hat
          exact .some (hw.flush hge rfl rfl)
    · simp only [Files.put, if_neg hn]
      have hlook : lookup t.dir other = lookup s.dir other := by
        cases hl : lookup t.dir other with
        | none =>
          cases hl' : lookup s.dir other with
          | none => rfl
          | some e' =>
            obtain ⟨k, hat'⟩ := at_of_lookup hl'
            have hne : k ≠ f.dirIndex := by
              rintro rfl
              exact hn (hat'.name_eq h.wf hat)
            rw [(hkeep _ _ _ hat' hne).lookup] at hl
            cases hl
        | some e' =>
          obtain ⟨k, hat'⟩ := at_of_lookup hl
          exact ((hback _ _ _ hat' hn).lookup).symm
      rw [hlook]
      refine rel_refl_holds hrel fun e' F hl hh => ?_
      obtain ⟨k, hat'⟩ := at_of_lookup hl
      exact (h.holds_other hat hat' hn hpatch hend hh).flush (h.fileAddr_ge hat') rfl rfl
  · intro k
    rw [hopen']
    change a.opened k = _
    rw [ha.opened k]
    split
    · rename_i hk
      rw [hk, hopen, bind_some, bind_some, hat.nameAt h.wf]
      exact (hself.nameAt hwf).symm
    · rename_i hk
      cases hg : openFd s k with
      | none => rfl
      | some g =>
        obtain ⟨nm, e', hat', -⟩ := h.fds k g hg
        rw [bind_some, bind_some, hat'.nameAt h.wf]
        refine ((hkeep _ _ _ hat' fun hidx => hk ?_).nameAt hwf).symm
        exact h.distinct k fd g f hg hopen hidx

def OpOk (s : FsState SectorDisk) : Op → Prop
  | .create name n => ∀ nm ∈ name, (fsCreateSlot sectorDriver s nm).isSome →
      FreeRun s.dir (atLeastOne n) ∧ ¬ Clobbers s.dir
  | .write fd buf off size => ∀ f ∈ openFd s fd, ∀ b ∈ buf, b.length = size.toNat ∧
      (size ≠ 0 → ¬ f.reservedBlocks * bmfsBlockSize < off + size → WriteOk s f off size)
  | _ => True

theorem fsWrite_cases {σ : Type} (drv : StorageOps σ) (s : FsState σ) (fd : Int)
    (buf : Option (List UInt8)) (off size : UInt64) :
    ((fsWrite drv s fd buf off size).1 ≤ 0 ∧ (fsWrite drv s fd buf off size).2 = s) ∨
    ∃ f b, openFd s fd = some f ∧ buf = some b ∧ size ≠ 0 ∧
      ¬ f.reservedBlocks * bmfsBlockSize < off + size ∧
      ((fsWriteBytes drv s b (absOffset f off) size).1 < 0 → fsWrite drv s fd buf off size =
          (-1, (fsWriteBytes drv s b (absOffset f off) size).2)) := by
  have hneg : (-1 : Int) ≤ 0 := by decide
  have hzero : (0 : Int) ≤ 0 := by decide
  unfold fsWrite
  cases hopen : openFd s fd with
  | none => exact .inl ⟨hneg, rfl⟩
  | some f =>
    dsimp only
    by_cases hdrv : drv.write.isNone = true
    · rw [if_pos hdrv]
      exact .inl ⟨hneg, rfl⟩
    · rw [if_neg hdrv]
      cases buf with
      | none => exact .inl ⟨hzero, rfl⟩
      | some b =>
        dsimp only
        by_cases hsize : size = 0
        · rw [if_pos hsize]
          exact .inl ⟨hzero, rfl⟩
        · rw [if_neg hsize]
          by_cases hmax : f.reservedBlocks * bmfsBlockSize < off + size
          · rw [if_pos hmax]
            exact .inl ⟨hneg, rfl⟩
          · refine .inr ⟨f, b, rfl, rfl, hsize, hmax, fun hrc => ?_⟩
            rw [if_neg hmax]
            exact if_pos hrc

theorem Files.reply_write_refused (a : Files) (fd : Int) (buf : Option (List UInt8))
    (off size : UInt64) {rc : Int} (h : rc ≤ 0) : a.reply (.write fd buf off size) rc = a := by
  cases buf with
  | none => rfl
  | some b => simp only [Files.reply, if_neg (show ¬ 0 < rc by omega)]

theorem Volume.write (h : Volume s) (ha : Agrees s a) {buf : Option (List UInt8)}
    (hok : OpOk s (.write fd buf off size)) :
    Volume (fsWrite sectorDriver s fd buf off size).2 ∧
      Agrees (fsWrite sectorDriver s fd buf off size).2
        (a.reply (.write fd buf off size) (fsWrite sectorDriver s fd buf off size).1) := by
  obtain ⟨hrc, hsame⟩ | ⟨f, b, hopen, rfl, hsize, hmax, -⟩ :=
    fsWrite_cases sectorDriver s fd buf off size
  · rw [hsame, a.reply_write_refused fd buf off size hrc]
    exact ⟨h, ha⟩
  · obtain ⟨hlen, hwrite⟩ := hok f hopen b rfl
    have hw := hwrite hsize hmax
    obtain ⟨name, e, hat, hcache⟩ := h.fds fd f hopen
    obtain ⟨d, hlaid, heq⟩ := fsWrite_accepted h.flushed.onDisk hopen hsize hlen
      (hw.accepted hsize hmax)
    have hpatch := patched_of_laid hcache hw hsize hlen hlaid
    have hend : off.toNat + b.length ≤ e.reservedBlocks.toNat * 2097152 := by
      rw [hlen, ← hcache.reserved]
      exact hw.end_le hmax
    have hnew : (off + size).toNat = off.toNat + b.length := by
      rw [UInt64.toNat_add, hlen, Nat.mod_eq_of_lt hw.noWrap]
    have hpos : 0 < size.toNat := by
      have : size.toNat ≠ 0 := fun h0 => hsize (UInt64.toNat_inj.mp h0)
      omega
    have hreply : a.reply (.write fd (some b) off size) (size.toNat : Int) =
        a.put name ((a.file name).map (·.write off.toNat b)) := by
      simp only [Files.reply]
      rw [if_pos (by omega), ha.opened fd, hopen, bind_some, hat.nameAt h.wf]
    have hwf : WellFormed (fsWrite sectorDriver s fd (some b) off size).2.dir :=
      wellFormed_fsWrite h.wf fd (some b) off size
    have hdisjoint : BlocksDisjoint (fsWrite sectorDriver s fd (some b) off size).2.dir :=
      blocksDisjoint_fsWrite h.disjoint fd (some b) off size
    rw [heq] at hwf hdisjoint ⊢
    rw [hreply]
    unfold recordSize at hwf hdisjoint ⊢
    by_cases hgrow : f.fileSize < off + size
    · have hflush := dirWrite_disk (s := grown s fd f d (off + size)) (by
        have hon := h.flushed.onDisk
        change s.partitionLba.toNat + 16 ≤ d.sectors
        rwa [hpatch.sectors])
      have hgrow' : e.fileSize.toNat < (off + size).toNat := by
        rw [← hcache.size]
        exact lt_iff_toNat_lt.mp hgrow
      have honDisk : fileAddr s e + (off.toNat + b.length) ≤ 512 * s.dev.sectors := by
        have hon := hw.onDisk
        rw [fileOffset, hcache.start] at hon
        rw [fileAddr]
        omega
      simp only [if_pos hgrow] at hwf hdisjoint ⊢
      change WellFormed (dirWrite sectorDriver (grown s fd f d (off + size))).2.dir at hwf
      change BlocksDisjoint (dirWrite sectorDriver (grown s fd f d (off + size))).2.dir at hdisjoint
      change Volume (dirWrite sectorDriver (grown s fd f d (off + size))).2 ∧
        Agrees (dirWrite sectorDriver (grown s fd f d (off + size))).2 _
      rw [hflush] at hwf hdisjoint ⊢
      exact h.write_grown ha hopen hat hcache hpatch hend honDisk hnew hgrow' hwf hdisjoint
    · have hle : off.toNat + b.length ≤ e.fileSize.toNat := by
        rw [lt_iff_toNat_lt, hnew, hcache.size] at hgrow
        omega
      simp only [if_neg hgrow]
      exact h.write_inside ha hat hpatch hend hle

end Write

theorem fsReadSectors_state (s : FsState SectorDisk) (lba : UInt64) (n : UInt32) :
    (fsReadSectors sectorDriver s lba n).2 = s := by
  have hdev : (s.dev.read (s.partitionLba + lba) n).2.2 = s.dev := by
    unfold SectorDisk.read
    split <;> rfl
  simp [fsReadSectors, sectorDriver, hdev]

theorem fsReadBytesLoop_state : ∀ (fuel : Nat) (s : FsState SectorDisk) (off count : UInt64)
    (acc : List UInt8), (fsReadBytesLoop sectorDriver fuel s off count acc).2 = s := by
  intro fuel
  induction fuel with
  | zero =>
    intro s off count acc
    unfold fsReadBytesLoop
    split <;> rfl
  | succ fuel ih =>
    intro s off count acc
    unfold fsReadBytesLoop
    split
    · rfl
    · dsimp only
      split
      · have h := fsReadSectors_state s (byteToSector off) (wholeSectors count)
        generalize fsReadSectors sectorDriver s _ _ = r at h ⊢
        obtain ⟨_ | buf, t⟩ := r
        · exact h
        · rw [show t = s from h]
          exact ih s _ _ _
      · have h := fsReadSectors_state s (byteToSector off) 1
        generalize fsReadSectors sectorDriver s _ _ = r at h ⊢
        obtain ⟨_ | buf, t⟩ := r
        · exact h
        · rw [show t = s from h]
          exact ih s _ _ _

theorem fsRead_state (s : FsState SectorDisk) (fd : Int) (haveBuf : Bool) (off size : UInt64) :
    (fsRead sectorDriver s fd haveBuf off size).2 = s := by
  unfold fsRead
  cases openFd s fd with
  | none => rfl
  | some f =>
    dsimp only
    split
    · rfl
    · split
      · rfl
      · have h := fsReadBytesLoop_state (clampSize (f.fileSize - off) size).toNat s
          (f.startingBlock * bmfsBlockSize + off) (clampSize (f.fileSize - off) size) []
        unfold fsReadBytes
        generalize fsReadBytesLoop sectorDriver _ s _ _ _ = r at h ⊢
        obtain ⟨_ | bytes, t⟩ := r
        · exact h
        · exact h

/-! ## Every call -/

theorem Volume.exec (h : Volume s) (ha : Agrees s a) (op : Op) (hok : OpOk s op) :
    Volume (exec sectorDriver s op).2 ∧
      Agrees (exec sectorDriver s op).2 (a.reply op (exec sectorDriver s op).1) := by
  cases op with
  | create name n =>
    cases name with
    | none => exact ⟨h, ha⟩
    | some name =>
      have heq := DirCall.exec_eq sectorDriver s (.create (some name) n)
      simp only [DirCall.exec, DirCall.pending] at heq
      simp only [Fs.exec, heq]
      cases hp : createPending sectorDriver s name n with
      | none => exact ⟨h, ha⟩
      | some t =>
        obtain ⟨slot, hslot, ht⟩ := createPending_eq_some hp
        obtain ⟨hrun, hc⟩ := hok name rfl (by rw [hslot]; rfl)
        have hon : DirOnDisk t := by
          rw [ht]
          exact h.flushed.onDisk
        simp only [flush_disk hon]
        exact h.create ha hp hrun hc
  | delete name =>
    cases name with
    | none => exact ⟨h, ha⟩
    | some name =>
      have heq := DirCall.exec_eq sectorDriver s (.delete (some name))
      simp only [DirCall.exec, DirCall.pending] at heq
      simp only [Fs.exec, heq]
      cases hp : deletePending sectorDriver s name with
      | none => exact ⟨h, ha⟩
      | some t =>
        obtain ⟨-, idx, -, ht⟩ := deletePending_eq_some hp
        have hon : DirOnDisk t := by
          rw [ht]
          exact h.flushed.onDisk
        simp only [flush_disk hon]
        exact h.delete ha hp
  | «open» name =>
    cases name with
    | none => exact ⟨h, ha⟩
    | some name => exact h.open ha
  | close fd => exact h.close ha
  | read fd haveBuf off size =>
    simp only [Fs.exec, fsRead_state]
    exact ⟨h, ha⟩
  | write fd buf off size => exact h.write ha hok

end Steps

end AlJefra.Kernel.Fs
