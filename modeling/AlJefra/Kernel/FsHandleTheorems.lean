/- What a descriptor denotes while two clients share the filesystem. -/
import AlJefra.Kernel.FsVolumeTheorems

namespace AlJefra.Kernel.Fs

open AlJefra.Lib List Option

variable {σ : Type}

/-! ## The file behind a descriptor -/

structure FileId where
  dirIndex : Nat
  startingBlock : UInt64
  reservedBlocks : UInt64
  filename : Table UInt8 bmfsMaxFilename
  deriving DecidableEq

def FsFd.fileId (f : FsFd) : FileId :=
  ⟨f.dirIndex, f.startingBlock, f.reservedBlocks, f.filename⟩

def BmfsEntry.fileId (idx : Nat) (e : BmfsEntry) : FileId :=
  ⟨idx, e.startingBlock, e.reservedBlocks, e.filename⟩

def handle (s : FsState σ) (fd : Int) : Option FileId := (openFd s fd).map FsFd.fileId

def fileAt (dir : Table BmfsEntry bmfsMaxFiles) (idx : Nat) : Option FileId :=
  dir.slots[idx]?.map (BmfsEntry.fileId idx)

def fileNamed (s : FsState σ) (name : Option CStr) : Option FileId :=
  (name.bind (dirFind s.dir)).bind (fileAt s.dir)

def Tracked (s : FsState σ) : Prop :=
  ∀ fd id, handle s fd = some id → fileAt s.dir id.dirIndex = some id

structure SameFiles (s t : FsState σ) : Prop where
  handles : ∀ fd, handle t fd = handle s fd
  files : ∀ idx, fileAt t.dir idx = fileAt s.dir idx

theorem SameFiles.trans {s t u : FsState σ} (h : SameFiles s t) (h' : SameFiles t u) :
    SameFiles s u :=
  ⟨fun fd => (h'.handles fd).trans (h.handles fd), fun i => (h'.files i).trans (h.files i)⟩

theorem sameFiles_of_sameFs {s t : FsState σ} (h : SameFs s t) : SameFiles s t := by
  obtain ⟨hdir, hfds, -, hinit⟩ := h
  exact ⟨fun fd => by simp [handle, openFd, hfds, hinit], fun i => by rw [hdir]⟩

theorem Tracked.of_sameFiles {s t : FsState σ} (h : Tracked s) (hst : SameFiles s t) :
    Tracked t := by
  intro fd id hid
  rw [hst.handles] at hid
  rw [hst.files]
  exact h fd id hid

/-! ## Reading and writing -/

theorem sameFiles_resize (s : FsState σ) (i idx : Nat) (n : UInt64) : SameFiles s { s with
      fds := s.fds.modify i (fun f => { f with fileSize := n })
      dir := s.dir.modify idx (BmfsEntry.withSize n) } := by
  constructor
  · intro fd
    unfold handle openFd
    split
    · rfl
    · rw [Table.slots_modify, getElem?_modify]
      cases s.fds.slots[fd.toNat]? with
      | none => simp
      | some f =>
        by_cases hi : i = fd.toNat <;> by_cases hu : f.inUse = true <;>
          simp [hi, hu, Option.filter, FsFd.fileId]
  · intro k
    simp only [fileAt, Table.slots_modify, getElem?_modify]
    cases s.dir.slots[k]? with
    | none => simp
    | some e => by_cases hi : idx = k <;> simp [hi, BmfsEntry.fileId, BmfsEntry.withSize]

theorem sameFiles_fsWrite (drv : StorageOps σ) (s : FsState σ) (fd : Int)
    (buf : Option (List UInt8)) (off size : UInt64) :
    SameFiles s (fsWrite drv s fd buf off size).2 := by
  have hrefl := sameFiles_of_sameFs (SameFs.refl s)
  unfold fsWrite
  split
  · exact hrefl
  · rename_i f _
    split
    · exact hrefl
    · split
      · exact hrefl
      · rename_i data
        split
        · exact hrefl
        · split
          · exact hrefl
          · have h := sameFiles_of_sameFs
              (fsWriteBytes_same drv s data (f.startingBlock * bmfsBlockSize + off) size)
            generalize fsWriteBytes drv s data (f.startingBlock * bmfsBlockSize + off) size
              = r at h ⊢
            obtain ⟨rc, t⟩ := r
            dsimp only at h ⊢
            split
            · exact h
            · unfold recordSize
              split
              · exact (h.trans (sameFiles_resize t fd.toNat f.dirIndex (off + size))).trans
                  (sameFiles_of_sameFs (dirWrite_same drv _))
              · exact h

/-! ## Closing -/

theorem handle_fsClose (s : FsState σ) (fd k : Int) :
    handle (fsClose s fd) k = if k = fd then none else handle s k := by
  unfold fsClose
  by_cases hfd : fd < 0 ∨ (bmfsMaxFiles : Int) ≤ fd
  · rw [if_pos hfd]
    split
    · rename_i hk
      rw [hk, handle, openFd, if_pos (by simp only [hfd, or_true]), map_none]
    · rfl
  · rw [if_neg hfd]
    unfold handle openFd
    by_cases hk : k = fd
    · rw [if_pos hk, hk]
      split
      · rfl
      · rw [Table.slots_modify, getElem?_modify_eq]
        cases s.fds.slots[fd.toNat]? with
        | none | some f => rfl
    · split
      · rfl
      · have hne : fd.toNat ≠ k.toNat := by omega
        rw [Table.slots_modify, getElem?_modify_ne _ _ hne]

/-! ## Two clients -/

inductive Client where
  | first
  | second
  deriving DecidableEq

structure Hold where
  client : Client
  fd : Nat
  file : FileId
  deriving DecidableEq

inductive Event where
  | open (client : Client) (name : Option CStr)
  | read (client : Client) (fd : Int) (haveBuf : Bool) (offset size : UInt64)
  | write (client : Client) (fd : Int) (buf : Option (List UInt8)) (offset size : UInt64)
  | close (client : Client) (fd : Int)
  | delete (name : Option CStr)

structure Session (σ : Type) where
  fs : FsState σ
  holds : List Hold

def released (client : Client) (fd : Int) (holds : List Hold) : List Hold :=
  holds.eraseP fun h => h.client = client ∧ (h.fd : Int) = fd

def Hold.exists (dir : Table BmfsEntry bmfsMaxFiles) (h : Hold) : Bool :=
  dir.slots[h.file.dirIndex]?.any fun e => e.tag ≠ .deleted

def Session.step (drv : StorageOps σ) (s : Session σ) : Event → Session σ
  | .open client name =>
    match fsOpen s.fs name, fileNamed s.fs name with
    | (some fd, fs), some file => ⟨fs, ⟨client, fd, file⟩ :: s.holds⟩
    | (_, fs), _ => ⟨fs, s.holds⟩
  | .read _ fd haveBuf offset size => ⟨(fsRead drv s.fs fd haveBuf offset size).2, s.holds⟩
  | .write _ fd buf offset size => ⟨(fsWrite drv s.fs fd buf offset size).2, s.holds⟩
  | .close client fd => ⟨fsClose s.fs fd, released client fd s.holds⟩
  | .delete name =>
    let fs := (fsDelete drv s.fs name).2
    ⟨fs, s.holds.filter (Hold.exists fs.dir)⟩

/-- A client uses only descriptors that it got and has not closed. -/
def Session.Proper (s : Session σ) : Event → Prop
  | .open _ _ => True
  | .read client fd _ _ _ => ∃ h ∈ s.holds, h.client = client ∧ (h.fd : Int) = fd
  | .write client fd _ _ _ => ∃ h ∈ s.holds, h.client = client ∧ (h.fd : Int) = fd
  | .close client fd => ∃ h ∈ s.holds, h.client = client ∧ (h.fd : Int) = fd
  | .delete _ => True

def Session.Isolated (s : Session σ) : Prop := ∀ h ∈ s.holds, handle s.fs h.fd = some h.file

def Session.ClosesLast (s : Session σ) : Event → Prop
  | .close client fd => ∀ h ∈ released client fd s.holds, (h.fd : Int) ≠ fd
  | _ => True

/-! ## One call -/

structure Session.Intact (s : Session σ) : Prop where
  tracked : Tracked s.fs
  isolated : s.Isolated

variable {s : Session σ}

theorem Session.Intact.of_sameFiles (h : s.Intact) {t : FsState σ} (hst : SameFiles s.fs t) :
    Session.Intact ⟨t, s.holds⟩ :=
  ⟨h.tracked.of_sameFiles hst, fun a ha => (hst.handles a.fd).trans (h.isolated a ha)⟩

theorem intact_open (drv : StorageOps σ) (h : s.Intact) (client : Client) (name : Option CStr) :
    (s.step drv (.open client name)).Intact := by
  have hnone : fsOpen s.fs name = (none, s.fs) → (s.step drv (.open client name)).Intact := by
    intro heq
    simp only [Session.step, heq]
    exact h
  cases name with
  | none => exact hnone rfl
  | some name =>
    by_cases hinit : s.fs.initialized = true
    case neg => exact hnone (by simp [fsOpen, hinit])
    rcases fsOpen_cases s.fs name hinit with heq | ⟨fd, f, hf, hfind, heq⟩ |
      ⟨fd, idx, e, hat, hlt, hfree, hother, heq⟩
    · exact hnone heq
    · -- the file is open already
      have hfile : fileNamed s.fs (some name) = some f.fileId := by
        have hhandle : handle s.fs fd = some f.fileId := by rw [handle, hf, map_some]
        rw [fileNamed, bind_some, hfind, bind_some]
        exact h.tracked fd _ hhandle
      simp only [Session.step, heq, hfile]
      refine ⟨h.tracked, fun a ha => ?_⟩
      rcases mem_cons.mp ha with rfl | ha
      · simp only [handle, hf, map_some]
      · exact h.isolated a ha
    · -- a free slot is taken: no outstanding opening is in it
      have hfile : fileNamed s.fs (some name) = some (e.fileId idx) := by
        rw [fileNamed, bind_some, hat.dirFind, bind_some, fileAt, hat.getElem?, map_some]
      have hhandle : ∀ k : Int, handle (fsOpen s.fs (some name)).2 k =
          if k = fd then some (e.fileId idx) else handle s.fs k := by
        intro k
        rw [heq, handle, openFd_congr hinit hlt (fun j hj => by simp [Ne.symm hj])]
        split
        · simp [s.fs.fds.length_slots, hlt, FsFd.fileId, BmfsEntry.fileId]
        · rfl
      have hdir : (fsOpen s.fs (some name)).2.dir = s.fs.dir := fsOpen_dir s.fs (some name)
      have hfs : s.step drv (.open client (some name)) =
          ⟨(fsOpen s.fs (some name)).2, ⟨client, fd, e.fileId idx⟩ :: s.holds⟩ := by
        simp only [Session.step, heq, hfile]
      rw [hfs]
      constructor
      · intro k id hid
        rw [hhandle] at hid
        rw [hdir]
        split at hid
        · obtain rfl := some.inj hid
          rw [fileAt, BmfsEntry.fileId, hat.getElem?, map_some, BmfsEntry.fileId]
        · exact h.tracked k id hid
      · intro a ha
        rw [hhandle]
        rcases mem_cons.mp ha with rfl | ha
        · rw [if_pos rfl]
        · have hheld := h.isolated a ha
          rw [if_neg, hheld]
          intro hk
          rw [hk, handle, hfree] at hheld
          cases hheld

theorem intact_close (drv : StorageOps σ) (h : s.Intact) {client : Client} {fd : Int}
    (hlast : s.ClosesLast (.close client fd)) : (s.step drv (.close client fd)).Intact := by
  constructor
  · intro k id hid
    simp only [Session.step] at hid ⊢
    rw [handle_fsClose] at hid
    rw [fsClose_dir]
    split at hid
    · cases hid
    · exact h.tracked k id hid
  · intro a ha
    simp only [Session.step] at ha ⊢
    rw [handle_fsClose, if_neg (hlast a ha)]
    exact h.isolated a (mem_of_mem_eraseP ha)

theorem intact_delete (drv : StorageOps σ) (h : s.Intact) (name : Option CStr) :
    (s.step drv (.delete name)).Intact := by
  have hsub : ∀ (t : FsState σ), SameFiles s.fs t →
      Session.Intact ⟨t, s.holds.filter (Hold.exists t.dir)⟩ := by
    intro t hst
    exact ⟨h.tracked.of_sameFiles hst,
      fun a ha => (hst.handles a.fd).trans (h.isolated a (mem_of_mem_filter ha))⟩
  have hexec := DirCall.exec_eq drv s.fs (.delete name)
  simp only [DirCall.exec] at hexec
  simp only [Session.step, hexec]
  cases name with
  | none => exact hsub s.fs (sameFiles_of_sameFs (SameFs.refl _))
  | some name =>
    simp only [DirCall.pending]
    cases hp : deletePending drv s.fs name with
    | none => exact hsub s.fs (sameFiles_of_sameFs (SameFs.refl _))
    | some t =>
      obtain ⟨-, idx, hidx, ht⟩ := deletePending_eq_some hp
      obtain ⟨e, hat⟩ := at_of_dirFind hidx
      have hflush : SameFiles t (flush drv t).2 := by
        unfold flush
        split <;> exact sameFiles_of_sameFs (dirWrite_same drv t)
      have hdir : (flush drv t).2.dir = t.dir := by
        unfold flush
        split <;> exact (dirWrite_same drv t).1
      have hhandle : ∀ k, handle t k = (handle s.fs k).filter fun id => id.dirIndex != idx := by
        intro k
        rw [handle, ht, openFd_closeIndex, handle]
        cases openFd s.fs k with
        | none => rfl
        | some f => by_cases hi : f.dirIndex = idx <;> simp [Option.filter, hi, FsFd.fileId]
      have hfile : ∀ i, i ≠ idx → fileAt t.dir i = fileAt s.fs.dir i := by
        intro i hi
        rw [ht]
        simp only [fileAt, Table.slots_modify, getElem?_modify_ne _ _ (Ne.symm hi)]
      constructor
      · intro k id hid
        rw [hflush.handles, hhandle] at hid
        obtain ⟨hold, hne⟩ := filter_eq_some_iff.mp hid
        rw [hflush.files, hfile _ (by simpa using hne)]
        exact h.tracked k id hold
      · intro a ha
        obtain ⟨hmem, hex⟩ := mem_filter.mp ha
        -- the deleted slot is marked, so an opening that is left is of another file
        have hne : a.file.dirIndex ≠ idx := by
          intro heq
          rw [Hold.exists, hdir, ht, heq] at hex
          simp [Table.slots_modify, hat.getElem?, tag_setFirst_deleted] at hex
        rw [hflush.handles, hhandle, h.isolated a hmem]
        simp [hne]

/-! ## Every interleaving -/

theorem intact_step (drv : StorageOps σ) (s : Session σ) (ev : Event) (h : s.Intact)
    (hev : s.ClosesLast ev) : (s.step drv ev).Intact := by
  cases ev with
  | «open» client name => exact intact_open drv h client name
  | read client fd haveBuf off size =>
    exact h.of_sameFiles (sameFiles_of_sameFs (fsRead_same drv _ fd haveBuf off size))
  | write client fd buf off size => exact h.of_sameFiles (sameFiles_fsWrite drv _ fd buf off size)
  | close client fd => exact intact_close drv h hev
  | delete name => exact intact_delete drv h name

theorem not_isolated_step (drv : StorageOps σ) (s : Session σ) (ev : Event)
    (hev : ¬ s.ClosesLast ev) : ¬ (s.step drv ev).Isolated := by
  cases ev with
  | close client fd =>
    simp only [Session.ClosesLast, not_forall, not_not] at hev
    obtain ⟨a, ha, hfd⟩ := hev
    intro hiso
    have hvalid := hiso a ha
    simp only [Session.step] at hvalid
    rw [hfd, handle_fsClose, if_pos rfl] at hvalid
    cases hvalid
  | «open» client name => exact absurd trivial hev
  | read client fd haveBuf off size => exact absurd trivial hev
  | write client fd buf off size | delete name => exact absurd trivial hev

/-- Every outstanding opening denotes its file exactly if no client closes a descriptor with another
outstanding opening. -/
theorem handles_isolated_iff (drv : StorageOps σ) (s : FsState σ) (hs : Tracked s)
    (events : List Event) :
    (∀ k, (run (Session.step drv) ⟨s, []⟩ (events.take k)).Isolated) ↔
      Steps (Session.step drv) Session.ClosesLast ⟨s, []⟩ events :=
  forall_take_iff_steps (fun _ h => h.isolated) (intact_step drv)
    (fun s ev _ hev => not_isolated_step drv s ev hev) events ⟨s, []⟩
    ⟨hs, fun _ ha => absurd ha not_mem_nil⟩

/-! ## Two files -/

theorem tracked_mounted (dir : Table BmfsEntry bmfsMaxFiles) : Tracked (mounted dir) := by
  intro fd id hid
  obtain ⟨f, hf, -⟩ := map_eq_some_iff.mp hid
  obtain ⟨-, -, hget, huse⟩ := openFd_eq_some hf
  have hmem := mem_of_getElem? hget
  simp only [mounted, Table.ofFn, mem_ofFn] at hmem
  obtain ⟨-, rfl⟩ := hmem
  cases huse

theorem handles_isolated_apart : Tracked (mounted fullDir) ∧
    (run (Session.step nullDriver) ⟨mounted fullDir, []⟩
      [.open .first (some (byteName 0)), .open .second (some (byteName 1)),
        .close .first 0]).Isolated := by
  have hall := (handles_isolated_iff nullDriver (mounted fullDir) (tracked_mounted fullDir)
    [.open .first (some (byteName 0)), .open .second (some (byteName 1)), .close .first 0]).mpr
      ⟨trivial, trivial, by
      unfold Session.ClosesLast
      decide +kernel, trivial⟩
  exact ⟨tracked_mounted fullDir, hall 3⟩

/-- Both clients open a file, the first closes it and opens another: descriptor 0 of the second
changes. -/
theorem handles_not_isolated :
    let events : List Event :=
      [.open .first (some (byteName 0)), .open .second (some (byteName 0)), .close .first 0,
        .open .first (some (byteName 1))]
    let s := run (Session.step nullDriver) ⟨mounted fullDir, []⟩ events
    Steps (Session.step nullDriver) Session.Proper ⟨mounted fullDir, []⟩ events ∧
    (∃ h ∈ s.holds, h.client = .second ∧ h.fd = 0 ∧ h.file.dirIndex = 0 ∧
      (handle s.fs 0).map FileId.dirIndex = some 1) ∧
    ¬ s.Isolated := by
  have hheld : ∃ h ∈ (run (Session.step nullDriver) ⟨mounted fullDir, []⟩
      [.open .first (some (byteName 0)), .open .second (some (byteName 0)), .close .first 0,
        .open .first (some (byteName 1))]).holds,
      h.client = .second ∧ h.fd = 0 ∧ h.file.dirIndex = 0 ∧
      (handle (run (Session.step nullDriver) ⟨mounted fullDir, []⟩
        [.open .first (some (byteName 0)), .open .second (some (byteName 0)), .close .first 0,
        .open .first (some (byteName 1))]).fs 0).map
        FileId.dirIndex = some 1 := by
    decide +kernel
  refine ⟨⟨trivial, trivial, ?_, trivial, trivial⟩, hheld, fun hiso => ?_⟩
  · unfold Session.Proper
    decide +kernel
  · obtain ⟨h, hmem, -, hfd, hidx, hnow⟩ := hheld
    have hvalid := hiso h hmem
    rw [hfd] at hvalid
    rw [Int.natCast_zero] at hvalid
    rw [hvalid, map_some, hidx] at hnow
    cases hnow

end AlJefra.Kernel.Fs
