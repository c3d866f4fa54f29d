/- What a failed `fs_create` or `fs_delete` leaves behind. -/
import AlJefra.Kernel.FsDirTheorems

namespace AlJefra.Kernel.Fs

open AlJefra.Lib List Option

inductive DirCall where
  | create (name : Option CStr) (reservedBlocks : UInt64)
  | delete (name : Option CStr)

section Calls

variable {σ : Type} (drv : StorageOps σ)

def DirCall.exec (s : FsState σ) : DirCall → Int × FsState σ
  | .create name n => fsCreate drv s name n
  | .delete name => fsDelete drv s name

def createPending (s : FsState σ) (name : CStr) (n : UInt64) : Option (FsState σ) :=
  match fsCreateSlot drv s name with
  | none => none
  | some slot =>
    let startBlock := findFreeBlocks s.dir (atLeastOne n)
    if startBlock = 0 then none
    else some { s with
      dir := placeEntry s.dir slot (newEntry name startBlock (atLeastOne n)) }

def closeIndex (idx : Nat) (f : FsFd) : FsFd :=
  if f.inUse && f.dirIndex == idx then { f with inUse := false } else f

def deletePending (s : FsState σ) (name : CStr) : Option (FsState σ) :=
  if ¬ s.initialized then none
  else if drv.write.isNone then none
  else match dirFind s.dir name with
  | none => none
  | some idx => some { s with
      fds := ⟨s.fds.slots.map (closeIndex idx), by rw [length_map, s.fds.length_slots]⟩
      dir := s.dir.modify idx (BmfsEntry.setFirst bmfsEntryDeleted) }

def DirCall.pending (s : FsState σ) : DirCall → Option (FsState σ)
  | .create (some name) n => createPending drv s name n
  | .delete (some name) => deletePending drv s name
  | .create none _ => none
  | .delete none => none

def flush (t : FsState σ) : Int × FsState σ :=
  if (dirWrite drv t).1 < 0 then (-1, (dirWrite drv t).2) else (0, (dirWrite drv t).2)

theorem DirCall.exec_eq (s : FsState σ) (call : DirCall) :
    call.exec drv s = match call.pending drv s with
      | none => (-1, s)
      | some t => flush drv t := by
  cases call with
  | create name n =>
    cases name with
    | none => rfl
    | some name =>
      simp only [exec, pending, createPending, fsCreate, flush]
      cases fsCreateSlot drv s name with
      | none => rfl
      | some slot => dsimp only; split <;> rfl
  | delete name =>
    cases name with
    | none => rfl
    | some name =>
      simp only [exec, pending, deletePending, fsDelete, flush]
      split
      · rfl
      · split
        · rfl
        · cases dirFind s.dir name with
          | none | some idx => rfl

structure SameView (s s' : FsState σ) : Prop where
  files : fsList s' = fsList s
  usable : ∀ fd, (openFd s' fd).isSome = (openFd s fd).isSome

variable {s t : FsState σ} {name : CStr} {n : UInt64} {call : DirCall}

theorem sameView_of_sameFs {s' : FsState σ} (h : SameFs s s') : SameView s s' := by
  obtain ⟨hdir, hfds, -, hinit⟩ := h
  constructor
  · simp [fsList, hdir, hinit]
  · intro fd
    simp [openFd, hfds, hinit]

variable {drv}

theorem nameMatch_congr {e y : BmfsEntry} (h : y.filename = e.filename) :
    nameMatch name y = nameMatch name e := by
  simp [nameMatch, h]

theorem createPending_eq_some (h : createPending drv s name n = some t) :
    ∃ slot, fsCreateSlot drv s name = some slot ∧ t = { s with
        dir := placeEntry s.dir slot
          (newEntry name (findFreeBlocks s.dir (atLeastOne n)) (atLeastOne n)) } := by
  unfold createPending at h
  split at h
  · cases h
  · rename_i slot hslot
    dsimp only at h
    split at h
    · cases h
    · exact ⟨slot, hslot, (some.inj h).symm⟩

theorem deletePending_eq_some (h : deletePending drv s name = some t) :
    s.initialized = true ∧ ∃ idx, dirFind s.dir name = some idx ∧ t = { s with
        fds := ⟨s.fds.slots.map (closeIndex idx), by rw [length_map, s.fds.length_slots]⟩
        dir := s.dir.modify idx (BmfsEntry.setFirst bmfsEntryDeleted) } := by
  unfold deletePending at h
  split at h
  · cases h
  · rename_i hinit
    split at h
    · cases h
    · split at h
      · cases h
      · rename_i idx hidx
        exact ⟨by simpa using hinit, idx, hidx, (some.inj h).symm⟩

theorem createPending_listed (h : createPending drv s name n = some t) : fsList t ≠ fsList s := by
  obtain ⟨slot, hslot, rfl⟩ := createPending_eq_some h
  obtain ⟨hlen, ⟨c, cs, hcs, hc0, hc1⟩, hnone, hfree⟩ := fsCreateSlot_eq_some drv hslot
  set e := newEntry name (findFreeBlocks s.dir (atLeastOne n)) (atLeastOne n) with he
  have hlive : e.tag = .live := newEntry_live hcs hlen hc0 hc1 _ _
  obtain ⟨pre, x, post, hdir, rfl, -, hpre, -⟩ := dirFindFree_cut hfree
  intro hlist
  have hinit : s.initialized = true := by
    by_contra hno
    simp [fsCreateSlot, hno] at hslot
  simp only [fsList, hinit, if_true, some.injEq] at hlist
  have hmem : (e.filename, e.fileSize) ∈ fsListLoop s.dir.slots := by
    rw [← hlist, fsListLoop_eq, placeEntry_slots hdir, visible_append hpre, visible_cons_live hlive]
    simp
  rw [fsListLoop_eq] at hmem
  obtain ⟨y, hy, hpair⟩ := mem_map.mp hmem
  have hno := find?_eq_none.mp (dirFindLoop_eq_none hnone) y hy
  rw [nameMatch_congr (Prod.mk.inj hpair).1] at hno
  exact hno ((nameMatch_newEntry hlen _ _).mpr rfl)

theorem deletePending_unlisted (h : deletePending drv s name = some t) : fsList t ≠ fsList s := by
  obtain ⟨hinit, idx, hidx, rfl⟩ := deletePending_eq_some h
  obtain ⟨pre, e, post, hold, hnew, -⟩ := visible_delete hidx
  intro hlist
  simp only [fsList, hinit, if_true, some.injEq, fsListLoop_eq, hold, hnew] at hlist
  have hlen := congrArg List.length hlist
  simp only [length_map, length_append, length_cons] at hlen
  omega

theorem pending_frame (h : call.pending drv s = some t) :
    t.dev = s.dev ∧ t.partitionLba = s.partitionLba := by
  cases call with
  | create name n =>
    cases name with
    | none => cases h
    | some name =>
      obtain ⟨slot, -, rfl⟩ := createPending_eq_some h
      exact ⟨rfl, rfl⟩
  | delete name =>
    cases name with
    | none => cases h
    | some name =>
      obtain ⟨-, idx, -, rfl⟩ := deletePending_eq_some h
      exact ⟨rfl, rfl⟩

theorem pending_changes_view (h : call.pending drv s = some t) : fsList t ≠ fsList s := by
  cases call with
  | create name n =>
    cases name with
    | none => cases h
    | some name => exact createPending_listed h
  | delete name =>
    cases name with
    | none => cases h
    | some name => exact deletePending_unlisted h

/-- For every state, driver and call: one that returns -1 leaves files and descriptors as they were
exactly if the driver does not refuse the directory flush. -/
theorem dirCall_failed_unchanged_iff (drv : StorageOps σ) (s : FsState σ) (call : DirCall) :
    ((call.exec drv s).1 = -1 → SameView s (call.exec drv s).2) ↔
      ∀ t ∈ call.pending drv s, 0 ≤ (dirWrite drv t).1 := by
  rw [call.exec_eq drv s]
  cases hp : call.pending drv s with
  | none => simp [sameView_of_sameFs (SameFs.refl s)]
  | some t =>
    simp only [flush, Option.mem_some, forall_eq']
    by_cases hneg : (dirWrite drv t).1 < 0
    · -- the flush fails and what the call changed stays
      rw [if_pos hneg]
      have hview : ¬ SameView s (dirWrite drv t).2 := by
        intro h
        have hfiles := (sameView_of_sameFs (dirWrite_same drv t)).files
        exact pending_changes_view hp (hfiles.symm.trans h.files)
      constructor
      · exact fun h => absurd (h rfl) hview
      · exact fun h => absurd hneg (by omega)
    · rw [if_neg hneg]
      exact ⟨fun _ => by omega, fun _ h => absurd h (by simp)⟩

end Calls

def readOnlyDriver : StorageOps Unit where
  read := nullDriver.read
  write := some (fun _ _ _ _ => (-1, ()))
  read_le := nullDriver.read_le
  write_le := by rintro f hf - - - n; cases hf; dsimp only; omega

/-- Over a driver that refuses writes, `fs_create` returns -1 and the file is there; `fs_delete`
returns -1 and it is gone. -/
theorem dirCall_failed_changes_view :
    let s := mounted emptyDir
    let r := fsCreate readOnlyDriver s (some (byteName 0)) 1
    let opened := (fsOpen r.2 (some (byteName 0))).2
    let r' := fsDelete readOnlyDriver opened (some (byteName 0))
    fsList s = some [] ∧ r.1 = -1 ∧ (fsList r.2).map List.length = some 1 ∧
      (openFd opened 0).isSome ∧ r'.1 = -1 ∧ fsList r'.2 = some [] ∧ openFd r'.2 0 = none := by
  decide +kernel

end AlJefra.Kernel.Fs
