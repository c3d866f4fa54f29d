/-
Which files a client sees across directory updates. `fs_delete` is exact; `fs_create` is, exactly if
the directory has an end marker or no live entry behind its first deleted slot.
-/
import Mathlib.Data.List.Nodup
import AlJefra.Kernel.Fs

namespace AlJefra.Kernel.Fs

open AlJefra.Lib List
open BmfsEntry (tag)

/-! ## Slots and names -/

variable {e : BmfsEntry} {c : UInt8} {cs : List UInt8} {dir : Table BmfsEntry bmfsMaxFiles}
  {post : List BmfsEntry} {slot : Nat}

theorem tag_eq_fin : e.tag = .fin ↔ e.first = bmfsEntryEnd := by
  unfold tag
  split
  · simp_all
  · split <;> simp_all

theorem tag_eq_deleted : e.tag = .deleted ↔ e.first = bmfsEntryDeleted := by
  unfold tag
  split
  · simp_all [bmfsEntryEnd, bmfsEntryDeleted]
  · split <;> simp_all

theorem tag_eq_live : e.tag = .live ↔ e.first ≠ bmfsEntryEnd ∧ e.first ≠ bmfsEntryDeleted := by
  unfold tag
  split
  · simp_all
  · split <;> simp_all

theorem first_of_slots (h : e.filename.slots = c :: cs) : e.first = c := by
  simp [BmfsEntry.first, Table.get, h]

theorem exists_slots (e : BmfsEntry) : ∃ c cs, e.filename.slots = c :: cs := by
  have hlen := e.filename.length_slots
  cases h : e.filename.slots with
  | nil => rw [h] at hlen; cases hlen
  | cons c cs => exact ⟨c, cs, rfl⟩

theorem first_setFirst (b : UInt8) (e : BmfsEntry) : (e.setFirst b).first = b := by
  obtain ⟨c, cs, hcs⟩ := exists_slots e
  exact first_of_slots
    (show (e.setFirst b).filename.slots = b :: cs by simp [BmfsEntry.setFirst, hcs])

def BmfsEntry.name (e : BmfsEntry) : List UInt8 := e.filename.slots.takeWhile (· != 0)

theorem nameMatchLoop_iff : ∀ (cs es : List UInt8), (0 : UInt8) ∉ cs → (0 : UInt8) ∈ es →
    (nameMatchLoop cs es = true ↔ cs = es.takeWhile (· != 0))
  | _, [], _, h => by cases h
  | [], e :: es, _, _ => by
    by_cases he : e = 0 <;> simp [nameMatchLoop, he]
  | c :: cs, e :: es, hc, he => by
    have hc0 : c ≠ 0 := fun h => hc (h ▸ mem_cons_self)
    have hcs : (0 : UInt8) ∉ cs := fun h => hc (mem_cons_of_mem _ h)
    by_cases hce : c = e
    · subst hce
      have hes : (0 : UInt8) ∈ es := by
        rcases mem_cons.mp he with h | h
        · exact absurd h.symm hc0
        · exact h
      simp [nameMatchLoop, hc0, nameMatchLoop_iff cs es hcs hes]
    · by_cases he0 : e = 0
      · simp [nameMatchLoop, he0, hc0]
      · simp [nameMatchLoop, hce, he0]

theorem nameMatch_iff {name : CStr} (h : (0 : UInt8) ∈ e.filename.slots) :
    nameMatch name e = true ↔ name.bytes = e.name :=
  nameMatchLoop_iff name.bytes e.filename.slots name.noNul h

def BmfsEntry.cstr (e : BmfsEntry) : CStr where
  bytes := e.name
  noNul := by
    intro h
    have := all_takeWhile (p := (· != 0)) (l := e.filename.slots)
    simp only [all_eq_true] at this
    simpa using this 0 h

theorem CStr.ext' {a b : CStr} (h : a.bytes = b.bytes) : a = b := by
  cases a; cases b; simp_all

/-! ## What the loops compute -/

theorem loop_eq_map_visible {β : Type} {loop : List BmfsEntry → List β} (f : BmfsEntry → β)
    (hnil : loop [] = []) (hcons : ∀ e es, loop (e :: es) = if e.first = bmfsEntryEnd then []
      else if e.first = bmfsEntryDeleted then loop es else f e :: loop es) :
    ∀ es, loop es = (visible tag es).map f
  | [] => hnil
  | e :: es => by
    rw [hcons]
    split
    · next h => rw [visible_cons_fin (tag_eq_fin.mpr h), map_nil]
    · next h1 =>
      split
      · next h2 =>
        rw [visible_cons_deleted (tag_eq_deleted.mpr h2)]
        exact loop_eq_map_visible f hnil hcons es
      · next h2 =>
        rw [visible_cons_live (tag_eq_live.mpr ⟨h1, h2⟩), map_cons,
          loop_eq_map_visible f hnil hcons es]

theorem fsListLoop_eq : ∀ es : List BmfsEntry,
    fsListLoop es = (visible tag es).map (fun e => (e.filename, e.fileSize)) :=
  loop_eq_map_visible _ rfl fun _ _ => rfl

theorem dirFindFreeLoop_eq : ∀ (es : List BmfsEntry) (i : Nat),
    dirFindFreeLoop i es = (firstFree tag es).map (i + ·)
  | [], i => by simp [dirFindFreeLoop, firstFree]
  | e :: es, i => by
    by_cases hlive : e.tag = .live
    · obtain ⟨h1, h2⟩ := tag_eq_live.mp hlive
      simp only [dirFindFreeLoop, h1, h2, if_false, firstFree, hlive, if_true,
        dirFindFreeLoop_eq es (i + 1), Option.map_map]
      congr 1
      funext k
      simp only [Function.comp_apply]
      omega
    · have h : e.first = bmfsEntryDeleted ∨ e.first = bmfsEntryEnd := by
        by_contra hc
        exact hlive (tag_eq_live.mpr ⟨fun h => hc (Or.inr h), fun h => hc (Or.inl h)⟩)
      rcases h with h | h <;> simp [dirFindFreeLoop, firstFree, hlive, h]

theorem dirFindFree_eq (dir : Table BmfsEntry bmfsMaxFiles) :
    dirFindFree dir = firstFree tag dir.slots := by
  simp [dirFindFree, dirFindFreeLoop_eq]

theorem dirFindLoop_eq_some {name : CStr} : ∀ {es : List BmfsEntry} {i k : Nat},
    dirFindLoop name i es = some k →
    ∃ pre e post, es = pre ++ e :: post ∧ k = i + pre.length ∧ (∀ y ∈ pre, y.tag ≠ .fin) ∧
      e.tag = .live ∧ nameMatch name e = true ∧
      (visible tag es).find? (nameMatch name) = some e
  | [], i, k, h => by simp [dirFindLoop] at h
  | e :: es, i, k, h => by
    by_cases h1 : e.first = bmfsEntryEnd
    · simp [dirFindLoop, h1] at h
    · have hfin : e.tag ≠ .fin := fun hc => h1 (tag_eq_fin.mp hc)
      -- the slot is passed over: the result comes from the rest
      have hskip : dirFindLoop name (i + 1) es = some k →
          (visible tag (e :: es)).find? (nameMatch name) = (visible tag es).find? (nameMatch name) →
          ∃ pre e' post, e :: es = pre ++ e' :: post ∧ k = i + pre.length ∧
            (∀ y ∈ pre, y.tag ≠ .fin) ∧ e'.tag = .live ∧ nameMatch name e' = true ∧
            (visible tag (e :: es)).find? (nameMatch name) = some e' := by
        intro hrec hvis
        obtain ⟨pre, e', post, rfl, hk, hpre, hlive, hm, hfind⟩ := dirFindLoop_eq_some hrec
        refine ⟨e :: pre, e', post, rfl, by simp; omega, ?_, hlive, hm, hvis.trans hfind⟩
        intro y hy
        rcases mem_cons.mp hy with rfl | hy
        · exact hfin
        · exact hpre y hy
      by_cases h2 : e.first = bmfsEntryDeleted
      · simp only [dirFindLoop, h2, if_true] at h
        exact hskip (by simpa [bmfsEntryEnd, bmfsEntryDeleted] using h)
          (by rw [visible_cons_deleted (tag_eq_deleted.mpr h2)])
      · have hlive : e.tag = .live := tag_eq_live.mpr ⟨h1, h2⟩
        by_cases hm : nameMatch name e = true
        · simp only [dirFindLoop, h1, h2, hm, if_true, if_false, Option.some.injEq] at h
          exact ⟨[], e, es, rfl, by simp [h], by simp, hlive, hm,
            by rw [visible_cons_live hlive]; simp [hm]⟩
        · simp only [dirFindLoop, h1, h2, hm, if_false] at h
          exact hskip h (by rw [visible_cons_live hlive]; simp [hm])

theorem dirFindLoop_eq_none {name : CStr} : ∀ {es : List BmfsEntry} {i : Nat},
    dirFindLoop name i es = none →
    (visible tag es).find? (nameMatch name) = none
  | [], _, _ => rfl
  | e :: es, i, h => by
    by_cases h1 : e.first = bmfsEntryEnd
    · rw [visible_cons_fin (tag_eq_fin.mpr h1)]; rfl
    · by_cases h2 : e.first = bmfsEntryDeleted
      · rw [visible_cons_deleted (tag_eq_deleted.mpr h2)]
        simp only [dirFindLoop, h2, if_true] at h
        exact dirFindLoop_eq_none (by simpa [bmfsEntryEnd, bmfsEntryDeleted] using h)
      · rw [visible_cons_live (tag_eq_live.mpr ⟨h1, h2⟩)]
        by_cases hm : nameMatch name e = true
        · simp [dirFindLoop, h1, h2, hm] at h
        · simp only [dirFindLoop, h1, h2, hm, if_false] at h
          simp [hm, dirFindLoop_eq_none h]

def lookup (dir : Table BmfsEntry bmfsMaxFiles) (name : CStr) : Option BmfsEntry :=
  (dirFind dir name).bind (dir.slots[·]?)

theorem lookup_eq_find (dir : Table BmfsEntry bmfsMaxFiles) (name : CStr) :
    lookup dir name = (visible tag dir.slots).find? (nameMatch name) := by
  unfold lookup dirFind
  cases h : dirFindLoop name 0 dir.slots with
  | none => rw [dirFindLoop_eq_none h]; rfl
  | some k =>
    obtain ⟨pre, e, post, hes, hk, -, -, -, hfind⟩ := dirFindLoop_eq_some h
    rw [hfind, hes, hk]
    simp

/-! ## Frame lemmas: what each call leaves alone -/

section Frame

variable {σ : Type}

def SameFs (s s' : FsState σ) : Prop :=
  s'.dir = s.dir ∧ s'.fds = s.fds ∧ s'.partitionLba = s.partitionLba ∧
    s'.initialized = s.initialized

theorem SameFs.refl (s : FsState σ) : SameFs s s := ⟨rfl, rfl, rfl, rfl⟩

theorem SameFs.trans {s t u : FsState σ} (h : SameFs s t) (h' : SameFs t u) : SameFs s u :=
  ⟨h'.1.trans h.1, h'.2.1.trans h.2.1, h'.2.2.1.trans h.2.2.1, h'.2.2.2.trans h.2.2.2⟩

variable (drv : StorageOps σ)

theorem fsReadSectors_same (s : FsState σ) (lba : UInt64) (n : UInt32) :
    SameFs s (fsReadSectors drv s lba n).2 := by
  unfold fsReadSectors
  split <;> exact SameFs.refl _

theorem fsWriteSectors_same (s : FsState σ) (buf : List UInt8) (lba : UInt64) (n : UInt32) :
    SameFs s (fsWriteSectors drv s buf lba n).2 := by
  unfold fsWriteSectors
  split <;> exact SameFs.refl _

theorem dirWrite_same (s : FsState σ) : SameFs s (dirWrite drv s).2 :=
  fsWriteSectors_same drv s _ _ _

structure Frame (R : FsState σ → FsState σ → Prop) : Prop where
  refl : ∀ s, R s s
  trans : ∀ {s t u}, R s t → R t u → R s u
  read : ∀ s lba n, R s (fsReadSectors drv s lba n).2
  write : ∀ s buf lba n, R s (fsWriteSectors drv s buf lba n).2

section Loops

variable {drv} {R : FsState σ → FsState σ → Prop}

theorem Frame.readLoop (h : Frame drv R) : ∀ (fuel : Nat) (s : FsState σ) (off count : UInt64)
    (acc : List UInt8), R s (fsReadBytesLoop drv fuel s off count acc).2 := by
  intro fuel
  induction fuel with
  | zero =>
    intro s off count acc
    unfold fsReadBytesLoop
    split <;> exact h.refl s
  | succ fuel ih =>
    intro s off count acc
    -- either chunk is one sector read followed by the rest of the loop
    unfold fsReadBytesLoop
    split
    · exact h.refl s
    · dsimp only
      split
      · have hread := h.read s (byteToSector off) (wholeSectors count)
        generalize fsReadSectors drv s (byteToSector off) (wholeSectors count) = r at hread ⊢
        rcases r with ⟨_ | buf, t⟩
        · exact hread
        · exact h.trans hread (ih _ _ _ _)
      · have hread := h.read s (byteToSector off) 1
        generalize fsReadSectors drv s (byteToSector off) 1 = r at hread ⊢
        rcases r with ⟨_ | buf, t⟩
        · exact hread
        · exact h.trans hread (ih _ _ _ _)

theorem Frame.writeLoop (h : Frame drv R) : ∀ (fuel : Nat) (s : FsState σ) (src : List UInt8)
    (off count : UInt64), R s (fsWriteBytesLoop drv fuel s src off count).2 := by
  intro fuel
  induction fuel with
  | zero =>
    intro s src off count
    unfold fsWriteBytesLoop
    split <;> exact h.refl s
  | succ fuel ih =>
    intro s src off count
    unfold fsWriteBytesLoop
    split
    · exact h.refl s
    · dsimp only
      split
      · -- whole sectors, straight from the source buffer
        split
        · exact h.write s _ _ _
        · exact h.trans (h.write s _ _ _) (ih _ _ _ _)
      · -- one partial sector, read first
        have hread := h.read s (byteToSector off) 1
        generalize fsReadSectors drv s (byteToSector off) 1 = r at hread ⊢
        rcases r with ⟨_ | buf, t⟩
        · exact hread
        · dsimp only at hread ⊢
          split
          · exact h.trans hread (h.write t _ _ _)
          · exact h.trans (h.trans hread (h.write t _ _ _)) (ih _ _ _ _)

theorem Frame.fsWrite (h : Frame drv R)
    (htables : ∀ s fds dir, R s { s with fds := fds, dir := dir })
    (s : FsState σ) (fd : Int) (buf : Option (List UInt8)) (off size : UInt64) :
    R s (fsWrite drv s fd buf off size).2 := by
  unfold Fs.fsWrite
  cases openFd s fd with
  | none => exact h.refl s
  | some f =>
    dsimp only
    split
    · exact h.refl s
    · cases buf with
      | none => exact h.refl s
      | some b =>
        have hbytes := h.writeLoop size.toNat s b (f.startingBlock * bmfsBlockSize + off) size
        dsimp only
        split
        · exact h.refl s
        · split
          · exact h.refl s
          · split
            · exact hbytes
            · unfold recordSize
              split
              · exact h.trans hbytes (h.trans (htables _ _ _) (h.write _ _ _ _))
              · exact hbytes

end Loops

theorem frame_sameFs : Frame drv (@SameFs σ) where
  refl := SameFs.refl
  trans := SameFs.trans
  read := fsReadSectors_same drv
  write := fsWriteSectors_same drv

theorem fsWriteBytes_same (s : FsState σ) (buf : List UInt8) (off count : UInt64) :
    SameFs s (fsWriteBytes drv s buf off count).2 := by
  exact (frame_sameFs drv).writeLoop _ s buf off count

theorem fsRead_same (s : FsState σ) (fd : Int) (haveBuf : Bool) (off size : UInt64) :
    SameFs s (fsRead drv s fd haveBuf off size).2 := by
  unfold fsRead
  split
  · exact SameFs.refl s
  · rename_i f _
    split
    · exact SameFs.refl s
    · split
      · exact SameFs.refl s
      · dsimp only
        have h := (frame_sameFs drv).readLoop (clampSize (f.fileSize - off) size).toNat s
          (f.startingBlock * bmfsBlockSize + off) (clampSize (f.fileSize - off) size) []
        unfold fsReadBytes
        generalize fsReadBytesLoop drv _ s _ _ _ = r at h ⊢
        rcases r with ⟨_ | bytes, t⟩ <;> exact h

theorem recordSize_dir (s : FsState σ) (fd : Int) (f : FsFd) (newEnd : UInt64) :
    (recordSize drv s fd f newEnd).dir = s.dir ∨ (recordSize drv s fd f newEnd).dir
        = s.dir.modify f.dirIndex (BmfsEntry.withSize newEnd) := by
  unfold recordSize
  split
  · exact Or.inr (dirWrite_same drv _).1
  · exact Or.inl rfl

theorem fsWrite_dir (s : FsState σ) (fd : Int) (buf : Option (List UInt8)) (off size : UInt64) :
    (fsWrite drv s fd buf off size).2.dir = s.dir ∨
      ∃ f n, openFd s fd = some f ∧ (fsWrite drv s fd buf off size).2.dir
        = s.dir.modify f.dirIndex (BmfsEntry.withSize n) := by
  unfold fsWrite
  split
  · exact Or.inl rfl
  · rename_i f hopen
    split
    · exact Or.inl rfl
    · split
      · exact Or.inl rfl
      · rename_i data
        split
        · exact Or.inl rfl
        · split
          · exact Or.inl rfl
          · have h := fsWriteBytes_same drv s data (f.startingBlock * bmfsBlockSize + off) size
            rw [← h.1]
            dsimp only
            split
            · exact Or.inl rfl
            · exact (recordSize_dir drv _ fd f (off + size)).imp_right (fun h => ⟨f, _, hopen, h⟩)

theorem fsOpen_dir (s : FsState σ) (name : Option CStr) : (fsOpen s name).2.dir = s.dir := by
  unfold fsOpen
  split
  · rfl
  · split
    · rfl
    · split
      · rfl
      · split
        · rfl
        · split <;> rfl

theorem fsClose_dir (s : FsState σ) (fd : Int) : (fsClose s fd).dir = s.dir := by
  unfold fsClose
  split <;> rfl

theorem fsCreateSlot_eq_some {s : FsState σ} {name : CStr} {slot : Nat}
    (h : fsCreateSlot drv s name = some slot) :
    name.bytes.length < bmfsMaxFilename ∧
      (∃ c cs, name.bytes = c :: cs ∧ c ≠ bmfsEntryEnd ∧ c ≠ bmfsEntryDeleted) ∧
      dirFind s.dir name = none ∧ dirFindFree s.dir = some slot := by
  unfold fsCreateSlot at h
  split at h
  · cases h
  · split at h
    · cases h
    · split at h
      · cases h
      · split at h
        · cases h
        · rename_i c cs hname
          split at h
          · cases h
          · rename_i hc
            split at h
            · cases h
            · rename_i hfind
              push Not at hc
              exact ⟨by omega, ⟨c, cs, hname, hc⟩, by simpa using hfind, h⟩

theorem fsCreate_cases (s : FsState σ) (name : Option CStr) (n : UInt64) :
    fsCreate drv s name n = (-1, s) ∨
      ∃ nm slot b, name = some nm ∧ fsCreateSlot drv s nm = some slot ∧
        b = findFreeBlocks s.dir (atLeastOne n) ∧ b ≠ 0 ∧
        (fsCreate drv s name n).2.dir = placeEntry s.dir slot (newEntry nm b (atLeastOne n)) ∧
        (fsCreate drv s name n).2.fds = s.fds := by
  unfold fsCreate
  split
  · exact Or.inl rfl
  · rename_i nm
    split
    · exact Or.inl rfl
    · rename_i slot hslot
      dsimp only
      split
      · exact Or.inl rfl
      · rename_i hb
        refine Or.inr ⟨nm, slot, _, rfl, hslot, rfl, hb, ?_⟩
        split <;> exact ⟨(dirWrite_same drv _).1, (dirWrite_same drv _).2.1⟩

theorem fsDelete_cases (s : FsState σ) (name : Option CStr) : fsDelete drv s name = (-1, s) ∨
      ∃ nm idx, name = some nm ∧ dirFind s.dir nm = some idx ∧ (fsDelete drv s name).2.dir
          = s.dir.modify idx (BmfsEntry.setFirst bmfsEntryDeleted) := by
  unfold fsDelete
  split
  · exact Or.inl rfl
  · rename_i nm
    split
    · exact Or.inl rfl
    · split
      · exact Or.inl rfl
      · split
        · exact Or.inl rfl
        · rename_i idx hidx
          refine Or.inr ⟨nm, idx, rfl, hidx, ?_⟩
          dsimp only
          split <;> exact (dirWrite_same drv _).1

end Frame

/-! ## Storing an entry -/

def closeTail : List BmfsEntry → List BmfsEntry
  | [] => []
  | y :: ys =>
    if (y :: ys).any (fun e => e.first = bmfsEntryEnd) then y :: ys
    else y.setFirst bmfsEntryEnd :: ys

theorem placeEntry_slots {pre : List BmfsEntry} {x : BmfsEntry} (h : dir.slots = pre ++ x :: post)
    (e : BmfsEntry) : (placeEntry dir pre.length e).slots = pre ++ e :: closeTail post := by
  have hlen : pre.length + 1 + post.length = bmfsMaxFiles := by
    have := dir.length_slots
    rw [h] at this
    simp only [length_append, length_cons] at this
    omega
  have hset : (dir.set pre.length e).slots = pre ++ e :: post := by
    simp [h]
  have hdrop : (pre ++ e :: post).drop (pre.length + 1) = post := by
    simp
  unfold placeEntry
  simp only [hset, hdrop]
  cases post with
  | nil =>
    have : ¬ (pre.length + 1 < bmfsMaxFiles) := by simp at hlen; omega
    simp [this, closeTail, h]
  | cons y ys =>
    have hlt : pre.length + 1 < bmfsMaxFiles := by simp at hlen; omega
    by_cases hend : (y :: ys).any (fun e => e.first = bmfsEntryEnd) = true
    · simp only [hend, closeTail, if_true, Bool.not_true, Bool.false_eq_true, false_and, if_false]
      exact hset
    · simp only [hend, hlt, closeTail, Bool.not_false, and_self, if_true, Table.slots_modify, hset]
      have := modify_append_cons (pre ++ [e]) y ys (BmfsEntry.setFirst bmfsEntryEnd)
      simpa using this

theorem closeTail_of_fin (h : ∃ y ∈ post, y.tag = .fin) : closeTail post = post := by
  obtain ⟨y, hy, hfin⟩ := h
  cases post with
  | nil => cases hy
  | cons z zs =>
    have : (z :: zs).any (fun e => e.first = bmfsEntryEnd) = true :=
      any_eq_true.mpr ⟨y, hy, by simpa using tag_eq_fin.mp hfin⟩
    simp [closeTail, this]

theorem closeTail_of_not_fin {y : BmfsEntry} {ys : List BmfsEntry}
    (h : ∀ z ∈ y :: ys, z.tag ≠ .fin) :
    closeTail (y :: ys) = y.setFirst bmfsEntryEnd :: ys := by
  have : ¬ (y :: ys).any (fun e => e.first = bmfsEntryEnd) = true := by
    intro hany
    obtain ⟨z, hz, hfin⟩ := any_eq_true.mp hany
    exact h z hz (tag_eq_fin.mpr (by simpa using hfin))
  rw [closeTail, if_neg this]

theorem tag_setFirst_end (y : BmfsEntry) : (y.setFirst bmfsEntryEnd).tag = .fin :=
  tag_eq_fin.mpr (first_setFirst _ _)

theorem tag_setFirst_deleted (y : BmfsEntry) : (y.setFirst bmfsEntryDeleted).tag = .deleted :=
  tag_eq_deleted.mpr (first_setFirst _ _)

theorem visible_closeTail_of_not_fin (h : ∀ z ∈ post, z.tag ≠ .fin) :
    visible tag (closeTail post) = [] := by
  cases post with
  | nil => rfl
  | cons y ys => rw [closeTail_of_not_fin h, visible_cons_fin (tag_setFirst_end y)]

theorem tailShape_closeTail (h : (∀ y ∈ post, y.tag ≠ .fin) ∨ TailShape tag post) :
    TailShape tag (closeTail post) := by
  by_cases hfin : ∃ y ∈ post, y.tag = .fin
  · rw [closeTail_of_fin hfin]
    obtain ⟨y, hy, hy'⟩ := hfin
    exact h.resolve_left (fun hn => hn y hy hy')
  · push Not at hfin
    cases post with
    | nil => trivial
    | cons y ys =>
      rw [closeTail_of_not_fin hfin, tailShape_cons_fin (tag_setFirst_end y)]
      exact Or.inr (fun z hz => hfin z (mem_cons_of_mem _ hz))

/-- No end marker anywhere, and a live file behind the first deleted slot. -/
def Clobbers (dir : Table BmfsEntry bmfsMaxFiles) : Prop :=
  (∀ e ∈ dir.slots, e.tag ≠ .fin) ∧
    ∃ k ∈ dirFindFree dir, ∃ e ∈ dir.slots.drop (k + 1), e.tag = .live

def Reveals (dir : Table BmfsEntry bmfsMaxFiles) : Prop :=
  ∃ k ∈ dirFindFree dir, (∃ e ∈ dir.slots[k]?, e.tag = .fin) ∧
    (∃ e ∈ dir.slots.drop (k + 1), e.tag = .fin) ∧
    visible tag (dir.slots.drop (k + 1)) ≠ []

theorem dirFindFree_cut (h : dirFindFree dir = some slot) :
    ∃ pre x post, dir.slots = pre ++ x :: post ∧ pre.length = slot ∧
      (∀ y ∈ pre, y.tag = .live) ∧ (∀ y ∈ pre, y.tag ≠ .fin) ∧ x.tag ≠ .live := by
  obtain ⟨pre, x, post, hdir, hlen, hpre, hx⟩ := firstFree_eq_some (dirFindFree_eq dir ▸ h)
  exact ⟨pre, x, post, hdir, hlen, hpre, fun y hy => by simp [hpre y hy], hx⟩

theorem not_reveals_of_tailShape (h : TailShape tag dir.slots) : ¬ Reveals dir := by
  rintro ⟨k, hk, ⟨x', hx', hfin⟩, ⟨y, hy, hyfin⟩, hvis⟩
  obtain ⟨pre, x, post, hdir, rfl, -, hpre, -⟩ := dirFindFree_cut hk
  obtain rfl : x = x' := by simpa [hdir] using hx'
  have hdrop : dir.slots.drop (pre.length + 1) = post := by simp [hdir]
  rw [hdrop] at hy hvis
  rw [hdir, tailShape_append hpre, tailShape_cons_fin hfin] at h
  rcases h with hall | hnone
  · exact hvis (visible_of_fin hall)
  · exact hnone y hy hyfin

theorem tailShape_placeEntry (hshape : TailShape tag dir.slots)
    (hslot : dirFindFree dir = some slot) (he : e.tag = .live) :
    TailShape tag (placeEntry dir slot e).slots := by
  obtain ⟨pre, x, post, hdir, rfl, -, hpre, -⟩ := dirFindFree_cut hslot
  rw [placeEntry_slots hdir e, tailShape_append hpre, tailShape_cons (by simp [he])]
  rw [hdir, tailShape_append hpre] at hshape
  by_cases htag : x.tag = .fin
  · rw [tailShape_cons_fin htag] at hshape
    exact tailShape_closeTail (hshape.symm.imp_right tailShape_of_fin)
  · rw [tailShape_cons htag] at hshape
    exact tailShape_closeTail (Or.inr hshape)

theorem visible_placeEntry (hrev : ¬ Reveals dir) (hslot : dirFindFree dir = some slot)
    (he : e.tag = .live) :
    ∃ pre w w', visible tag dir.slots = pre ++ w ∧
      visible tag (placeEntry dir slot e).slots = pre ++ e :: w' ∧
      (¬ Clobbers dir → w' = w) ∧ (Clobbers dir → w ≠ [] ∧ w' = []) := by
  obtain ⟨pre, x, post, hdir, rfl, hlive, hpre, hx⟩ := dirFindFree_cut hslot
  have hdrop : dir.slots.drop (pre.length + 1) = post := by simp [hdir]
  rw [placeEntry_slots hdir e, hdir, visible_append hpre, visible_append hpre,
    visible_of_live hlive, visible_cons_live he]
  cases htag : x.tag with
  | live => exact absurd htag hx
  | fin =>
    -- the end marker itself is taken: nothing was visible behind it
    have hno : ¬ Clobbers dir := fun h => h.1 x (by simp [hdir]) htag
    refine ⟨pre, [], _, by rw [visible_cons_fin htag], rfl, fun _ => ?_, fun h => absurd h hno⟩
    by_cases hfin : ∃ y ∈ post, y.tag = .fin
    · rw [closeTail_of_fin hfin]
      by_contra hvis
      exact hrev ⟨pre.length, hslot, ⟨x, by simp [hdir], htag⟩, hdrop ▸ hfin, hdrop ▸ hvis⟩
    · push Not at hfin
      exact visible_closeTail_of_not_fin hfin
  | deleted =>
    have hx' : x.tag ≠ .fin := by simp [htag]
    rw [visible_cons_deleted htag]
    refine ⟨pre, _, _, rfl, rfl, ?_⟩
    by_cases hfin : ∃ y ∈ post, y.tag = .fin
    · -- an end marker stands further down
      obtain ⟨y, hy, hyfin⟩ := hfin
      have hno : ¬ Clobbers dir := fun h => h.1 y (by simp [hdir, hy]) hyfin
      rw [closeTail_of_fin ⟨y, hy, hyfin⟩]
      exact ⟨fun _ => rfl, fun h => absurd h hno⟩
    · -- no end marker at all: the next slot becomes one
      push Not at hfin
      have hall : ∀ y ∈ dir.slots, y.tag ≠ .fin := by
        rw [hdir]
        intro y hy
        rcases mem_append.mp hy with hy | hy
        · exact hpre y hy
        · rcases mem_cons.mp hy with rfl | hy
          · exact hx'
          · exact hfin y hy
      have hiff : Clobbers dir ↔ visible tag post ≠ [] := by
        rw [Ne, visible_eq_nil_iff hfin]
        push Not
        constructor
        · rintro ⟨-, k, hk, y, hy, hlive⟩
          obtain rfl : pre.length = k := Option.some.inj (hslot.symm.trans hk)
          exact ⟨y, hdrop ▸ hy, hlive⟩
        · rintro ⟨y, hy, hlive⟩
          exact ⟨hall, pre.length, hslot, y, hdrop ▸ hy, hlive⟩
      rw [visible_closeTail_of_not_fin hfin, hiff]
      exact ⟨fun h => (not_not.mp h).symm, fun h => ⟨h, rfl⟩⟩

theorem visible_placeEntry_sublist (hrev : ¬ Reveals dir) (hslot : dirFindFree dir = some slot)
    (he : e.tag = .live) :
    ∃ pre w, visible tag dir.slots = pre ++ w ∧
      (visible tag (placeEntry dir slot e).slots).Sublist (pre ++ e :: w) := by
  obtain ⟨pre, w, w', hold, hnew, hkeep, hlost⟩ := visible_placeEntry hrev hslot he
  refine ⟨pre, w, hold, ?_⟩
  rw [hnew]
  by_cases hc : Clobbers dir
  · rw [(hlost hc).2]
    exact (List.Sublist.refl pre).append ((nil_sublist w).cons_cons e)
  · rw [hkeep hc]

/-! ## The entry `fs_create` stores -/

theorem newEntry_slots {name : CStr} (h : name.bytes.length ≤ bmfsMaxFilename) (b n : UInt64) :
    (newEntry name b n).filename.slots
      = name.bytes ++ List.replicate (bmfsMaxFilename - name.bytes.length) 0 := by
  apply ext_getElem
  · simp only [newEntry, Table.ofFn, length_ofFn, length_append, length_replicate]
    omega
  · intro i h1 h2
    simp only [newEntry, Table.ofFn, List.getElem_ofFn, getElem_append,
      getElem_replicate, getD_eq_getElem?_getD]
    split
    · rename_i hi
      rw [getElem?_eq_getElem hi, Option.getD_some]
    · rw [getElem?_eq_none (by omega), Option.getD_none]

section

variable {name : CStr} (h : name.bytes.length < bmfsMaxFilename) (b n : UInt64)
include h

theorem newEntry_terminated : (0 : UInt8) ∈ (newEntry name b n).filename.slots := by
  rw [newEntry_slots (by omega)]
  refine mem_append_right _ (mem_replicate.mpr ⟨by omega, rfl⟩)

theorem newEntry_name : (newEntry name b n).name = name.bytes := by
  unfold BmfsEntry.name
  rw [newEntry_slots (by omega), takeWhile_append_of_pos]
  · simp
  · intro c hc
    simpa using fun h0 : c = 0 => name.noNul (h0 ▸ hc)

theorem nameMatch_newEntry {other : CStr} :
    nameMatch other (newEntry name b n) = true ↔ other = name := by
  rw [nameMatch_iff (newEntry_terminated h b n), newEntry_name h]
  exact ⟨CStr.ext', fun h => h ▸ rfl⟩

end

theorem newEntry_live {name : CStr} (hname : name.bytes = c :: cs)
    (h : name.bytes.length < bmfsMaxFilename) (h0 : c ≠ bmfsEntryEnd) (h1 : c ≠ bmfsEntryDeleted)
    (b n : UInt64) : (newEntry name b n).tag = .live := by
  have hslots := newEntry_slots (Nat.le_of_lt h) b n
  rw [hname] at hslots
  rw [tag_eq_live, first_of_slots hslots]
  exact ⟨h0, h1⟩

/-! ## The invariant of reachable directories -/

def names (dir : Table BmfsEntry bmfsMaxFiles) : List (List UInt8) :=
  (visible tag dir.slots).map (·.filename.slots)

/-- Behind the first end marker all slots are end markers or none is; visible names are distinct. -/
structure WellFormed (dir : Table BmfsEntry bmfsMaxFiles) : Prop where
  tail : TailShape tag dir.slots
  terminated : ∀ n ∈ names dir, (0 : UInt8) ∈ n
  distinct : ((names dir).map (List.takeWhile (· != 0))).Nodup

theorem WellFormed.mem_terminated (h : WellFormed dir) (he : e ∈ visible tag dir.slots) :
    (0 : UInt8) ∈ e.filename.slots :=
  h.terminated _ (mem_map_of_mem he)

theorem WellFormed.nodup_name (h : WellFormed dir) :
    ((visible tag dir.slots).map BmfsEntry.name).Nodup := by
  have := h.distinct
  rwa [names, map_map] at this

theorem WellFormed.of_sublist {vs : List BmfsEntry} (htail : TailShape tag dir.slots)
    (hsub : (visible tag dir.slots).Sublist vs)
    (hterm : ∀ e ∈ vs, (0 : UInt8) ∈ e.filename.slots) (hnodup : (vs.map BmfsEntry.name).Nodup) :
    WellFormed dir where
  tail := htail
  terminated := by
    intro n hn
    obtain ⟨e, he, rfl⟩ := mem_map.mp hn
    exact hterm e (hsub.subset he)
  distinct := by
    rw [names, map_map]
    exact hnodup.sublist (hsub.map _)

theorem WellFormed.name_not_mem (h : WellFormed dir) {name : CStr} (hnone : dirFind dir name = none)
    : name.bytes ∉ (visible tag dir.slots).map BmfsEntry.name := by
  intro hmem
  obtain ⟨e, he, heq⟩ := mem_map.mp hmem
  have hno := find?_eq_none.mp (dirFindLoop_eq_none hnone) e he
  exact hno ((nameMatch_iff (h.mem_terminated he)).mpr heq.symm)

theorem visible_delete {name : CStr} {idx : Nat} (h : dirFind dir name = some idx) :
    ∃ pre e post, visible tag dir.slots = pre ++ e :: post ∧
      visible tag (dir.modify idx (BmfsEntry.setFirst bmfsEntryDeleted)).slots = pre ++ post ∧
      nameMatch name e = true ∧ lookup dir name = some e ∧
      (TailShape tag dir.slots → TailShape tag
          (dir.modify idx (BmfsEntry.setFirst bmfsEntryDeleted)).slots) := by
  obtain ⟨pre, e, post, hdir, hidx, hpre, hlive, hmatch, hfind⟩ := dirFindLoop_eq_some h
  obtain rfl : idx = pre.length := by omega
  have hdel := tag_setFirst_deleted e
  have hdel' : (e.setFirst bmfsEntryDeleted).tag ≠ .fin := by simp [hdel]
  have hlive' : e.tag ≠ .fin := by simp [hlive]
  refine ⟨visible tag pre, e, visible tag post, ?_, ?_, hmatch,
    (lookup_eq_find dir name).trans hfind, ?_⟩
  · rw [hdir, visible_append hpre, visible_cons_live hlive]
  · rw [Table.slots_modify, hdir, modify_append_cons, visible_append hpre,
      visible_cons_deleted hdel]
  · rw [Table.slots_modify, hdir, modify_append_cons, tailShape_append hpre,
      tailShape_append hpre, tailShape_cons hlive', tailShape_cons hdel']
    exact id

section Runs

variable {σ : Type} {drv : StorageOps σ} {s : FsState σ}

theorem fsCreate_visible (hwf : WellFormed s.dir) (name : Option CStr) (n : UInt64) :
    fsCreate drv s name n = (-1, s) ∨
      ∃ nm e pre w w', name = some nm ∧ (∀ other, nameMatch other e = true ↔ other = nm) ∧
        dirFind s.dir nm = none ∧
        visible tag s.dir.slots = pre ++ w ∧
        visible tag (fsCreate drv s name n).2.dir.slots = pre ++ e :: w' ∧
        (¬ Clobbers s.dir → w' = w) ∧ (Clobbers s.dir → w ≠ [] ∧ w' = []) := by
  rcases fsCreate_cases drv s name n with h | h
  · exact Or.inl h
  · obtain ⟨nm, slot, b, hname, hslot, -, -, hdir, -⟩ := h
    obtain ⟨hlen, ⟨c, cs, hcs, hc0, hc1⟩, hnone, hfree⟩ := fsCreateSlot_eq_some drv hslot
    have hlive := newEntry_live hcs hlen hc0 hc1 b (atLeastOne n)
    obtain ⟨pre, w, w', hold, hnew, hkeep, hlost⟩ :=
      visible_placeEntry (not_reveals_of_tailShape hwf.tail) hfree hlive
    rw [hdir]
    exact Or.inr ⟨nm, _, pre, w, w', hname, fun _ => nameMatch_newEntry hlen _ _,
      hnone, hold, hnew, hkeep, hlost⟩

theorem wellFormed_fsCreate (h : WellFormed s.dir) (name : Option CStr) (n : UInt64) :
    WellFormed (fsCreate drv s name n).2.dir := by
  rcases fsCreate_cases drv s name n with hfail | hstored
  · rw [hfail]; exact h
  · obtain ⟨nm, slot, b, -, hslot, -, -, hdir, -⟩ := hstored
    obtain ⟨hlen, ⟨c, cs, hcs, hc0, hc1⟩, hnone, hfree⟩ := fsCreateSlot_eq_some drv hslot
    have hlive := newEntry_live hcs hlen hc0 hc1 b (atLeastOne n)
    obtain ⟨pre, w, hold, hsub⟩ :=
      visible_placeEntry_sublist (not_reveals_of_tailShape h.tail) hfree hlive
    rw [hdir]
    refine WellFormed.of_sublist (tailShape_placeEntry h.tail hfree hlive) hsub ?_ ?_
    · intro x hx
      have : x = newEntry nm b (atLeastOne n) ∨ x ∈ pre ++ w := by
        simpa [or_comm, or_left_comm, or_assoc] using hx
      rcases this with rfl | hx
      · exact newEntry_terminated hlen _ _
      · exact h.mem_terminated (hold ▸ hx)
    · have hnodup := h.nodup_name
      have hfresh := h.name_not_mem hnone
      rw [hold] at hnodup hfresh
      rw [map_append, map_cons, nodup_middle, ← map_append, newEntry_name hlen]
      exact nodup_cons.mpr ⟨hfresh, hnodup⟩

theorem wellFormed_fsDelete (h : WellFormed s.dir) (name : Option CStr) :
    WellFormed (fsDelete drv s name).2.dir := by
  rcases fsDelete_cases drv s name with hfail | ⟨nm, idx, -, hidx, hdir⟩
  · rw [hfail]; exact h
  · obtain ⟨pre, e, post, hold, hnew, -, -, htail⟩ := visible_delete hidx
    rw [hdir]
    refine WellFormed.of_sublist (htail h.tail) ?_ (fun x hx => h.mem_terminated hx) h.nodup_name
    rw [hold, hnew]
    exact (List.Sublist.refl pre).append (sublist_cons_self e post)

theorem wellFormed_fsWrite (h : WellFormed s.dir) (fd : Int) (buf : Option (List UInt8))
    (off size : UInt64) : WellFormed (fsWrite drv s fd buf off size).2.dir := by
  rcases fsWrite_dir drv s fd buf off size with heq | ⟨f, n, -, heq⟩
  · rw [heq]; exact h
  · have htag : ∀ e : BmfsEntry, (e.withSize n).tag = e.tag := fun _ => rfl
    have hnames : names (s.dir.modify f.dirIndex (BmfsEntry.withSize n)) = names s.dir :=
      map_visible_modify (fun e : BmfsEntry => e.filename.slots) htag (fun _ => rfl)
        s.dir.slots f.dirIndex
    have htags : (s.dir.modify f.dirIndex (BmfsEntry.withSize n)).slots.map tag
        = s.dir.slots.map tag := map_tag_modify htag s.dir.slots f.dirIndex
    rw [heq]
    exact ⟨tailShape_congr htags.symm h.tail, hnames ▸ h.terminated, hnames ▸ h.distinct⟩

theorem wellFormed_step (h : WellFormed s.dir) (op : Op) : WellFormed (step drv s op).dir := by
  cases op with
  | create name n => exact wellFormed_fsCreate h name n
  | delete name => exact wellFormed_fsDelete h name
  | «open» name => simpa only [step, fsOpen_dir] using h
  | close fd => simpa only [step, fsClose_dir] using h
  | read fd haveBuf off size => simpa only [step, (fsRead_same drv s fd haveBuf off size).1] using h
  | write fd buf off size => exact wellFormed_fsWrite h fd buf off size

theorem wellFormed_run (h : WellFormed s.dir) (ops : List Op) :
    WellFormed (run (step drv) s ops).dir :=
  run_invariant (P := fun s : FsState σ => WellFormed s.dir)
    (fun _ op h => wellFormed_step h op) ops _ h

/-! ## Exactness of create and delete -/

structure CreateExact (old new : Table BmfsEntry bmfsMaxFiles) (name : CStr) : Prop where
  others : ∀ other, other ≠ name → lookup new other = lookup old other
  fresh : lookup old name = none
  listed : ∃ e, lookup new name = some e ∧
    (fsListLoop new.slots).Perm ((e.filename, e.fileSize) :: fsListLoop old.slots)

structure DeleteExact (old new : Table BmfsEntry bmfsMaxFiles) (name : CStr) : Prop where
  others : ∀ other, other ≠ name → lookup new other = lookup old other
  gone : lookup new name = none
  unlisted : ∃ e, lookup old name = some e ∧
    (fsListLoop old.slots).Perm ((e.filename, e.fileSize) :: fsListLoop new.slots)

theorem fsCreate_exact_iff_not_clobbers (hwf : WellFormed s.dir) (name : CStr) (n : UInt64)
    (hok : (fsCreate drv s (some name) n).1 = 0) :
    CreateExact s.dir (fsCreate drv s (some name) n).2.dir name ↔ ¬ Clobbers s.dir := by
  rcases fsCreate_visible hwf (some name) n with hfail | hstored
  · rw [hfail] at hok; cases hok
  · obtain ⟨nm, e, pre, w, w', hnm, hmatch, hnone, hold, hnew, hkeep, hlost⟩ := hstored
    obtain rfl := Option.some.inj hnm
    have hlist : fsListLoop (fsCreate drv s (some name) n).2.dir.slots
        = (pre ++ e :: w').map (fun e => (e.filename, e.fileSize)) := by
      rw [fsListLoop_eq, hnew]
    constructor
    · -- a clobbered tail shows up as a shorter listing
      intro hexact hc
      obtain ⟨hw, rfl⟩ := hlost hc
      obtain ⟨e', -, hperm⟩ := hexact.listed
      have hlen := hperm.length_eq
      rw [hlist, fsListLoop_eq, hold] at hlen
      simp only [length_map, length_append, length_cons, length_nil] at hlen
      exact hw (length_eq_zero_iff.mp (by omega))
    · intro hc
      obtain rfl := hkeep hc
      have hpre : pre.find? (nameMatch name) = none ∧ w'.find? (nameMatch name) = none := by
        have := dirFindLoop_eq_none hnone
        rwa [hold, find?_append, Option.or_eq_none_iff] at this
      refine ⟨?_, ?_, e, ?_, ?_⟩
      · intro other hne
        have hno : nameMatch other e = false := by
          simpa using fun h => hne ((hmatch other).mp h)
        simp only [lookup_eq_find, hold, hnew, find?_append, find?_cons, hno]
      · rw [lookup_eq_find]
        exact dirFindLoop_eq_none hnone
      · have hyes : nameMatch name e = true := (hmatch name).mpr rfl
        simp only [lookup_eq_find, hnew, find?_append, hpre.1, find?_cons, hyes, Option.none_or]
      · rw [hlist, fsListLoop_eq, hold]
        exact (perm_middle (a := e)).map (fun e => (e.filename, e.fileSize))

theorem fsDelete_exact (hwf : WellFormed s.dir) (name : CStr)
    (hok : (fsDelete drv s (some name)).1 = 0) :
    DeleteExact s.dir (fsDelete drv s (some name)).2.dir name := by
  rcases fsDelete_cases drv s (some name) with hfail | ⟨nm, idx, hnm, hidx, hdir⟩
  · rw [hfail] at hok; cases hok
  · obtain rfl := Option.some.inj hnm
    obtain ⟨pre, e, post, hold, hnew, hmatch, hlook, -⟩ := visible_delete hidx
    rw [← hdir] at hnew
    -- names match at most once in a well-formed directory
    have hname : ∀ other x, x ∈ pre ++ e :: post →
        (nameMatch other x = true ↔ other.bytes = x.name) :=
      fun other x hx => nameMatch_iff (hwf.mem_terminated (hold ▸ hx))
    have hen : name.bytes = e.name := (hname name e (by simp)).mp hmatch
    have hrest : ∀ x ∈ pre ++ post, nameMatch name x = false := by
      intro x hx
      have hnodup := hwf.nodup_name
      rw [hold, map_append, map_cons, nodup_middle, ← map_append] at hnodup
      have hne : e.name ≠ x.name := fun h =>
        (nodup_cons.mp hnodup).1 (h ▸ mem_map_of_mem hx)
      have hx' : x ∈ pre ++ e :: post := by
        simp only [mem_append, mem_cons] at hx ⊢
        exact hx.imp_right Or.inr
      exact Bool.eq_false_iff.mpr (fun h => hne (hen ▸ (hname name x hx').mp h))
    refine ⟨?_, ?_, e, hlook, ?_⟩
    · intro other hne
      have hno : nameMatch other e = false := by
        have : other.bytes ≠ e.name := fun h => hne (CStr.ext' (h.trans hen.symm))
        exact Bool.eq_false_iff.mpr (mt (hname other e (by simp)).mp this)
      simp only [lookup_eq_find, hold, hnew, find?_append, find?_cons, hno]
    · rw [lookup_eq_find, hnew, find?_eq_none]
      intro x hx
      simp [hrest x hx]
    · rw [fsListLoop_eq, fsListLoop_eq, hold, hnew]
      exact (perm_middle (a := e)).map (fun e => (e.filename, e.fileSize))

/-- In every directory reached from a well-formed one, `fs_create` adds exactly its name if and only
if there was an end marker or no live file behind the first deleted slot; `fs_delete` is exact
always. -/
theorem fsCreate_fsDelete_exact_iff (drv : StorageOps σ) (s₀ : FsState σ)
    (hwf : WellFormed s₀.dir) (ops : List Op) :
    let s := run (step drv) s₀ ops
    (∀ name n, (fsCreate drv s (some name) n).1 = 0 →
      (CreateExact s.dir (fsCreate drv s (some name) n).2.dir name ↔ ¬ Clobbers s.dir)) ∧
    (∀ name, (fsDelete drv s (some name)).1 = 0 →
      DeleteExact s.dir (fsDelete drv s (some name)).2.dir name) :=
  ⟨fun name n hok => fsCreate_exact_iff_not_clobbers (wellFormed_run hwf ops) name n hok,
    fun name hok => fsDelete_exact (wellFormed_run hwf ops) name hok⟩

end Runs

def nullDriver : StorageOps Unit where
  read := some (fun _ _ n => (n.toNat, [], ()))
  write := some (fun _ _ _ n => (n.toNat, ()))
  read_le := by rintro f hf - - n; cases hf; exact Int.le_refl _
  write_le := by rintro f hf - - - n; cases hf; exact Int.le_refl _

def mounted (dir : Table BmfsEntry bmfsMaxFiles) : FsState Unit :=
  let closed : FsFd := ⟨false, 0, 0, 0, 0, Table.ofFn (fun _ => 0)⟩
  { dir := dir, fds := Table.ofFn (fun _ => closed), partitionLba := 0, initialized := true,
    dev := () }

def byteName (b : Fin 254) : CStr :=
  ⟨[b.val.toUInt8 + 2], by revert b; decide +kernel⟩

def emptyDir : Table BmfsEntry bmfsMaxFiles :=
  Table.ofFn (fun _ => ⟨Table.ofFn (fun _ => 0), 0, 0, 0, 0⟩)

def fullDir : Table BmfsEntry bmfsMaxFiles :=
  Table.ofFn (fun i => newEntry (byteName (i.castLE (by decide))) (i.val.toUInt64 + 1) 1)

theorem wellFormed_emptyDir : WellFormed emptyDir :=
  ⟨by decide +kernel, by decide +kernel, by decide +kernel⟩

theorem wellFormed_fullDir : WellFormed fullDir :=
  ⟨by decide +kernel, by decide +kernel, by decide +kernel⟩

theorem fsCreate_fsDelete_exact_emptyDir :
    CreateExact emptyDir (fsCreate nullDriver (mounted emptyDir) (some (byteName 7)) 3).2.dir
      (byteName 7) ∧
    DeleteExact (fsCreate nullDriver (mounted emptyDir) (some (byteName 7)) 3).2.dir
      (fsDelete nullDriver (fsCreate nullDriver (mounted emptyDir) (some (byteName 7)) 3).2
        (some (byteName 7))).2.dir (byteName 7) := by
  have hend : ¬ Clobbers emptyDir := fun h =>
    h.1 (emptyDir.get 0) (get_mem _ _) (by decide +kernel)
  exact ⟨((fsCreate_fsDelete_exact_iff nullDriver (mounted emptyDir)
      wellFormed_emptyDir []).1 (byteName 7) 3 (by decide +kernel)).mpr hend,
    (fsCreate_fsDelete_exact_iff nullDriver (mounted emptyDir) wellFormed_emptyDir
      [.create (some (byteName 7)) 3]).2 (byteName 7) (by decide +kernel)⟩

/-- All slots in use, the second file deleted and another created: the files behind are gone. -/
theorem fsCreate_loses_files_of_full_directory :
    let s := run (step nullDriver) (mounted fullDir) [.delete (some (byteName 1))]
    WellFormed fullDir ∧ (fsCreate nullDriver s (some (byteName 100)) 1).1 = 0 ∧
      (∀ i : Fin 254, 2 ≤ i.val → i.val < 64 → (lookup s.dir (byteName i)).isSome = true ∧
        lookup (fsCreate nullDriver s (some (byteName 100)) 1).2.dir (byteName i) = none) ∧
      (fsListLoop s.dir.slots).length = 63 ∧
      (fsListLoop (fsCreate nullDriver s (some (byteName 100)) 1).2.dir.slots).length = 2 :=
  ⟨wellFormed_fullDir, by decide +kernel, by decide +kernel, by decide +kernel,
    by decide +kernel⟩

end AlJefra.Kernel.Fs
