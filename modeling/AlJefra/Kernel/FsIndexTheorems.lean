/- Which slot a name leads to. -/
import AlJefra.Kernel.FsAllocTheorems

namespace AlJefra.Kernel.Fs

open AlJefra.Lib List Option

/-! ## The slots that are passed over -/

def Passes (name : CStr) (e : BmfsEntry) : Prop :=
  e.tag ≠ .fin ∧ (e.tag = .live → nameMatch name e = false)

variable {name : CStr} {e : BmfsEntry}

theorem dirFindLoop_pass (h : Passes name e) (i : Nat) (es : List BmfsEntry) :
    dirFindLoop name i (e :: es) = dirFindLoop name (i + 1) es := by
  obtain ⟨hfin, hlive⟩ := h
  have h1 : e.first ≠ bmfsEntryEnd := fun h => hfin (tag_eq_fin.mpr h)
  by_cases h2 : e.first = bmfsEntryDeleted
  · rw [dirFindLoop, if_neg h1, if_pos h2]
  · have hm : nameMatch name e = false := hlive (tag_eq_live.mpr ⟨h1, h2⟩)
    simp [dirFindLoop, h1, h2, hm]

theorem dirFindLoop_hit (hlive : e.tag = .live) (hm : nameMatch name e = true) (i : Nat)
    (es : List BmfsEntry) : dirFindLoop name i (e :: es) = some i := by
  obtain ⟨h1, h2⟩ := tag_eq_live.mp hlive
  simp [dirFindLoop, h1, h2, hm]

theorem dirFindLoop_append (post : List BmfsEntry) : ∀ (pre : List BmfsEntry)
    (i : Nat), (∀ y ∈ pre, Passes name y) →
    dirFindLoop name i (pre ++ post) = dirFindLoop name (i + pre.length) post := by
  intro pre
  induction pre with
  | nil => intro i _; rfl
  | cons y pre ih =>
    intro i h
    rw [cons_append, dirFindLoop_pass (h y mem_cons_self),
      ih _ (fun z hz => h z (mem_cons_of_mem _ hz)), length_cons]
    congr 1
    omega

theorem dirFindLoop_cut : ∀ {es : List BmfsEntry} {i k : Nat}, dirFindLoop name i es = some k →
    ∃ pre e post, es = pre ++ e :: post ∧ k = i + pre.length ∧ (∀ y ∈ pre, Passes name y) ∧
      e.tag = .live ∧ nameMatch name e = true := by
  intro es
  induction es with
  | nil => intro i k h; simp [dirFindLoop] at h
  | cons e es ih =>
    intro i k h
    by_cases hpass : Passes name e
    · rw [dirFindLoop_pass hpass] at h
      obtain ⟨pre, e', post, rfl, hk, hpre, hlive, hm⟩ := ih h
      refine ⟨e :: pre, e', post, rfl, by simp; omega, ?_, hlive, hm⟩
      intro y hy
      obtain rfl | hy := mem_cons.mp hy
      · exact hpass
      · exact hpre y hy
    · have hfin : e.tag ≠ .fin := by
        intro hf
        simp [dirFindLoop, tag_eq_fin.mp hf] at h
      have hlive : e.tag = .live ∧ nameMatch name e = true := by
        by_contra hno
        refine hpass ⟨hfin, fun hl => ?_⟩
        exact Bool.eq_false_iff.mpr fun hm => hno ⟨hl, hm⟩
      rw [dirFindLoop_hit hlive.1 hlive.2] at h
      cases h
      exact ⟨[], e, es, rfl, rfl, by simp, hlive⟩

def At (dir : Table BmfsEntry bmfsMaxFiles) (name : CStr) (idx : Nat) (e : BmfsEntry) : Prop :=
  ∃ pre post, dir.slots = pre ++ e :: post ∧ pre.length = idx ∧ (∀ y ∈ pre, Passes name y) ∧
    e.tag = .live ∧ nameMatch name e = true

section At

variable {dir : Table BmfsEntry bmfsMaxFiles} {name other : CStr} {idx k : Nat}
  {e e' : BmfsEntry} {b n : UInt64}

theorem At.dirFind (h : At dir name idx e) : dirFind dir name = some idx := by
  obtain ⟨pre, post, hdir, rfl, hpre, hlive, hm⟩ := h
  rw [Fs.dirFind, hdir, dirFindLoop_append _ _ _ hpre, dirFindLoop_hit hlive hm, zero_add]

theorem At.getElem? (h : At dir name idx e) : dir.slots[idx]? = some e := by
  obtain ⟨pre, post, hdir, rfl, -⟩ := h
  simp [hdir]

theorem at_of_dirFind (h : dirFind dir name = some idx) : ∃ e, At dir name idx e := by
  obtain ⟨pre, e, post, hdir, rfl, hpre, hlive, hm⟩ := dirFindLoop_cut h
  exact ⟨e, pre, post, hdir, (zero_add _).symm, hpre, hlive, hm⟩

theorem At.lookup (h : At dir name idx e) : lookup dir name = some e := by
  rw [Fs.lookup, h.dirFind, bind_some, h.getElem?]

theorem at_of_lookup (h : lookup dir name = some e) : ∃ idx, At dir name idx e := by
  unfold Fs.lookup at h
  cases hf : Fs.dirFind dir name with
  | none => simp [hf] at h
  | some idx =>
    obtain ⟨e', hat⟩ := at_of_dirFind hf
    rw [hf, bind_some, hat.getElem?] at h
    cases h
    exact ⟨idx, hat⟩

theorem At.mem_visible (h : At dir name idx e) : e ∈ visible BmfsEntry.tag dir.slots := by
  obtain ⟨pre, post, hdir, -, hpre, hlive, -⟩ := h
  rw [hdir, visible_append (fun y hy => (hpre y hy).1), visible_cons_live hlive]
  simp

theorem At.unique (h : At dir name idx e) (h' : At dir name k e') : idx = k ∧ e = e' := by
  have hi : idx = k := some.inj (h.dirFind.symm.trans h'.dirFind)
  subst hi
  exact ⟨rfl, some.inj (h.getElem?.symm.trans h'.getElem?)⟩

theorem At.name_eq (hwf : WellFormed dir) (h : At dir name idx e) (h' : At dir other idx e') :
    name = other := by
  obtain rfl : e = e' := some.inj (h.getElem?.symm.trans h'.getElem?)
  have hterm := hwf.mem_terminated h.mem_visible
  obtain ⟨-, -, -, -, -, -, hm⟩ := h
  obtain ⟨-, -, -, -, -, -, hm'⟩ := h'
  exact CStr.ext' (((nameMatch_iff hterm).mp hm).trans ((nameMatch_iff hterm).mp hm').symm)

def nameAt (dir : Table BmfsEntry bmfsMaxFiles) (idx : Nat) : Option CStr :=
  dir.slots[idx]?.map BmfsEntry.cstr

theorem At.cstr_eq (hwf : WellFormed dir) (h : At dir name idx e) : e.cstr = name := by
  have hterm := hwf.mem_terminated h.mem_visible
  obtain ⟨-, -, -, -, -, -, hm⟩ := h
  exact CStr.ext' ((nameMatch_iff hterm).mp hm).symm

theorem At.nameAt (hwf : WellFormed dir) (h : At dir name idx e) : nameAt dir idx = some name := by
  rw [Fs.nameAt, h.getElem?, map_some, h.cstr_eq hwf]

theorem lookup_cstr (hwf : WellFormed dir) (he : e ∈ visible BmfsEntry.tag dir.slots) :
    lookup dir e.cstr = some e := by
  rw [lookup_eq_find]
  have hm : nameMatch e.cstr e = true := (nameMatch_iff (hwf.mem_terminated he)).mpr rfl
  cases hf : (visible BmfsEntry.tag dir.slots).find? (nameMatch e.cstr) with
  | none => exact absurd hm (find?_eq_none.mp hf e he)
  | some y =>
    have hy := mem_of_find?_eq_some hf
    have hname : e.name = y.name := (nameMatch_iff (hwf.mem_terminated hy)).mp (find?_some hf)
    rw [inj_on_of_nodup_map hwf.nodup_name he hy hname]

theorem cut_lt {pre post pre' post' : List BmfsEntry} (h : pre ++ e :: post = pre' ++ e' :: post')
    (hlt : pre.length < pre'.length) :
    ∃ mid, pre' = pre ++ e :: mid ∧ post = mid ++ e' :: post' := by
  obtain ⟨as, hpre, hpost⟩ | ⟨cs, hpre, hpost⟩ := append_eq_append_iff.mp h
  · cases as with
    | nil =>
      rw [append_nil] at hpre
      rw [hpre] at hlt
      omega
    | cons a as =>
      obtain ⟨rfl, htail⟩ := List.cons.inj hpost
      exact ⟨as, hpre, htail⟩
  · rw [hpre, length_append] at hlt
    omega

section

variable (hd : BlocksDisjoint dir) (h : At dir name idx e)
include hd h

theorem At.apart_of_lt
    (h' : At dir other k e') (hlt : idx < k) (x : Nat) :
    ¬ (e.region.range.Mem x ∧ e'.region.range.Mem x) := by
  obtain ⟨pre, post, hdir, rfl, -, hlive, -⟩ := h
  obtain ⟨pre', post', hdir', rfl, hpre', hlive', -⟩ := h'
  -- the earlier slot stands before the later one in what a reader sees
  obtain ⟨mid, rfl, -⟩ := cut_lt (hdir.symm.trans hdir') hlt
  have hvis : visible BmfsEntry.tag dir.slots =
      visible BmfsEntry.tag (pre ++ e :: mid) ++ e' :: visible BmfsEntry.tag post' := by
    rw [hdir', visible_append (fun y hy => (hpre' y hy).1), visible_cons_live hlive']
  have hmem : e ∈ visible BmfsEntry.tag (pre ++ e :: mid) := by
    have hpre : ∀ y ∈ pre, y.tag ≠ .fin := fun y hy => (hpre' y (mem_append_left _ hy)).1
    rw [visible_append hpre, visible_cons_live hlive]
    simp
  have hpair := hd.apart
  rw [ranges, hvis, map_append, map_cons] at hpair
  exact (pairwise_append.mp hpair).2.2 _ (mem_map_of_mem hmem) _ mem_cons_self x

theorem At.apart (h' : At dir other k e')
    (hne : idx ≠ k) (x : Nat) : ¬ (e.region.range.Mem x ∧ e'.region.range.Mem x) := by
  obtain hlt | hlt := Nat.lt_or_gt_of_ne hne
  · exact h.apart_of_lt hd h' hlt x
  · exact fun hx => h'.apart_of_lt hd h hlt x hx.symm

theorem At.start_pos :
    1 ≤ e.startingBlock.toNat :=
  hd.start _ (mem_map_of_mem h.mem_visible)

end

/-! ## After a directory update -/

theorem passes_newEntry (hlen : name.bytes.length < bmfsMaxFilename)
    (hlive : (newEntry name b n).tag = .live) (hne : other ≠ name) :
    Passes other (newEntry name b n) := by
  refine ⟨by simp [hlive], fun _ => Bool.eq_false_iff.mpr fun hm => hne ?_⟩
  exact (nameMatch_newEntry hlen _ _).mp hm

variable {slot : Nat}

theorem at_placeEntry_self (hfree : dirFindFree dir = some slot) (hnone : dirFind dir name = none)
    (hlive : e.tag = .live) (hm : nameMatch name e = true) :
    At (placeEntry dir slot e) name slot e := by
  obtain ⟨pre, x, post, hdir, rfl, hpre, -, -⟩ := dirFindFree_cut hfree
  refine ⟨pre, _, placeEntry_slots hdir e, rfl, fun y hy => ?_, hlive, hm⟩
  have hvis : y ∈ visible BmfsEntry.tag dir.slots := by
    rw [hdir, visible_append (fun z hz => by simp [hpre z hz]), visible_of_live hpre]
    exact mem_append_left _ hy
  have hno := find?_eq_none.mp (dirFindLoop_eq_none hnone) y hvis
  exact ⟨by simp [hpre y hy], fun _ => by simpa using hno⟩

theorem At.placeEntry (h : At dir other idx e) (hc : ¬ Clobbers dir)
    (hfree : dirFindFree dir = some slot) (hpass : Passes other e') :
    At (Fs.placeEntry dir slot e') other idx e := by
  obtain ⟨pre, post, hdir, rfl, hpre, hlive, hm⟩ := h
  obtain ⟨P, x, Q, hslot, rfl, hP, -, hx⟩ := dirFindFree_cut hfree
  have hcut := hdir.symm.trans hslot
  obtain hlt | heq | hgt := lt_trichotomy pre.length P.length
  · -- before the slot taken: nothing there has changed
    obtain ⟨mid, rfl, -⟩ := cut_lt hcut hlt
    refine ⟨pre, mid ++ e' :: closeTail Q, ?_, rfl, hpre, hlive, hm⟩
    rw [placeEntry_slots hslot e', append_assoc, cons_append]
  · obtain ⟨-, htail⟩ := append_inj hcut heq
    obtain rfl := (List.cons.inj htail).1
    exact absurd hlive hx
  · -- behind it: there is an end marker further down, so the tail stays
    obtain ⟨mid, rfl, rfl⟩ := cut_lt hcut.symm hgt
    have hfin : ∃ y ∈ mid ++ e :: post, y.tag = .fin := by
      by_contra hno
      push Not at hno
      refine hc ⟨?_, P.length, hfree, e, by simp [hslot], hlive⟩
      rw [hslot]
      intro y hy
      obtain hy | hy := mem_append.mp hy
      · simp [hP y hy]
      · obtain rfl | hy := mem_cons.mp hy
        · exact (hpre y (by simp)).1
        · exact hno y hy
    refine ⟨P ++ e' :: mid, post, ?_, by simp, ?_, hlive, hm⟩
    · rw [placeEntry_slots hslot e', closeTail_of_fin hfin, append_assoc, cons_append]
    · intro y hy
      obtain hy | hy := mem_append.mp hy
      · exact hpre y (by simp [hy])
      · obtain rfl | hy := mem_cons.mp hy
        · exact hpass
        · exact hpre y (by simp [hy])

theorem At.modify_other {f : BmfsEntry → BmfsEntry} (h : At dir other idx e)
    (h' : At dir name k e') (hne : idx ≠ k) (hf : Passes other e' → Passes other (f e')) :
    At (dir.modify k f) other idx e := by
  obtain ⟨pre, post, hdir, rfl, hpre, hlive, hm⟩ := h
  obtain ⟨pre', post', hdir', rfl, -, -, -⟩ := h'
  have hslots : (dir.modify pre'.length f).slots = pre' ++ f e' :: post' := by
    rw [Table.slots_modify, hdir', modify_append_cons]
  have hcut := hdir.symm.trans hdir'
  obtain hlt | hgt := Nat.lt_or_gt_of_ne hne
  · obtain ⟨mid, rfl, -⟩ := cut_lt hcut hlt
    refine ⟨pre, mid ++ f e' :: post', ?_, rfl, hpre, hlive, hm⟩
    rw [hslots, append_assoc, cons_append]
  · obtain ⟨mid, rfl, rfl⟩ := cut_lt hcut.symm hgt
    refine ⟨pre' ++ f e' :: mid, post, ?_, by simp, ?_, hlive, hm⟩
    · rw [hslots, append_assoc, cons_append]
    · intro y hy
      obtain hy | hy := mem_append.mp hy
      · exact hpre y (by simp [hy])
      · obtain rfl | hy := mem_cons.mp hy
        · exact hf (hpre e' (by simp))
        · exact hpre y (by simp [hy])

theorem At.setDeleted (h : At dir other idx e) (h' : At dir name k e') (hne : idx ≠ k) :
    At (dir.modify k (BmfsEntry.setFirst bmfsEntryDeleted)) other idx e :=
  h.modify_other h' hne fun _ => by simp [Passes, tag_setFirst_deleted]

theorem dirFindLoop_withSize (m : UInt64) : ∀ (es : List BmfsEntry) (i k : Nat),
    dirFindLoop name i (es.modify k (BmfsEntry.withSize m)) = dirFindLoop name i es := by
  intro es
  induction es with
  | nil => intro i k; cases k <;> rfl
  | cons e es ih =>
    intro i k
    cases k with
    | zero => rfl
    | succ k => simp only [modify_succ_cons, dirFindLoop, ih]

theorem dirFind_withSize (dir : Table BmfsEntry bmfsMaxFiles) (k : Nat) (m : UInt64) :
    dirFind (dir.modify k (BmfsEntry.withSize m)) name = dirFind dir name :=
  dirFindLoop_withSize m dir.slots 0 k

theorem At.withSize_self (h : At dir name idx e) (m : UInt64) :
    At (dir.modify idx (BmfsEntry.withSize m)) name idx (e.withSize m) := by
  obtain ⟨pre, post, hdir, rfl, hpre, hlive, hm⟩ := h
  refine ⟨pre, post, ?_, rfl, hpre, hlive, hm⟩
  rw [Table.slots_modify, hdir, modify_append_cons]

end At

end AlJefra.Kernel.Fs
