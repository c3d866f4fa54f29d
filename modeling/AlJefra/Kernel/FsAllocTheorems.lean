/- Block ranges of live files stay apart. -/
import Mathlib.Data.List.Sort
import AlJefra.Lib.FirstFit
import AlJefra.Kernel.FsDirTheorems

namespace AlJefra.Kernel.Fs

open AlJefra.Lib List UInt64

/-! ## Ranges -/

def Region.range (r : Region) : Range := ⟨r.start.toNat, r.count.toNat⟩
def BmfsEntry.region (e : BmfsEntry) : Region := ⟨e.startingBlock, e.reservedBlocks⟩

def ranges (dir : Table BmfsEntry bmfsMaxFiles) : List Range :=
  (visible BmfsEntry.tag dir.slots).map (·.region.range)

theorem collectRegions_eq : ∀ es : List BmfsEntry,
    collectRegions es = (visible BmfsEntry.tag es).map BmfsEntry.region :=
  loop_eq_map_visible _ rfl fun _ _ => rfl

/-! ## The insertion sort -/

theorem insertRegion_eq (tmp : Region) : ∀ rs : List Region,
    insertRegion tmp rs = rs.orderedInsert (fun a b => b.start ≤ a.start) tmp
  | [] => rfl
  | r :: rs => by
    by_cases h : tmp.start < r.start
    · have h' : ¬ r.start ≤ tmp.start := UInt64.not_le.mpr h
      rw [insertRegion, if_pos h, orderedInsert_cons, if_neg h', insertRegion_eq tmp rs]
    · rw [insertRegion, if_neg h, orderedInsert_cons, if_pos (UInt64.not_lt.mp h)]

theorem sortRegions_eq (regions : List Region) : sortRegions regions
      = (regions.reverse.insertionSort (fun a b => b.start ≤ a.start)).reverse := by
  unfold sortRegions List.insertionSort
  rw [foldr_reverse]
  congr 1
  exact congrArg (fun f => List.foldl f [] regions)
    (funext fun sorted => funext fun r => insertRegion_eq r sorted)

theorem sortRegions_perm (regions : List Region) : (sortRegions regions).Perm regions := by
  rw [sortRegions_eq]
  exact (reverse_perm _).trans ((perm_insertionSort _ _).trans (reverse_perm _))

theorem sortRegions_sorted (regions : List Region) :
    (sortRegions regions).Pairwise (fun a b => a.start ≤ b.start) := by
  rw [sortRegions_eq, pairwise_reverse]
  exact pairwise_insertionSort _ _

/-! ## The gap scan -/

variable {needed : UInt64}

theorem scanGaps_toNat {d : Nat} (hpos : 0 < needed.toNat) (hd : d + needed.toNat ≤ 2 ^ 64) :
    ∀ (c : UInt64) (rs : List Region), c.toNat ≤ d →
    (∀ r ∈ rs, Clear d needed.toNat r.range) → (∀ r ∈ rs, r.range.stop ≤ 2 ^ 64) →
    (scanGaps needed c rs).toNat = scan needed.toNat c.toNat (rs.map Region.range)
  | _, [], _, _, _ => rfl
  | c, r :: rs, hc, hclear, hwrap => by
    have hclear' : ∀ r' ∈ rs, Clear d needed.toNat r'.range :=
      fun r' hr' => hclear r' (mem_cons_of_mem _ hr')
    have hwrap' : ∀ r' ∈ rs, r'.range.stop ≤ 2 ^ 64 :=
      fun r' hr' => hwrap r' (mem_cons_of_mem _ hr')
    have hsum : (c + needed).toNat = (c.toNat + needed.toNat) % 2 ^ 64 := UInt64.toNat_add _ _
    by_cases hedge : c.toNat + needed.toNat = 2 ^ 64
    · -- the sum wraps to zero: `c` is the last place there is, and both scans stay on it
      have hle : c + needed ≤ r.start := by
        rw [le_iff_toNat_le, hsum, hedge, Nat.mod_self]
        exact Nat.zero_le _
      obtain rfl : d = c.toNat := by omega
      have hstay := scan_le needed.toNat c.toNat ((r :: rs).map Region.range) (le_refl _)
        (by simpa using hclear)
      rw [scanGaps, if_pos hle]
      exact le_antisymm (le_scan _ _ _) hstay
    · have hsum' : (c + needed).toNat = c.toNat + needed.toNat := by
        rw [hsum, Nat.mod_eq_of_lt (by omega)]
      by_cases hle : c + needed ≤ r.start
      · have hle' : c.toNat + needed.toNat ≤ r.range.start := by
          rw [← hsum']; exact le_iff_toNat_le.mp hle
        rw [scanGaps, if_pos hle, map_cons, scan, if_pos hle']
      · have hle' : ¬ c.toNat + needed.toNat ≤ r.range.start := by
          rw [← hsum']; exact fun h => hle (le_iff_toNat_le.mpr h)
        -- `r` lies in front of `d`, so its end does not wrap
        have hstop : r.range.stop ≤ d := by
          rcases hclear r mem_cons_self with h | h
          · exact absurd (le_trans (Nat.add_le_add_right hc _) h) hle'
          · exact h
        have hend : (r.start + r.count).toNat = r.range.stop := by
          rw [UInt64.toNat_add]
          exact Nat.mod_eq_of_lt (show r.range.stop < 2 ^ 64 by omega)
        have hmax : (if c < r.start + r.count then r.start + r.count else c).toNat
            = max c.toNat r.range.stop := by
          split
          · rename_i hlt
            rw [lt_iff_toNat_lt, hend] at hlt
            rw [hend]; omega
          · rename_i hlt
            rw [lt_iff_toNat_lt, hend] at hlt
            omega
        rw [scanGaps, if_neg hle, map_cons, scan, if_neg hle', ← hmax]
        exact scanGaps_toNat hpos hd _ rs (by rw [hmax]; omega) hclear' hwrap'

def FreeRun (dir : Table BmfsEntry bmfsMaxFiles) (needed : UInt64) : Prop :=
  ∃ d, 1 ≤ d ∧ d + needed.toNat ≤ 2 ^ 64 ∧ ∀ r ∈ ranges dir, Clear d needed.toNat r

theorem findFreeBlocks_clear {dir : Table BmfsEntry bmfsMaxFiles} (hpos : 0 < needed.toNat)
    (hwrap : ∀ r ∈ ranges dir, r.stop ≤ 2 ^ 64) (hfree : FreeRun dir needed) :
    1 ≤ (findFreeBlocks dir needed).toNat ∧
      (findFreeBlocks dir needed).toNat + needed.toNat ≤ 2 ^ 64 ∧
      ∀ r ∈ ranges dir, Clear (findFreeBlocks dir needed).toNat needed.toNat r := by
  obtain ⟨d, hd1, hd, hclear⟩ := hfree
  have hmem : ∀ r, r ∈ (sortRegions (collectRegions dir.slots)).map Region.range ↔
      r ∈ ranges dir := by
    intro r
    rw [((sortRegions_perm _).map _).mem_iff, collectRegions_eq, map_map, ranges]
    rfl
  have heq := scanGaps_toNat hpos hd 1 (sortRegions (collectRegions dir.slots)) hd1
    (fun r hr => hclear _ ((hmem _).mp (mem_map_of_mem hr)))
    (fun r hr => hwrap _ ((hmem _).mp (mem_map_of_mem hr)))
  have hsorted := (sortRegions_sorted (collectRegions dir.slots)).map (f := Region.range)
    (S := fun a b => a.start ≤ b.start) (fun _ _ h => le_iff_toNat_le.mp h)
  rw [findFreeBlocks, heq]
  refine ⟨le_scan _ 1 _, ?_, ?_⟩
  · have := scan_le needed.toNat 1 _ hd1 (fun r hr => hclear r ((hmem r).mp hr))
    exact le_trans (Nat.add_le_add_right this _) hd
  · exact fun r hr => scan_clear _ _ _ hsorted r ((hmem r).mpr hr)

/-! ## The invariant over runs -/

structure ApartFrom (rs : List Range) : Prop where
  apart : rs.Pairwise (fun a b => ∀ x, ¬ (a.Mem x ∧ b.Mem x))
  start : ∀ r ∈ rs, 1 ≤ r.start
  stop : ∀ r ∈ rs, r.stop ≤ 2 ^ 64

def BlocksDisjoint (dir : Table BmfsEntry bmfsMaxFiles) : Prop := ApartFrom (ranges dir)

theorem ApartFrom.sublist {rs rs' : List Range} (h : ApartFrom rs) (hsub : rs'.Sublist rs) :
    ApartFrom rs' :=
  ⟨h.apart.sublist hsub, fun r hr => h.start r (hsub.subset hr),
    fun r hr => h.stop r (hsub.subset hr)⟩

theorem ApartFrom.insert {pre post : List Range} {b n : Nat} (h : ApartFrom (pre ++ post))
    (hb : 1 ≤ b) (hn : b + n ≤ 2 ^ 64) (hclear : ∀ r ∈ pre ++ post, Clear b n r) :
    ApartFrom (pre ++ ⟨b, n⟩ :: post) := by
  have hmem : ∀ r, r ∈ pre ++ ⟨b, n⟩ :: post → r = ⟨b, n⟩ ∨ r ∈ pre ++ post := by
    intro r hr
    simpa [or_left_comm] using hr
  refine ⟨?_, ?_, ?_⟩
  · rw [pairwise_middle (fun h x hx => h x hx.symm), pairwise_cons]
    exact ⟨fun r hr x hx => (hclear r hr).not_mem hx.1 hx.2, h.apart⟩
  · intro r hr
    rcases hmem r hr with rfl | hr
    · exact hb
    · exact h.start r hr
  · intro r hr
    rcases hmem r hr with rfl | hr
    · exact hn
    · exact h.stop r hr

theorem atLeastOne_pos (n : UInt64) : 0 < (atLeastOne n).toNat := by
  unfold atLeastOne
  split
  · decide
  · rename_i h
    have : n.toNat ≠ 0 := fun h0 => h (UInt64.toNat_inj.mp h0)
    omega

section Runs

variable {σ : Type} (drv : StorageOps σ)

/-- A create has a free run of its length, and takes no end marker with stale entries behind. -/
def CreateFits (s : FsState σ) : Op → Prop
  | .create name n => ∀ nm ∈ name, (fsCreateSlot drv s nm).isSome →
      FreeRun s.dir (atLeastOne n) ∧ ¬ Reveals s.dir
  | _ => True

variable {drv}

variable {s : FsState σ}

theorem blocksDisjoint_fsCreate (h : BlocksDisjoint s.dir) (name : Option CStr) (n : UInt64)
    (hfits : CreateFits drv s (.create name n)) : BlocksDisjoint (fsCreate drv s name n).2.dir := by
  rcases fsCreate_cases drv s name n with hfail | hstored
  · rw [hfail]; exact h
  · obtain ⟨nm, slot, b, hname, hslot, hb, -, hdir, -⟩ := hstored
    obtain ⟨hfree, hrev⟩ := hfits nm hname (by rw [hslot]; rfl)
    obtain ⟨hlen, ⟨c, cs, hcs, hc0, hc1⟩, -, hfreeSlot⟩ := fsCreateSlot_eq_some drv hslot
    have hlive := newEntry_live hcs hlen hc0 hc1 b (atLeastOne n)
    obtain ⟨pre, w, hold, hsub⟩ := visible_placeEntry_sublist hrev hfreeSlot hlive
    obtain ⟨h1, h2, hclear⟩ := findFreeBlocks_clear (atLeastOne_pos n) h.stop hfree
    rw [← hb] at h1 h2 hclear
    have hranges : ranges s.dir = pre.map (·.region.range) ++ w.map (·.region.range) := by
      rw [ranges, hold, map_append]
    unfold BlocksDisjoint at h ⊢
    rw [hranges] at h hclear
    rw [hdir]
    have hmap := hsub.map (fun e : BmfsEntry => e.region.range)
    rw [map_append, map_cons] at hmap
    exact (h.insert h1 h2 hclear).sublist hmap

theorem blocksDisjoint_fsDelete (h : BlocksDisjoint s.dir) (name : Option CStr) :
    BlocksDisjoint (fsDelete drv s name).2.dir := by
  rcases fsDelete_cases drv s name with hfail | ⟨nm, idx, -, hidx, hdir⟩
  · rw [hfail]; exact h
  · obtain ⟨pre, e, post, hold, hnew, -⟩ := visible_delete hidx
    unfold BlocksDisjoint ranges at h ⊢
    rw [hold] at h
    rw [hdir, hnew]
    exact h.sublist (((List.Sublist.refl pre).append (sublist_cons_self e post)).map _)

theorem blocksDisjoint_fsWrite (h : BlocksDisjoint s.dir) (fd : Int) (buf : Option (List UInt8))
    (off size : UInt64) : BlocksDisjoint (fsWrite drv s fd buf off size).2.dir := by
  rcases fsWrite_dir drv s fd buf off size with heq | ⟨f, n, -, heq⟩
  · rw [heq]; exact h
  · have htag : ∀ e : BmfsEntry, (e.withSize n).tag = e.tag := fun _ => rfl
    have hranges : ranges (s.dir.modify f.dirIndex (BmfsEntry.withSize n)) = ranges s.dir :=
      map_visible_modify (fun e : BmfsEntry => e.region.range) htag (fun _ => rfl)
        s.dir.slots f.dirIndex
    rw [heq, BlocksDisjoint, hranges]
    exact h

theorem blocksDisjoint_step (s : FsState σ) (op : Op) (h : BlocksDisjoint s.dir)
    (hfits : CreateFits drv s op) : BlocksDisjoint (step drv s op).dir := by
  cases op with
  | create name n => exact blocksDisjoint_fsCreate h name n hfits
  | delete name => exact blocksDisjoint_fsDelete h name
  | «open» name => simpa only [step, fsOpen_dir] using h
  | close fd => simpa only [step, fsClose_dir] using h
  | read fd haveBuf off size => simpa only [step, (fsRead_same drv s fd haveBuf off size).1] using h
  | write fd buf off size => exact blocksDisjoint_fsWrite h fd buf off size

/-- In every run whose creates have room, the live files' block ranges stay disjoint. -/
theorem blocksDisjoint_run (drv : StorageOps σ) (s : FsState σ) (h : BlocksDisjoint s.dir)
    (ops : List Op) (hfits : Steps (step drv) (CreateFits drv) s ops) :
    BlocksDisjoint (run (step drv) s ops).dir :=
  run_invariant_of_steps (P := fun s : FsState σ => BlocksDisjoint s.dir) blocksDisjoint_step
    ops s h hfits

end Runs

theorem blocksDisjoint_emptyDir : BlocksDisjoint emptyDir := by
  have h : ranges emptyDir = [] := by decide +kernel
  unfold BlocksDisjoint
  rw [h]
  exact ⟨List.Pairwise.nil, by simp, by simp⟩

theorem blocksDisjoint_run_emptyDir :
    BlocksDisjoint (run (step nullDriver) (mounted emptyDir)
      [.create (some (byteName 0)) 3, .create (some (byteName 1)) 0]).dir := by
  refine blocksDisjoint_run nullDriver (mounted emptyDir) blocksDisjoint_emptyDir _
    ⟨fun nm hnm _ => ⟨⟨1, by decide, by decide, by decide +kernel⟩, ?_⟩,
      fun nm hnm _ => ⟨⟨4, by decide, by decide, by decide +kernel⟩, ?_⟩, trivial⟩
  · exact not_reveals_of_tailShape (by decide +kernel)
  · exact not_reveals_of_tailShape (by decide +kernel)

/-- The range of a file of 2^64 - 1 blocks wraps, and the next file gets a block it already has. -/
theorem fsCreate_overlaps_after_wrap :
    BlocksDisjoint emptyDir ∧
      ¬ BlocksDisjoint (run (step nullDriver) (mounted emptyDir)
        [.create (some (byteName 0)) 0xFFFFFFFFFFFFFFFF, .create (some (byteName 1)) 1]).dir := by
  refine ⟨blocksDisjoint_emptyDir, fun h => ?_⟩
  have hranges : ranges (run (step nullDriver) (mounted emptyDir)
      [.create (some (byteName 0)) 0xFFFFFFFFFFFFFFFF, .create (some (byteName 1)) 1]).dir
      = [⟨1, 2 ^ 64 - 1⟩, ⟨1, 1⟩] := by decide +kernel
  have hapart := h.apart
  rw [hranges, pairwise_pair] at hapart
  exact hapart 1 (by decide)

end AlJefra.Kernel.Fs
