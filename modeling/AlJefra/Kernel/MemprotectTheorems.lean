/- Unmapping a range, and the guard page that relies on it. -/
import AlJefra.Arch.X86MmuTheorems
import AlJefra.Kernel.Memprotect

namespace AlJefra.Kernel.Memprotect

open AlJefra.Lib AlJefra.Hal AlJefra.Arch AlJefra.Arch.X86 Option UInt64

/-! ## One page -/

theorem unmapLoop_done {virt size offset : UInt64} (h : ¬ offset < size) (fuel : Nat)
    (s : MmuState) : unmapLoop virt size fuel s offset = some (.ok, s) := by
  cases fuel with
  | zero | succ fuel => rw [unmapLoop, if_pos h]

variable {s : MmuState}

theorem halMmuUnmap_page (hinit : s.mmuInitialized = true) (va : UInt64) (hwf : WellFormed s) :
    halMmuUnmap s va pageSize = some (.ok, (unmapStep s va).2) := by
  have hpast : ∀ v : View, ¬ 0 + unmapStride v < pageSize := by
    intro v
    unfold unmapStride
    split <;> decide
  have hround : ∀ fuel, unmapLoop va pageSize (fuel + 1) s 0 = some (.ok, (unmapStep s va).2) := by
    intro fuel
    rw [unmapLoop, if_neg (by decide)]
    simp only [UInt64.add_zero]
    rw [(unmapStep_spec hwf va).2.1]
    exact unmapLoop_done (hpast _) fuel _
  unfold halMmuUnmap
  rw [if_neg (by simp [hinit])]
  exact hround (2 ^ 52 - 1)

theorem pageAlignDown_toNat (addr : UInt64) :
    (pageAlignDown addr).toNat = addr.toNat / 4096 * 4096 := by
  have hmask : ∀ k < 64, bit (~~~(pageSize - 1)) k = decide (12 ≤ k) := by decide
  exact toNat_and_high hmask

theorem memprotectGuardPage_page (hwf : WellFormed s) (addr : UInt64) :
    ∃ s', memprotectGuardPage s addr = some (0, s') ∧
      ∀ va, va.toNat / 4096 = addr.toNat / 4096 → (X86.translate s' va = none ↔
        X86.translate s addr = none ∨
          s.mmuInitialized = true ∧ ∃ e, (view s addr).leaf = .page4K e) := by
  cases hinit : s.mmuInitialized with
  | false =>
    have hret : halMmuUnmap s (pageAlignDown addr) pageSize = some (.error, s) := by
      rw [halMmuUnmap, if_pos (by simp [hinit])]
    refine ⟨s, by rw [memprotectGuardPage, hret, map_some], fun va hva => ?_⟩
    obtain ⟨hpath, hcanon⟩ := page_path hva
    simp [translate_eq_none_iff, view_congr hpath, hcanon]
  | true =>
    have hret := halMmuUnmap_page hinit (pageAlignDown addr) hwf
    refine ⟨_, by rw [memprotectGuardPage, hret, map_some], fun va hva => ?_⟩
    obtain ⟨hpath, hcanon⟩ := page_path hva
    have hbase : path va = path (pageAlignDown addr) := by
      rw [path_eq_iff_page, pageAlignDown_toNat]
      omega
    rw [translate_eq_none_iff, (unmapStep_spec hwf (pageAlignDown addr)).2.2 va,
      view_congr hpath, translate_eq_none_iff, hcanon]
    cases hleaf : (view s addr).leaf with
    | absent | page1G e | page2M e => simp [unmapView, hleaf]
    | page4K e => simp [unmapView, hleaf, hbase]

/-! ## Ranges and guard pages -/

theorem pageAlignUp_toNat {size : UInt64} (h : size.toNat < 2 ^ 64 - 4096) :
    (pageAlignUp size).toNat = (size.toNat + 4095) / 4096 * 4096 := by
  have hmask : ∀ k < 64, bit (~~~(pageSize - 1)) k = decide (12 ≤ k) := by decide
  have hsum : (size + pageSize - 1).toNat = size.toNat + 4095 := by
    have hpage : pageSize.toNat = 4096 := rfl
    rw [UInt64.toNat_sub_of_le, UInt64.toNat_add, hpage]
    · simp only [reduceToNat]
      omega
    · rw [UInt64.le_iff_toNat_le, UInt64.toNat_add, hpage]
      simp only [reduceToNat]
      omega
  rw [pageAlignUp, toNat_and_high hmask, hsum]
  rfl

def Meets (addr size : UInt64) (page : Nat) : Prop :=
  page * 4096 < addr.toNat + size.toNat ∧ addr.toNat < (page + 1) * 4096

def Reaches (addr size : UInt64) : Prop :=
  addr.toNat % 4096 + size.toNat ≤ (size.toNat + 4095) / 4096 * 4096

instance (addr size : UInt64) : Decidable (Reaches addr size) :=
  inferInstanceAs (Decidable (_ ≤ _))

def tableHal : MmuHal (Nat → Option UInt32) where
  rights := id
  map s virt _ size perms _ :=
    (.ok, fun page => if PageIn virt size page then some perms else s page)
  unmap s virt size := (.ok, fun page => if PageIn virt size page then none else s page)
  map_in _ _ _ _ _ _ _ _ h := if_pos h
  map_out _ _ _ _ _ _ _ h := if_neg h
  unmap_in _ _ _ _ _ h := if_pos h
  unmap_out _ _ _ _ h := if_neg h

section Range

variable {addr size : UInt64} {perms mask : UInt32}

theorem reaches_iff_pages (hsize : 0 < size) (hlt : addr.toNat + size.toNat < 2 ^ 64 - 4096) :
    Reaches addr size ↔
      ∀ page, Meets addr size page → PageIn (pageAlignDown addr) (pageAlignUp size) page := by
  have hpos : 0 < size.toNat := hsize
  simp only [Reaches, Meets, PageIn, pageAlignDown_toNat,
    pageAlignUp_toNat (by omega : size.toNat < _)]
  constructor
  · intro h page hmeets
    omega
  · intro h
    have := h ((addr.toNat + size.toNat - 1) / 4096) (by omega)
    omega

theorem memprotectSet_withholds {σ : Type} (hal : MmuHal σ) {s : σ} {page : Nat} (hsize : 0 < size)
    (hmask : perms &&& mask = 0) (hret : (memprotectSet hal perms s addr size).1 = 0)
    (hin : PageIn (pageAlignDown addr) (pageAlignUp size) page) :
    ¬ hal.Allows mask (memprotectSet hal perms s addr size).2 page := by
  have hne : size ≠ 0 := (UInt64.ne_of_lt hsize).symm
  simp only [memprotectSet, if_neg hne] at hret ⊢
  have hok : (hal.map (hal.unmap s (pageAlignDown addr) (pageAlignUp size)).2 (pageAlignDown addr)
      (pageAlignDown addr) (pageAlignUp size) perms .normal).1 = .ok := by
    by_contra hok
    simp [hok] at hret
  rintro ⟨p, hp, hbit⟩
  rw [hal.map_in _ _ _ _ _ _ _ hok hin, some.injEq] at hp
  exact hbit (hp ▸ hmask)

theorem memprotectSet_covers_iff (hmask : perms &&& mask = 0) (hbit : mask ≠ 0) (hsize : 0 < size)
    (hlt : addr.toNat + size.toNat < 2 ^ 64 - 4096) :
    (∀ (σ : Type) (hal : MmuHal σ) (s : σ), (memprotectSet hal perms s addr size).1 = 0 →
      ∀ page, Meets addr size page →
        ¬ hal.Allows mask (memprotectSet hal perms s addr size).2 page) ↔
    Reaches addr size := by
  rw [reaches_iff_pages hsize hlt]
  constructor
  · intro h page hmeets
    by_contra hout
    have hne : size ≠ 0 := (UInt64.ne_of_lt hsize).symm
    refine h _ tableHal (fun _ => some mask) ?_ page hmeets ?_ <;>
      simp [memprotectSet, MmuHal.Allows, tableHal, hne, hout, hbit]
  · intro h σ hal s hret page hmeets
    exact memprotectSet_withholds hal hsize hmask hret (h page hmeets)

end Range

/-- Every page of the range loses the right exactly when the rounded size reaches the last byte. -/
theorem memprotectSetNx_setRo_cover_iff (addr size : UInt64) (hsize : 0 < size)
    (hlt : addr.toNat + size.toNat < 2 ^ 64 - 4096) :
    ((∀ (σ : Type) (hal : MmuHal σ) (s : σ), (memprotectSetNx hal s addr size).1 = 0 → ∀ page,
        Meets addr size page → ¬ hal.Allows halPageExec (memprotectSetNx hal s addr size).2 page) ↔
      Reaches addr size) ∧
    ((∀ (σ : Type) (hal : MmuHal σ) (s : σ), (memprotectSetRo hal s addr size).1 = 0 → ∀ page,
        Meets addr size page → ¬ hal.Allows halPageWrite (memprotectSetRo hal s addr size).2 page) ↔
      Reaches addr size) :=
  ⟨memprotectSet_covers_iff (by decide) (by decide) hsize hlt,
    memprotectSet_covers_iff (by decide) (by decide) hsize hlt⟩

theorem memprotectSetNx_covers_page : Meets 0x1000 0x1800 2 ∧
    ¬ tableHal.Allows halPageExec (memprotectSetNx tableHal (fun _ => some 7) 0x1000 0x1800).2 2 :=
  ⟨⟨by decide, by decide⟩, (memprotectSetNx_setRo_cover_iff 0x1000 0x1800 (by decide)
    (by decide)).1.mpr (by decide) _ tableHal _ (by decide) 2 ⟨by decide, by decide⟩⟩

/-- Two bytes across a page boundary: the second page keeps its right. -/
theorem memprotectSet_misses_page : Meets 0xFFF 2 1 ∧
    (memprotectSetNx tableHal (fun _ => some 7) 0xFFF 2).1 = 0 ∧
    tableHal.Allows halPageExec (memprotectSetNx tableHal (fun _ => some 7) 0xFFF 2).2 1 ∧
    (memprotectSetRo tableHal (fun _ => some 7) 0xFFF 2).1 = 0 ∧
    tableHal.Allows halPageWrite (memprotectSetRo tableHal (fun _ => some 7) 0xFFF 2).2 1 := by
  refine ⟨⟨by decide, by decide⟩, by decide, ⟨7, by decide, by decide⟩, by decide,
    ⟨7, by decide, by decide⟩⟩

end AlJefra.Kernel.Memprotect
