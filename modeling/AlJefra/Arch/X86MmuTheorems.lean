/-
The contracts of `hal_mmu_map` and `hal_mmu_unmap` on x86-64, each exact in the state before the
call (`MapOk`, `UnmapOk`). A map call has to leave the pages of the tables mapped to themselves
(`MapClear`).
-/
import AlJefra.Arch.X86LoopTheorems
import AlJefra.Lib.Cells

namespace AlJefra.Arch.X86

open AlJefra.Lib AlJefra.Hal UInt64 List Option

/-! ## Translations of single entries -/

def Meets (translation : Option Translation) (phys : Nat) (attrs : Attrs) : Prop :=
  ∃ t, translation = some t ∧ t.phys = phys ∧ t.attrs = attrs

variable {o pa size va virt : UInt64} {i : Fin 512} {π : List (Fin 512)}

theorem meets_page4K_iff {v : View} {phys : UInt64} {perms : UInt32} {type : HalMemType}
    (hnx : v.noExecute = false) (hphys : phys.toNat % 4096 = 0) (ho : o.toNat % 4096 = 0)
    (hva : (va - virt).toNat = o.toNat + va.toNat % 4096) :
    Meets (View.translate { v with leaf := .page4K ((phys + o) ||| pteFlags perms type) } va)
        (phys.toNat + (va - virt).toNat) (requested perms type) ↔
      phys.toNat + (va - virt).toNat < 2 ^ 52 ∧
        ((requested perms type).writable = true → v.writable = true) ∧
        ((requested perms type).user = true → v.user = true) := by
  have hsum : (phys + o).toNat = (phys.toNat + o.toNat) % 2 ^ 64 := UInt64.toNat_add phys o
  have halign : (phys + o).toNat % 2 ^ 12 = 0 := by omega
  obtain ⟨h1, h2, h3, h4, h7, h63⟩ := bits_pte halign perms type
  simp only [Meets, View.translate, View.through, some.injEq, exists_eq_left', h1, h2, h3,
    h4, h7, h63, hnx, Bool.false_or]
  rw [field_pte, hsum, hva]
  constructor
  · rintro ⟨haddr, hattrs⟩
    have hw := congrArg Attrs.writable hattrs
    have hu := congrArg Attrs.user hattrs
    exact ⟨by omega, fun hreq => by simpa [hreq] using hw, fun hreq => by simpa [hreq] using hu⟩
  · rintro ⟨hlt, hw, hu⟩
    have hhigh : bit (phys + o) 63 = false := bit_of_lt (n := 52) (by omega) (by decide)
    refine ⟨by omega, ?_⟩
    have hwand : (v.writable && (requested perms type).writable) =
        (requested perms type).writable := by
      cases hreq : (requested perms type).writable with
      | false => simp
      | true => simp [hw hreq]
    have huand : (v.user && (requested perms type).user) = (requested perms type).user := by
      cases hreq : (requested perms type).user with
      | false => simp
      | true => simp [hu hreq]
    rw [hwand, huand, hhigh, Bool.false_or]
    rfl

/-! ## Splitting -/

def SplitSafe (v : View) : Prop :=
  ∀ e, v.leaf = .page2M e →
    (bit e 1 = true ∨ v.writable = false) ∧ (bit e 2 = false ∨ v.user = false) ∧
      bit e 3 = false ∧ bit e 4 = false ∧ bit e 12 = false ∧ bit e 8 = false

theorem split_translate_iff (v : View) (va : UInt64) :
    (v.split va).translate va = v.translate va ↔ SplitSafe v := by
  cases hleaf : v.leaf with
  | absent | page1G e | page4K e => simp [SplitSafe, View.split, hleaf]
  | page2M e =>
    have hpt : (ptIndex va).val = va.toNat / 4096 % 512 := tableIndex_val (by decide) va
    obtain ⟨h1, h2, h3, h4, h7, h8, h63⟩ := bits_splitEntry e (ptIndex va)
    have hphys : (field e 21 31 * 512 + (ptIndex va).val) * 2 ^ 12 + va.toNat % 2 ^ 12 =
        field e 21 31 * 2 ^ 21 + va.toNat % 2 ^ 21 := by
      omega
    have hw : (v.writable && true) = (v.writable && bit e 1) ↔
        bit e 1 = true ∨ v.writable = false := by
      cases v.writable <;> cases bit e 1 <;> simp
    have hu : (v.user && false) = (v.user && bit e 2) ↔ bit e 2 = false ∨ v.user = false := by
      cases v.user <;> cases bit e 2 <;> simp
    simp only [View.split, hleaf, View.translate, View.through, some.injEq,
      Translation.mk.injEq, Attrs.mk.injEq, h1, h2, h3, h4, h7, h8, h63, SplitSafe,
      Leaf.page2M.injEq, forall_eq', Nat.reduceSub, field_splitEntry, hphys, hw, hu, true_and,
      and_assoc, eq_comm (a := false)]

/-! ## Ranges -/

def InRange (virt size va : UInt64) : Prop := va - virt < size

instance (virt size va : UInt64) : Decidable (InRange virt size va) :=
  inferInstanceAs (Decidable (_ < _))

theorem inRange_add (h : o.toNat < size.toNat) : InRange virt size (virt + o) := by
  rw [InRange, lt_iff_toNat_lt, UInt64.toNat_sub, UInt64.toNat_add]
  have := o.toNat_lt
  have := virt.toNat_lt
  rwa [show (2 ^ 64 - virt.toNat + (virt.toNat + o.toNat) % 2 ^ 64) % 2 ^ 64 = o.toNat by omega]

theorem offset_of_page (hvirt : virt.toNat % 4096 = 0) (hsize : size.toNat % 4096 = 0)
    (ho : o.toNat % 4096 = 0) (hlt : o.toNat < size.toNat) (hc : Canonical (virt + o))
    (hva : Canonical va) (hpath : path (virt + o) = path va) :
    (va - virt).toNat = o.toNat + va.toNat % 4096 ∧ InRange virt size va := by
  have hpage := same_page hc hva hpath
  have hs := size.toNat_lt
  have hv := virt.toNat_lt
  rw [UInt64.toNat_add] at hpage
  have hsub : (va - virt).toNat = o.toNat + va.toNat % 4096 := by
    rw [UInt64.toNat_sub]
    omega
  refine ⟨hsub, ?_⟩
  rw [InRange, lt_iff_toNat_lt, hsub]
  omega

/-! ## `hal_mmu_map` -/

structure MapContract (s s' : MmuState) (virt phys size : UInt64) (perms : UInt32)
    (type : HalMemType) : Prop where
  inside : ∀ va, InRange virt size va →
    Meets (translate s' va) (phys.toNat + (va - virt).toNat) (requested perms type)
  outside : ∀ va, ¬ InRange virt size va → translate s' va = translate s va

/-- Canonical addresses; for each page visited, 52 physical bits and tables above that leave the
rights; for each page skipped under a 1 GiB leaf, the translation asked for; for each 2 MiB leaf
visited in part, attributes that splitting keeps. -/
structure MapOk (s : MmuState) (virt phys size : UInt64) (perms : UInt32) (type : HalMemType) :
    Prop where
  canonical : ∀ va, InRange virt size va → Canonical va
  reached : ∀ va, InRange virt size va → (∀ e, (view s va).leaf ≠ .page1G e) →
    Reached (mapOffsets s virt size) virt va →
    phys.toNat + (va - virt).toNat < 2 ^ 52 ∧
      ((requested perms type).writable = true → (view s va).writable = true) ∧
      ((requested perms type).user = true → (view s va).user = true)
  passed : ∀ va, InRange virt size va →
    (∃ e, (view s va).leaf = .page1G e) ∨ ¬ Touched (mapOffsets s virt size) virt va →
    Meets (translate s va) (phys.toNat + (va - virt).toNat) (requested perms type)
  passedSplit : ∀ va, InRange virt size va → (∀ e, (view s va).leaf ≠ .page1G e) →
    ¬ Reached (mapOffsets s virt size) virt va → Touched (mapOffsets s virt size) virt va →
    Meets (((view s va).split va).translate va) (phys.toNat + (va - virt).toNat)
      (requested perms type)
  split : ∀ va, Canonical va → ¬ InRange virt size va →
    Touched (mapOffsets s virt size) virt va → SplitSafe (view s va)

theorem not_1G_or (v : View) : (∃ e, v.leaf = .page1G e) ∨ ∀ e, v.leaf ≠ .page1G e := by
  by_cases h : ∃ e, v.leaf = .page1G e
  · exact .inl h
  · exact .inr fun e he => h ⟨e, he⟩

section Map

variable {s s' : MmuState} {virt phys size : UInt64} {perms : UInt32} {type : HalMemType}

theorem mapOffsets_spec {o : UInt64} (ho : o ∈ mapOffsets s virt size) :
    o.toNat % 4096 = 0 ∧ o.toNat < size.toNat :=
  visited_spec (fun _ => mapStride_align _) (2 ^ 52) 0 (by decide) o ho

section

variable (hself : SelfMapped s) (hclear : MapClear s virt phys size perms type)
  (hret : halMmuMap s virt phys size perms type = some (.ok, s'))
include hself hclear hret

theorem halMmuMap_spec : SelfMapped s' ∧ ∀ x, view s' x = (mapOffsets s virt size).foldl
    (fun v o => mapView (virt + o) ((phys + o) ||| pteFlags perms type) x v) (view s x) := by
  unfold halMmuMap at hret
  split at hret
  · cases hret
  · exact mapLoop_view hclear (2 ^ 52) s 0 hself (fun _ => id) (fun _ => rfl) hret

theorem halMmuMap_view_cases (va : UInt64) :
    ((∃ e, (view s va).leaf = .page1G e) ∨ ¬ Touched (mapOffsets s virt size) virt va →
      view s' va = view s va) ∧
    ((∀ e, (view s va).leaf ≠ .page1G e) → ¬ Reached (mapOffsets s virt size) virt va →
      Touched (mapOffsets s virt size) virt va → view s' va = (view s va).split va) := by
  rw [(halMmuMap_spec hself hclear hret).2]
  refine ⟨fun h => ?_, fun h1G hreached htouched => ?_⟩
  · obtain ⟨e, he⟩ | hfar := h
    · exact foldl_fixed _ fun _ _ => mapView_1G he
    · exact foldl_mapView_far _ hfar
  · exact foldl_mapView_near h1G _ hreached htouched

variable {va : UInt64}

theorem halMmuMap_view_reached (hvirt : virt.toNat % 4096 = 0) (hsize : size.toNat % 4096 = 0)
    (hcanon : ∀ va, InRange virt size va → Canonical va) (hva : Canonical va)
    (h1G : ∀ e, (view s va).leaf ≠ .page1G e)
    (hreached : Reached (mapOffsets s virt size) virt va) :
    InRange virt size va ∧ ∃ o : UInt64, o.toNat % 4096 = 0 ∧
      (va - virt).toNat = o.toNat + va.toNat % 4096 ∧
      view s' va = { view s va with leaf := .page4K ((phys + o) ||| pteFlags perms type) } := by
  have hoffset : ∀ o ∈ mapOffsets s virt size, path (virt + o) = path va →
      (va - virt).toNat = o.toNat + va.toNat % 4096 ∧ InRange virt size va := by
    intro o ho hpath
    obtain ⟨halign, hlt⟩ := mapOffsets_spec ho
    exact offset_of_page hvirt hsize halign hlt (hcanon _ (inRange_add hlt)) hva hpath
  obtain ⟨o, ho, hpath⟩ := hreached
  obtain ⟨hsub, hin⟩ := hoffset o ho hpath
  refine ⟨hin, o, (mapOffsets_spec ho).1, hsub, ?_⟩
  rw [(halMmuMap_spec hself hclear hret).2]
  refine foldl_mapView_hit _ _ h1G ⟨o, ho, hpath⟩ fun o' ho' hpath' => ?_
  -- the page has one offset
  have hsub' := (hoffset o' ho' hpath').1
  rw [show o' = o from UInt64.toNat_inj.mp (by omega)]

end

theorem translate_canonical (h : Canonical va) (t : MmuState) :
    translate t va = (view t va).translate va := if_pos h

theorem translate_eq_none_iff {s : MmuState} :
    translate s va = none ↔ ¬ Canonical va ∨ (view s va).leaf = .absent := by
  unfold translate
  by_cases hva : Canonical va
  · cases hleaf : (view s va).leaf with
    | absent => simp [View.translate, hleaf]
    | page1G e | page2M e | page4K e => simp [View.translate, hleaf, hva]
  · simp [hva]

end Map

/-- 2 MiB pages under the tables and the pool, a 1 GiB page at 1 GiB and a 4 KiB page at 2 MiB. -/
def mixedTables : PhysMem := fun page i =>
  if page = 0x10000 ∧ i.val = 0 then 0x11007
  else if page = 0x11000 ∧ i.val = 0 then 0x12007
  else if page = 0x11000 ∧ i.val = 1 then 0x40000083
  else if page = 0x12000 ∧ i.val = 0 then 0x87
  else if page = 0x12000 ∧ i.val = 1 then 0x13007
  else if page = 0x12000 ∧ 8 ≤ i.val ∧ i.val < 16 then i.val.toUInt64 * halPage2M ||| 0x83
  else if page = 0x13000 ∧ i.val = 0 then 0x200007
  else 0

def mixed : MmuState where
  mem := mixedTables
  cr3 := 0x10000
  pageBitmap := fun _ => false
  mmuInitialized := true

def mixedPages : List (List (Fin 512) × UInt64) :=
  [([], 0x10000), ([pml4Index 0], 0x11000), ([pml4Index 0, pdptIndex 0], 0x12000),
    ([pml4Index 0, pdptIndex 0, pdIndex 0x200000], 0x13000)]

theorem mixed_next {p q : UInt64} (hp : (π, p) ∈ mixedPages)
    (hn : nextTable π.length (mixed.mem p i) = some q) :
    (π ++ [i], q) ∈ mixedPages ∧ (mixed.mem p i).toNat < 2 ^ 52 := by
  have hall : ∀ x ∈ mixedPages, ∀ i : Fin 512, (nextTable x.1.length (mixed.mem x.2 i)).all
      (fun q => decide ((x.1 ++ [i], q) ∈ mixedPages ∧ (mixed.mem x.2 i).toNat < 2 ^ 52))
        = true := by
    decide +kernel
  have h := hall _ hp i
  rw [hn] at h
  exact of_decide_eq_true h

theorem mixed_table : ∀ {p : UInt64}, mixed.Table π p → (π, p) ∈ mixedPages := by
  induction π using reverseRecOn with
  | nil =>
    intro p hp
    obtain rfl : frameAddr mixed.cr3 = p := some.inj hp
    decide
  | append_singleton π i ih =>
    intro q hq
    obtain ⟨p, hp, hn⟩ := reaches_snoc.mp hq
    exact (mixed_next (ih hp) hn).1

theorem wellFormed_mixed : WellFormed mixed := by
  have hroot : mixed.cr3.toNat < 2 ^ 52 := by decide
  have honce : ∀ x ∈ mixedPages, ∀ y ∈ mixedPages, x.2 = y.2 → x.1 = y.1 := by decide
  have hlow : ∀ x ∈ mixedPages, x.2.toNat < 16777216 := by decide
  refine ⟨hroot, ?_, ?_, ?_⟩
  · intro π π' p hp hp'
    exact honce _ (mixed_table hp) _ (mixed_table hp') rfl
  · intro π p i q hp hn
    exact (mixed_next (mixed_table hp) hn).2
  · intro i hi _ π hp
    have := hlow _ (mixed_table hp)
    rw [poolPage_toNat hi] at this
    omega

instance (v : View) (p : UInt64) : Decidable (v.Direct p) :=
  decidable_of_iff ((v.translate p).any fun t => t.phys = p.toNat ∧ t.attrs.writable = true) (by
    simp [View.Direct, Option.any_eq_true])

theorem view_mixed_pool (i : Fin 8) (j : Fin 512) :
    readTrace (trace nextTable mixed.mem 0 (frameAddr mixed.cr3) [0, 0, ⟨8 + i, by omega⟩, j]) =
      ⟨true, true, false, .page2M ((8 + i.val).toUInt64 * halPage2M ||| 0x83)⟩ := by
  match i with
  | 0 | 1 | 2 | 3 | 4 | 5 | 6 | 7 => rfl

theorem direct_poolPage {k : Nat} (hk : k < 4096) :
    (view mixed (poolPage k)).Direct (poolPage k) := by
  have hentry : ∀ i : Fin 8, field ((8 + i.val).toUInt64 * halPage2M ||| 0x83) 21 31 = 8 + i ∧
      bit ((8 + i.val).toUInt64 * halPage2M ||| 0x83) 1 = true := by decide
  obtain ⟨hfield, hbit⟩ := hentry ⟨k / 512, by omega⟩
  have hpage := poolPage_toNat hk
  have hpath : path (poolPage k) =
      [0, 0, ⟨8 + (⟨k / 512, by omega⟩ : Fin 8), by omega⟩, ptIndex (poolPage k)] := by
    simp only [path, cons.injEq, and_true, Fin.ext_iff, pml4Index, pdptIndex, pdIndex]
    rw [tableIndex_val (by decide), tableIndex_val (by decide), tableIndex_val (by decide), hpage]
    exact ⟨by simp; omega, by simp; omega, by simp; omega⟩
  rw [view, hpath, view_mixed_pool]
  refine ⟨_, rfl, ?_, by rw [View.through, hbit]; rfl⟩
  simp only [View.through, Nat.reduceSub, hfield, hpage]
  omega

theorem selfMapped_mixed : SelfMapped mixed := by
  have htables : ∀ x ∈ mixedPages, Canonical x.2 ∧ (view mixed x.2).Direct x.2 := by decide +kernel
  refine ⟨wellFormed_mixed, ?_⟩
  rintro p (⟨π, hp⟩ | ⟨k, hk, -, rfl⟩)
  · exact htables _ (mixed_table hp)
  · have := poolPage_toNat hk
    exact ⟨.inl (by omega), direct_poolPage hk⟩

theorem mapClear_mixed_unused (perms : UInt32) (type : HalMemType) :
    MapClear mixed 0x400000 0x5000 0x1000 perms type := by
  have hlow : ∀ x ∈ mixedPages, x.2.toNat < 0x400000 := by decide
  intro o ho p hp hpath
  have hlt : o.toNat < 0x1000 := lt_iff_toNat_lt.mp ho
  have hbase : (0x400000 : UInt64).toNat = 0x400000 := rfl
  rw [path_eq_iff_page, UInt64.toNat_add, hbase] at hpath
  obtain ⟨π, hp⟩ | ⟨k, hk, -, rfl⟩ := hp
  · have hp : p.toNat < 0x400000 := hlow _ (mixed_table hp)
    omega
  · rw [poolPage_toNat hk] at hpath
    omega

theorem view_mixed_unused (h : (path va).take 3 = [0, 0, 2]) :
    view mixed va = ⟨true, true, false, .absent⟩ := by
  have hall : ∀ k : Fin 512, readTrace (trace nextTable mixed.mem 0 (frameAddr mixed.cr3)
      [0, 0, 2, k]) = ⟨true, true, false, .absent⟩ := fun _ => rfl
  have hpath : path va = [0, 0, 2, ptIndex va] := by
    simp only [path, take_succ_cons, take_zero, cons.injEq] at h ⊢
    exact ⟨h.1, h.2.1, h.2.2.1, trivial⟩
  rw [view, hpath]
  exact hall _

theorem mapOk_mixed_unused :
    MapOk mixed 0x400000 0x5000 0x1000 (halPageWrite ||| halPageUser) .normal := by
  have hin : ∀ va, InRange 0x400000 0x1000 va → path (0x400000 + 0) = path va ∧
      va.toNat < 0x401000 ∧ (va - 0x400000).toNat < 0x1000 := by
    intro va h
    rw [InRange, lt_iff_toNat_lt] at h
    have hsub : (va - 0x400000).toNat = (2 ^ 64 - 0x400000 + va.toNat) % 2 ^ 64 :=
      UInt64.toNat_sub va 0x400000
    have hsize : (0x1000 : UInt64).toNat = 0x1000 := rfl
    have hbase : (0x400000 + 0 : UInt64).toNat = 0x400000 := rfl
    have hva := va.toNat_lt
    rw [path_eq_iff_page, hbase]
    omega
  have hfirst : (0 : UInt64) ∈ mapOffsets mixed 0x400000 0x1000 := by
    exact mem_cons_self
  have hreached : ∀ va, InRange 0x400000 0x1000 va →
      Reached (mapOffsets mixed 0x400000 0x1000) 0x400000 va :=
    fun va h => ⟨0, hfirst, (hin va h).1⟩
  have hview : ∀ va, InRange 0x400000 0x1000 va → view mixed va = ⟨true, true, false, .absent⟩ := by
    intro va h
    refine view_mixed_unused ?_
    rw [← (hin va h).1]
    decide
  refine ⟨fun va h => .inl ?_, fun va h _ _ => ⟨?_, ?_, ?_⟩, fun va h hpassed => ?_,
    fun va h _ hnot => absurd (hreached va h) hnot, fun va _ _ htouched => ?_⟩
  · have := (hin va h).2.1
    omega
  · have hphys : (0x5000 : UInt64).toNat = 0x5000 := rfl
    have := (hin va h).2.2
    omega
  · simp [hview va h]
  · simp [hview va h]
  · obtain ⟨e, he⟩ | hfar := hpassed
    · rw [hview va h] at he
      cases he
    · exact absurd ⟨0, hfirst, by rw [(hin va h).1]⟩ hfar
  · obtain ⟨o, ho, hpath⟩ := htouched
    obtain ⟨halign, hlt⟩ := mapOffsets_spec ho
    have hsize : (0x1000 : UInt64).toNat = 0x1000 := rfl
    have hzero : o = 0 := UInt64.toNat_inj.mp (by rw [UInt64.toNat_zero]; omega)
    have hva : (path va).take 3 = [0, 0, 2] := by
      rw [← hpath, hzero]
      decide
    intro e he
    rw [view_mixed_unused hva] at he
    cases he

structure UnmapContract (s s' : MmuState) (virt size : UInt64) : Prop where
  inside : ∀ va, InRange virt size va → translate s' va = none
  outside : ∀ va, ¬ InRange virt size va → translate s' va = translate s va

/-- Every mapped address of the range is in a 4 KiB page that the loop comes to, and no page it
comes to is, modulo 2^48, one outside. -/
structure UnmapOk (s : MmuState) (virt size : UInt64) : Prop where
  inside : ∀ va, InRange virt size va → translate s va ≠ none →
    (∃ e, (view s va).leaf = .page4K e) ∧ Reached (unmapOffsets s virt size) virt va
  outside : ∀ va, Canonical va → ¬ InRange virt size va →
    Reached (unmapOffsets s virt size) virt va → ∀ e, (view s va).leaf ≠ .page4K e

section Unmap

variable {s s' : MmuState} {virt size : UInt64}

section

variable (hwf : WellFormed s) (hret : halMmuUnmap s virt size = some (.ok, s'))
include hwf hret

theorem halMmuUnmap_spec : WellFormed s' ∧ ∀ x, view s' x =
    (unmapOffsets s virt size).foldl (fun v o => unmapView (virt + o) x v) (view s x) := by
  unfold halMmuUnmap at hret
  split at hret
  · cases hret
  · exact unmapLoop_view (2 ^ 52) s 0 hwf (fun _ => rfl) hret

theorem halMmuUnmap_translate (va : UInt64) :
    ((∃ e, (view s va).leaf = .page4K e) → Reached (unmapOffsets s virt size) virt va →
      translate s' va = none) ∧
    (¬ ((∃ e, (view s va).leaf = .page4K e) ∧ Reached (unmapOffsets s virt size) virt va) →
      translate s' va = translate s va) := by
  have hview := (halMmuUnmap_spec hwf hret).2 va
  constructor
  · rintro ⟨e, he⟩ hreached
    have habsent := foldl_unmapView_hit he _ hreached
    rw [← hview] at habsent
    simp [translate, View.translate, habsent]
  · intro h
    have hsame : view s' va = view s va := by
      rw [hview]
      by_cases hreached : Reached (unmapOffsets s virt size) virt va
      · exact foldl_unmapView_keep (fun e he => h ⟨⟨e, he⟩, hreached⟩) _
      · exact foldl_unmapView_far _ hreached
    simp only [translate, hsame]

theorem unmapContract_iff :
    UnmapContract s s' virt size ↔ UnmapOk s virt size := by
  have heffect := halMmuUnmap_translate hwf hret
  have herases := erases_iff (InRange virt size) id (fun va h => (heffect va).1 h.1 h.2)
    fun va => (heffect va).2
  simp only [Option.map_id_fun, id] at herases
  constructor
  · intro hcon
    have h := herases.mp ⟨hcon.inside, hcon.outside⟩
    refine ⟨fun va hin hmapped => (h va hmapped).mp hin, fun va hva hout hreached e he => ?_⟩
    exact hout ((h va (by simp [translate, hva, View.translate, he])).mpr ⟨⟨e, he⟩, hreached⟩)
  · intro hok
    refine (herases.mpr fun va hmapped => ⟨fun hin => hok.inside va hin hmapped, ?_⟩).elim .mk
    rintro ⟨⟨e, he⟩, hreached⟩
    by_contra hout
    exact hok.outside va (by_contra fun hva => hmapped (if_neg hva)) hout hreached e he

end

theorem page_offset {va : UInt64} (hvirt : virt.toNat % 4096 = 0) (hin : InRange virt size va) :
    ∃ o : UInt64, o.toNat % 4096 = 0 ∧ o.toNat < size.toNat ∧ path (virt + o) = path va := by
  rw [InRange, lt_iff_toNat_lt, UInt64.toNat_sub] at hin
  have hv := virt.toNat_lt
  have ho : (UInt64.ofNat ((2 ^ 64 - virt.toNat + va.toNat) % 2 ^ 64 / 4096 * 4096)).toNat =
      (2 ^ 64 - virt.toNat + va.toNat) % 2 ^ 64 / 4096 * 4096 :=
    toNat_ofNat_of_lt' (by change _ < 2 ^ 64; omega)
  refine ⟨UInt64.ofNat ((2 ^ 64 - virt.toNat + va.toNat) % 2 ^ 64 / 4096 * 4096), ?_, ?_, ?_⟩
  · omega
  · omega
  · rw [path_eq_iff_page, UInt64.toNat_add, ho]
    omega

theorem unmapOk_iff_of_canonical (hvirt : virt.toNat % 4096 = 0) (hsize : size.toNat % 4096 = 0)
    (hcanon : ∀ va, InRange virt size va → Canonical va) :
    UnmapOk s virt size ↔ ∀ va, InRange virt size va →
      ∀ e, (view s va).leaf ≠ .page1G e ∧ (view s va).leaf ≠ .page2M e := by
  constructor
  · intro hok va hin e
    have hmapped : ∀ l, (view s va).leaf = l → l ≠ .absent → (∃ e', l = .page4K e') := by
      intro l hl hne
      obtain ⟨⟨e', he'⟩, -⟩ := hok.inside va hin (by
        rw [translate_canonical (hcanon va hin), View.translate, hl]
        cases l with
        | absent => exact absurd rfl hne
        | page1G | page2M => simp
        | page4K => simp)
      exact ⟨e', hl.symm.trans he'⟩
    constructor
    · intro he
      obtain ⟨e', he'⟩ := hmapped _ he (by simp)
      cases he'
    · intro he
      obtain ⟨e', he'⟩ := hmapped _ he (by simp)
      cases he'
  · intro hsmall
    have hstride : ∀ o : UInt64, o.toNat % 4096 = 0 → o.toNat < size.toNat →
        unmapStride (view s (virt + o)) = pageSize4K := by
      intro o _ hlt
      have h := hsmall (virt + o) (inRange_add hlt)
      unfold unmapStride
      split
      · rename_i e he
        exact absurd he (h e).1
      · rename_i e he
        exact absurd he (h e).2
      · rfl
    refine ⟨fun va hin hmapped => ⟨?_, ?_⟩, fun va hva hout hreached => ?_⟩
    · cases hleaf : (view s va).leaf with
      | absent =>
        rw [translate_canonical (hcanon va hin), View.translate, hleaf] at hmapped
        exact absurd rfl hmapped
      | page1G e => exact absurd hleaf (hsmall va hin e).1
      | page2M e => exact absurd hleaf (hsmall va hin e).2
      | page4K e => exact ⟨e, rfl⟩
    · obtain ⟨o, ho, hlt, hpath⟩ := page_offset hvirt hin
      have hs := size.toNat_lt
      exact ⟨o, visited_all hstride (2 ^ 52) 0 (by decide) (by omega) o ho (Nat.zero_le _) hlt,
        hpath⟩
    · obtain ⟨o, ho, hpath⟩ := hreached
      obtain ⟨halign, hlt⟩ :=
        visited_spec (fun _ => unmapStride_align _) (2 ^ 52) 0 (by decide) o ho
      exact absurd (offset_of_page hvirt hsize halign hlt (hcanon _ (inRange_add hlt)) hva
        hpath).2 hout

end Unmap

/-! ## Runs of calls -/

structure MapCall where
  virt : UInt64
  phys : UInt64
  size : UInt64
  perms : UInt32
  type : HalMemType

/-- Every call returns `HAL_OK` and maps none of the pages the code uses elsewhere. -/
def Succeeds : MmuState → List MapCall → MmuState → Prop
  | s, [], t => t = s
  | s, c :: cs, t => MapClear s c.virt c.phys c.size c.perms c.type ∧
    ∃ s', halMmuMap s c.virt c.phys c.size c.perms c.type = some (.ok, s') ∧ Succeeds s' cs t

end AlJefra.Arch.X86
