/- The loops of `hal_mmu_map` and `hal_mmu_unmap` on ranges of megapages. -/
import AlJefra.Arch.Riscv64WalkTheorems
import AlJefra.Lib.Demand

namespace AlJefra.Arch.Riscv64

open AlJefra.Lib AlJefra.Hal List UInt64

/-! ## One megapage -/

def Placeable (s : MmuState) (i : Fin 512) : Prop :=
  ¬ IsGiga s i ∧ (RootAbsent s i → s.ptPoolNext < 64)

theorem bit_megaPte_zero (pa flags : UInt64) : bit (megaPte pa flags) 0 = true := by
  simp [megaPte, bit_pteV]

variable {a flags : UInt64} {s : MmuState} {i : Fin 512} {b : UInt64 × UInt64}

theorem isLeaf_megaPte (pa : UInt64) (h : isLeaf flags = true) :
    isLeaf (megaPte pa flags) = true := by
  simp only [isLeaf, Bool.or_eq_true] at h ⊢
  simp only [megaPte, bit_or, Bool.or_eq_true]
  rcases h with (h | h) | h <;> simp [h]

theorem not_isGiga_of_absent (h : RootAbsent s i) : ¬ IsGiga s i := by
  intro hg
  rw [RootAbsent, hg.1] at h
  cases h

structure Mapped (s t : MmuState) (va pte : UInt64) : Prop where
  wf : WellFormed t
  cells : cell t = Function.update (cell s) (key va) (.mega pte)
  absent : ∀ i, RootAbsent t i ↔ RootAbsent s i ∧ i ≠ vpn2 va
  giga : ∀ i, IsGiga t i ↔ IsGiga s i
  next : t.ptPoolNext = s.ptPoolNext + if RootAbsent s (vpn2 va) then 1 else 0

section Step

variable {s : MmuState} (hwf : WellFormed s)

include hwf

variable {flags : UInt64}

theorem setMegapage_spec (va pa : UInt64) (hflags : isLeaf flags = true)
    (ha : ¬ RootAbsent s (vpn2 va)) (hg : ¬ IsGiga s (vpn2 va)) :
    Mapped s (setMegapage s va pa flags) va (megaPte pa flags) := by
  obtain ⟨hwf', hroot, hcell⟩ := writeWord_spec hwf ha hg (vpn1 va)
    (v := megaPte pa flags) fun _ => isLeaf_megaPte pa hflags
  refine ⟨hwf', ?_, ?_, ?_, ?_⟩
  · change cell (s.write (ppnToPa (s.root (vpn2 va))) (vpn1 va) (megaPte pa flags)) = _
    rw [hcell, if_pos (bit_megaPte_zero pa flags)]
    rfl
  · intro i
    change RootAbsent (s.write (ppnToPa (s.root (vpn2 va))) (vpn1 va) (megaPte pa flags)) i ↔ _
    rw [RootAbsent, hroot]
    exact ⟨fun h => ⟨h, fun hi => ha (hi ▸ h)⟩, fun h => h.1⟩
  · intro i
    change IsGiga (s.write (ppnToPa (s.root (vpn2 va))) (vpn1 va) (megaPte pa flags)) i ↔ _
    rw [IsGiga, hroot, IsGiga]
  · rw [if_neg ha]
    rfl

theorem mapMegapage_cases (va pa : UInt64) (hflags : isLeaf flags = true) :
    (¬ Placeable s (vpn2 va) ∧ mapMegapage s va pa flags = s) ∨
      (Placeable s (vpn2 va) ∧ Mapped s (mapMegapage s va pa flags) va (megaPte pa flags)) := by
  unfold mapMegapage
  by_cases ha : RootAbsent s (vpn2 va)
  · rw [if_pos (rootAbsent_iff.mpr ha)]
    by_cases hroom : s.ptPoolNext < 64
    · refine .inr ⟨⟨not_isGiga_of_absent ha, fun _ => hroom⟩, ?_⟩
      have halloc : ¬ s.ptPoolNext ≥ ptPoolPages := Nat.not_le.mpr hroom
      simp only [allocPtPage, if_neg halloc]
      change Mapped s (setMegapage (s.linked (vpn2 va)) va pa flags) va (megaPte pa flags)
      obtain ⟨hwf', hcell, habs, hgiga⟩ := linked_spec hwf ha hroom
      have hstep := setMegapage_spec hwf' va pa hflags (by simp [habs])
        (by rw [hgiga]; exact not_isGiga_of_absent ha)
      refine ⟨hstep.wf, by rw [hstep.cells, hcell], fun i => ?_, fun i => ?_, ?_⟩
      · rw [hstep.absent, habs]
        exact ⟨fun h => h.1, fun h => ⟨h, h.2⟩⟩
      · rw [hstep.giga, hgiga]
      · rw [hstep.next, if_neg (by simp [habs]), if_pos ha]
        rfl
    · refine .inl ⟨fun h => hroom (h.2 ha), ?_⟩
      have halloc : s.ptPoolNext ≥ ptPoolPages := Nat.not_lt.mp hroom
      simp only [allocPtPage, if_pos halloc]
  · rw [if_neg (mt rootAbsent_iff.mp ha)]
    by_cases hg : IsGiga s (vpn2 va)
    · rw [if_pos ((isGiga_iff ha).mpr hg)]
      exact .inl ⟨fun h => h.1 hg, rfl⟩
    · rw [if_neg (mt (isGiga_iff ha).mp hg)]
      exact .inr ⟨⟨hg, fun h => absurd h ha⟩, setMegapage_spec hwf va pa hflags ha hg⟩

end Step

/-! ## The blocks of a range -/

def blocks : Nat → UInt64 → UInt64 → List (UInt64 × UInt64)
  | 0, _, _ => []
  | n + 1, virt, phys => (virt, phys) :: blocks n (virt + megapage) (phys + megapage)

def mapAll (flags : UInt64) (s : MmuState) (bs : List (UInt64 × UInt64)) : MmuState :=
  bs.foldl (fun s b => mapMegapage s b.1 b.2 flags) s

def Room (s : MmuState) (bs : List (UInt64 × UInt64)) : Prop :=
  s.ptPoolNext + (demand (RootAbsent s) (bs.map fun b => vpn2 b.1)).card ≤ 64

def mapWrites (s : MmuState) (flags : UInt64) (bs : List (UInt64 × UInt64)) :
    List ((Fin 512 × Fin 512) × Cell) :=
  (bs.filter fun b => ¬ IsGiga s (vpn2 b.1)).map fun b => (key b.1, .mega (megaPte b.2 flags))

theorem room_step {t : MmuState} {pte : UInt64} (h : Mapped s t b.1 pte)
    (bs : List (UInt64 × UInt64)) : Room t bs ↔ Room s (b :: bs) := by
  unfold Room
  rw [map_cons, card_demand_cons h.absent, h.next]
  omega

theorem room_giga (hg : IsGiga s (vpn2 b.1)) (bs : List (UInt64 × UInt64)) :
    Room s bs ↔ Room s (b :: bs) := by
  unfold Room
  rw [map_cons, demand_cons, if_neg fun ha => not_isGiga_of_absent ha hg]

/-! ## All blocks -/

theorem mapAll_keeps (hflags : isLeaf flags = true) :
    ∀ (bs : List (UInt64 × UInt64)) (s : MmuState), WellFormed s →
    WellFormed (mapAll flags s bs) ∧ ∀ i, IsGiga (mapAll flags s bs) i ↔ IsGiga s i := by
  intro bs
  induction bs with
  | nil => intro s hwf; exact ⟨hwf, fun _ => Iff.rfl⟩
  | cons b bs ih =>
    intro s hwf
    rcases mapMegapage_cases hwf b.1 b.2 hflags with ⟨-, heq⟩ | ⟨-, hstep⟩
    · rw [mapAll, foldl_cons, heq]
      exact ih s hwf
    · obtain ⟨hwf', hgiga⟩ := ih _ hstep.wf
      exact ⟨hwf', fun i => (hgiga i).trans (hstep.giga i)⟩

theorem mapAll_exhausted (hflags : isLeaf flags = true) :
    ∀ (bs : List (UInt64 × UInt64)) (s : MmuState), WellFormed s → 64 ≤ s.ptPoolNext →
    RootAbsent s i → RootAbsent (mapAll flags s bs) i := by
  intro bs
  induction bs with
  | nil => intro s _ _ ha; exact ha
  | cons b bs ih =>
    intro s hwf hfull ha
    rw [mapAll, foldl_cons]
    rcases mapMegapage_cases hwf b.1 b.2 hflags with ⟨-, heq⟩ | ⟨hplace, hstep⟩
    · rw [heq]
      exact ih s hwf hfull ha
    · have hother : i ≠ vpn2 b.1 := by
        rintro rfl
        have := hplace.2 ha
        omega
      refine ih _ hstep.wf ?_ ((hstep.absent i).mpr ⟨ha, hother⟩)
      rw [hstep.next]
      omega

theorem mapAll_cells (hflags : isLeaf flags = true) :
    ∀ (bs : List (UInt64 × UInt64)) (s : MmuState), WellFormed s → Room s bs →
    cell (mapAll flags s bs) = store (cell s) (mapWrites s flags bs) := by
  intro bs
  induction bs with
  | nil => intro s _ _; rfl
  | cons b bs ih =>
    intro s hwf hroom
    rw [mapAll, foldl_cons]
    by_cases hg : IsGiga s (vpn2 b.1)
    · have hsame : mapMegapage s b.1 b.2 flags = s := by
        rcases mapMegapage_cases hwf b.1 b.2 hflags with ⟨-, heq⟩ | ⟨hplace, -⟩
        · exact heq
        · exact absurd hg hplace.1
      rw [hsame, show mapWrites s flags (b :: bs) = mapWrites s flags bs by simp [mapWrites, hg]]
      exact ih s hwf ((room_giga hg bs).mpr hroom)
    · have hplace : Placeable s (vpn2 b.1) := by
        refine ⟨hg, fun ha => ?_⟩
        have hpos := card_demand_pos ha (bs.map fun b => vpn2 b.1)
        unfold Room at hroom
        rw [map_cons] at hroom
        omega
      have hstep : Mapped s (mapMegapage s b.1 b.2 flags) b.1 (megaPte b.2 flags) := by
        rcases mapMegapage_cases hwf b.1 b.2 hflags with ⟨hno, -⟩ | ⟨-, h⟩
        · exact absurd hplace hno
        · exact h
      have hwrites : mapWrites s flags (b :: bs) = (key b.1, .mega (megaPte b.2 flags)) ::
            mapWrites (mapMegapage s b.1 b.2 flags) flags bs := by
        simp [mapWrites, hg, hstep.giga]
      rw [hwrites, store, ← hstep.cells]
      exact ih _ hstep.wf ((room_step hstep bs).mpr hroom)

theorem mapAll_no_room (hflags : isLeaf flags = true) :
    ∀ (bs : List (UInt64 × UInt64)) (s : MmuState), WellFormed s → ¬ Room s bs →
    ∃ b ∈ bs, cell (mapAll flags s bs) (key b.1) = .absent := by
  intro bs
  induction bs with
  | nil =>
    intro s hwf hroom
    have := hwf.next
    exact absurd (by simp [Room, demand, this.2]) hroom
  | cons b bs ih =>
    intro s hwf hroom
    rw [mapAll, foldl_cons]
    rcases mapMegapage_cases hwf b.1 b.2 hflags with ⟨hno, heq⟩ | ⟨-, hstep⟩
    · rw [heq]
      by_cases hg : IsGiga s (vpn2 b.1)
      · obtain ⟨c, hc, hcell⟩ := ih s hwf (mt (room_giga hg bs).mp hroom)
        exact ⟨c, mem_cons_of_mem _ hc, hcell⟩
      · -- skipped, and not because of a gigapage: the pool is used up
        have hfull : RootAbsent s (vpn2 b.1) ∧ 64 ≤ s.ptPoolNext := by
          by_contra hcon
          refine hno ⟨hg, fun ha => ?_⟩
          by_contra hlt
          exact hcon ⟨ha, by omega⟩
        exact ⟨b, mem_cons_self, cell_absent (mapAll_exhausted hflags bs s hwf hfull.2 hfull.1)⟩
    · obtain ⟨c, hc, hcell⟩ := ih _ hstep.wf (mt (room_step hstep bs).mp hroom)
      exact ⟨c, mem_cons_of_mem _ hc, hcell⟩

/-! ## The loop of hal_mmu_map -/

theorem megapage_toNat : megapage.toNat = 2097152 := rfl

theorem and_low_eq_zero (h : a.toNat % 2097152 = 0) : a &&& 0x1FFFFF = 0 := by
  refine UInt64.toNat_inj.mp ?_
  rw [UInt64.toNat_and, show (0x1FFFFF : UInt64).toNat = 2 ^ 21 - 1 from rfl,
    Nat.and_two_pow_sub_one_eq_mod]
  exact h

theorem aligned_add_megapage (h : a.toNat % 2097152 = 0) : (a + megapage).toNat % 2097152 = 0 := by
  rw [UInt64.toNat_add, megapage_toNat]
  omega

theorem mapLoop_eq {stop : UInt64} : ∀ (n fuel : Nat) (s : MmuState) (virt phys : UInt64),
    virt.toNat % 2097152 = 0 → phys.toNat % 2097152 = 0 →
    virt.toNat + n * 2097152 = stop.toNat → n ≤ fuel →
    mapLoop stop flags fuel s virt phys = some (mapAll flags s (blocks n virt phys)) := by
  intro n
  induction n with
  | zero =>
    intro fuel s virt phys _ _ hstop _
    unfold mapLoop
    rw [if_pos (by rw [lt_iff_toNat_lt]; omega)]
    rfl
  | succ n ih =>
    intro fuel s virt phys hv hp hstop hfuel
    have hlt := stop.toNat_lt
    obtain ⟨fuel, rfl⟩ : ∃ m, fuel = m + 1 := ⟨fuel - 1, by omega⟩
    have hnext : (virt + megapage).toNat = virt.toNat + 2097152 := by
      rw [UInt64.toNat_add, megapage_toNat]
      omega
    have hwhole : stop - virt ≥ megapage := by
      rw [ge_iff_le, le_iff_toNat_le,
        UInt64.toNat_sub_of_le _ _ (by rw [le_iff_toNat_le]; omega), megapage_toNat]
      omega
    unfold mapLoop
    rw [if_neg (by rw [lt_iff_toNat_lt]; omega)]
    simp only
    rw [if_pos ⟨and_low_eq_zero hv, and_low_eq_zero hp, hwhole⟩,
      ih fuel _ _ _ (aligned_add_megapage hv) (aligned_add_megapage hp) (by omega) (by omega),
      blocks, mapAll, mapAll, foldl_cons]

def blockCount (virt size : UInt64) : Nat :=
  if virt.toNat + size.toNat < 2 ^ 64 then size.toNat / 2097152 else 0

theorem halMmuMap_eq (s : MmuState) {virt phys size : UInt64} (perms : UInt32)
    (type : X86.HalMemType) (hv : virt.toNat % 2097152 = 0) (hp : phys.toNat % 2097152 = 0)
    (hs : size.toNat % 2097152 = 0) : halMmuMap s virt phys size perms type =
      some (.ok, mapAll (pteFlags perms) s (blocks (blockCount virt size) virt phys)) := by
  have hsize := size.toNat_lt
  unfold halMmuMap blockCount
  by_cases hwrap : virt.toNat + size.toNat < 2 ^ 64
  · rw [if_pos hwrap, mapLoop_eq (size.toNat / 2097152) _ _ _ _ hv hp ?_ (by omega)]
    · rfl
    · rw [UInt64.toNat_add]
      omega
  · rw [if_neg hwrap]
    unfold mapLoop
    rw [if_pos]
    · rfl
    · rw [lt_iff_toNat_lt, UInt64.toNat_add]
      omega

end AlJefra.Arch.Riscv64
