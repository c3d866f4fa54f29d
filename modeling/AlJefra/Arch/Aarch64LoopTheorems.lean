/- The loops of `hal_mmu_map` and `hal_mmu_unmap` on ranges of pages. -/
import AlJefra.Arch.Aarch64WalkTheorems
import AlJefra.Lib.Demand

namespace AlJefra.Arch.Aarch64

open AlJefra.Lib AlJefra.Hal List UInt64

/-! ## One block -/

def tables (phys : UInt64) : List (List (Fin 512)) :=
  [[l0Index phys], [l0Index phys, l1Index phys]]

def Room (s : MmuState) (πs : List (List (Fin 512))) : Prop :=
  s.ptPoolNext + (demand (Missing s) πs).card ≤ 64

variable {s t : MmuState} {π : List (Fin 512)} {attr l2 q stop : UInt64}

theorem room_of_subset {πs : List (List (Fin 512))} (F : Finset (List (Fin 512)))
    (hF : s.ptPoolNext + F.card ≤ 64) (h : ∀ π ∈ πs, π ∈ F) : Room s πs := by
  have hcard : (demand (Missing s) πs).card ≤ F.card := by
    refine Finset.card_le_card fun π hπ => h π ?_
    exact mem_toFinset.mp (Finset.mem_of_mem_filter π hπ)
  unfold Room
  omega

theorem room_ensured (h : Ensured s t π q) (πs : List (List (Fin 512))) :
    Room t πs ↔ Room s (π :: πs) := by
  unfold Room
  rw [card_demand_cons h.missing, h.next]
  omega

theorem not_room_full (hmiss : Missing s π) (hfull : 64 ≤ s.ptPoolNext) (πs : List (List (Fin 512)))
    : ¬ Room s (π :: πs) := by
  have hpos := card_demand_pos hmiss πs
  unfold Room
  omega

structure Mapped (s t : MmuState) (phys desc : UInt64) : Prop where
  wf : WellFormed t
  cells : cell t = Function.update (cell s) (key phys) desc
  room : ∀ πs, Room t πs ↔ Room s (tables phys ++ πs)
  full : 64 ≤ s.ptPoolNext → 64 ≤ t.ptPoolNext ∧ ∀ ρ, Missing s ρ → Missing t ρ

structure Stuck (s t : MmuState) (phys : UInt64) : Prop where
  wf : WellFormed t
  cells : cell t = cell s
  noRoom : ∀ πs, ¬ Room s (tables phys ++ πs)
  missing : Missing t [l0Index phys, l1Index phys]
  full : 64 ≤ t.ptPoolNext
  kept : 64 ≤ s.ptPoolNext → t = s

theorem Ensured.full (h : Ensured s t π q) (hfull : 64 ≤ s.ptPoolNext) : t = s := by
  refine h.kept fun hmiss => ?_
  have hnext := h.next
  have hbound := h.wf.next
  rw [if_pos hmiss] at hnext
  omega

theorem map2mbBlock_cases (hwf : WellFormed s) (phys : UInt64) (hattr : AttrOk attr) :
    Stuck s (map2mbBlock s phys attr) phys ∨
      Mapped s (map2mbBlock s phys attr) phys (blockDesc phys attr) := by
  unfold map2mbBlock
  rcases ensureTable_spec hwf (π := []) rfl (by simp) (l0Index phys) with
    ⟨heq, hmiss, hfull⟩ | ⟨l1, s1, heq, h1⟩
  · -- no L1 table
    left
    rw [heq]
    exact ⟨hwf, rfl, fun πs => not_room_full hmiss hfull _, missing_below hmiss _, hfull,
      fun _ => rfl⟩
  · rw [heq]
    simp only
    rcases ensureTable_spec h1.wf h1.table (by simp) (l1Index phys) with
      ⟨heq', hmiss, hfull⟩ | ⟨l2, s2, heq', h2⟩
    · -- no L2 table
      left
      rw [heq']
      exact ⟨h1.wf, h1.cells,
        fun πs hroom => not_room_full hmiss hfull _ ((room_ensured h1 _).mpr hroom), hmiss, hfull,
        h1.full⟩
    · right
      rw [heq']
      obtain ⟨hwf', htable, hcell⟩ := writeBlock_spec h2.wf h2.table (l2Index phys)
        (v := blockDesc phys attr) fun _ => isBlock_blockDesc phys hattr
      have hmiss : ∀ ρ, Missing (s2.write l2 (l2Index phys) (blockDesc phys attr)) ρ ↔
          Missing s2 ρ := by
        intro ρ
        simp only [missing_iff, htable]
      refine ⟨hwf', ?_, fun πs => ?_, fun hfull => ?_⟩
      · rw [hcell, h2.cells, h1.cells]
        rfl
      · have hsame : Room (s2.write l2 (l2Index phys) (blockDesc phys attr)) πs ↔ Room s2 πs := by
          unfold Room
          rw [show demand (Missing (s2.write l2 (l2Index phys) (blockDesc phys attr))) πs =
            demand (Missing s2) πs from Finset.filter_congr fun ρ _ => hmiss ρ]
          rfl
        rw [hsame, room_ensured h2, room_ensured h1]
        rfl
      · obtain rfl := h1.full hfull
        obtain rfl := h2.full hfull
        exact ⟨hfull, fun ρ hρ => (hmiss ρ).mpr hρ⟩

/-! ## A list of blocks -/

def mapAll (attr : UInt64) (s : MmuState) (ps : List UInt64) : MmuState :=
  ps.foldl (fun s p => map2mbBlock s p attr) s

section All

variable {attr : UInt64} (hattr : AttrOk attr)

include hattr

theorem mapAll_keeps : ∀ (ps : List UInt64) (s : MmuState), WellFormed s →
    WellFormed (mapAll attr s ps) := by
  intro ps
  induction ps with
  | nil => intro s hwf; exact hwf
  | cons p ps ih =>
    intro s hwf
    rcases map2mbBlock_cases hwf p hattr with h | h <;> exact ih _ h.wf

theorem mapAll_exhausted {ρ : List (Fin 512)} : ∀ (ps : List UInt64) (s : MmuState),
    WellFormed s → 64 ≤ s.ptPoolNext → Missing s ρ → Missing (mapAll attr s ps) ρ := by
  intro ps
  induction ps with
  | nil => intro s _ _ h; exact h
  | cons p ps ih =>
    intro s hwf hfull hmiss
    rw [mapAll, foldl_cons]
    rcases map2mbBlock_cases hwf p hattr with h | h
    · rw [h.kept hfull]
      exact ih s hwf hfull hmiss
    · obtain ⟨hfull', hkeep⟩ := h.full hfull
      exact ih _ h.wf hfull' (hkeep ρ hmiss)

theorem mapAll_cells : ∀ (ps : List UInt64) (s : MmuState), WellFormed s →
    Room s (ps.flatMap tables) →
    cell (mapAll attr s ps) = store (cell s) (ps.map fun p => (key p, blockDesc p attr)) := by
  intro ps
  induction ps with
  | nil => intro s _ _; rfl
  | cons p ps ih =>
    intro s hwf hroom
    rw [mapAll, foldl_cons, map_cons, store]
    rcases map2mbBlock_cases hwf p hattr with h | h
    · exact absurd hroom (h.noRoom _)
    · rw [← h.cells]
      exact ih _ h.wf ((h.room _).mpr hroom)

theorem room_mapAll (πs : List (List (Fin 512))) : ∀ (ps : List UInt64) (s : MmuState),
    WellFormed s → Room s (ps.flatMap tables ++ πs) → Room (mapAll attr s ps) πs := by
  intro ps
  induction ps with
  | nil => intro s _ hroom; exact hroom
  | cons p ps ih =>
    intro s hwf hroom
    rcases map2mbBlock_cases hwf p hattr with h | h
    · exact absurd hroom (h.noRoom _)
    · exact ih _ h.wf ((h.room _).mpr hroom)

theorem mapAll_no_room : ∀ (ps : List UInt64) (s : MmuState), WellFormed s →
    ¬ Room s (ps.flatMap tables) →
    ∃ p ∈ ps, Missing (mapAll attr s ps) [l0Index p, l1Index p] := by
  intro ps
  induction ps with
  | nil =>
    intro s hwf hroom
    have := hwf.next
    exact absurd (by simp [Room, demand, this.2]) hroom
  | cons p ps ih =>
    intro s hwf hroom
    rcases map2mbBlock_cases hwf p hattr with h | h
    · exact ⟨p, mem_cons_self, mapAll_exhausted hattr ps _ h.wf h.full h.missing⟩
    · obtain ⟨q, hq, hmiss⟩ := ih _ h.wf (mt (h.room _).mp hroom)
      exact ⟨q, mem_cons_of_mem _ hq, hmiss⟩

end All

/-! ## The loop of hal_mmu_map -/

theorem blockSize_toNat : blockSize.toNat = 2097152 := rfl
theorem pageSize_toNat : pageSize.toNat = 4096 := rfl

theorem and_low_eq_zero {a : UInt64} : a &&& 0x1FFFFF = 0 ↔ a.toNat % 2097152 = 0 := by
  rw [← UInt64.toNat_inj, UInt64.toNat_and, show (0x1FFFFF : UInt64).toNat = 2 ^ 21 - 1 from rfl,
    Nat.and_two_pow_sub_one_eq_mod]
  rfl

theorem map2mbBlock_round (s : MmuState) (phys attr : UInt64) :
    map2mbBlock s (phys &&& ~~~0x1FFFFF) attr = map2mbBlock s phys attr := by
  have hval : (phys &&& ~~~0x1FFFFF).toNat = phys.toNat / 2097152 * 2097152 :=
    toNat_and_high (n := 21) (by decide)
  have hkey : key (phys &&& ~~~0x1FFFFF) = key phys := by
    rw [key_eq_iff, hval]
    omega
  have hdesc : blockDesc (phys &&& ~~~0x1FFFFF) attr = blockDesc phys attr := by
    unfold blockDesc
    rw [UInt64.and_assoc, UInt64.and_self]
  obtain ⟨h0, h12⟩ := Prod.mk.inj hkey
  obtain ⟨h1, h2⟩ := Prod.mk.inj h12
  unfold map2mbBlock
  rw [h0, h1, h2, hdesc]

def visits (stop : UInt64) : Nat → UInt64 → UInt64 → List UInt64
  | 0, _, _ => []
  | fuel + 1, virt, phys =>
    if ¬ virt < stop then []
    else if virt &&& 0x1FFFFF = 0 ∧ phys &&& 0x1FFFFF = 0 ∧ stop - virt ≥ blockSize then
      phys :: visits stop fuel (virt + blockSize) (phys + blockSize)
    else phys :: visits stop fuel (virt + pageSize) (phys + pageSize)

theorem visits_of_not_lt {virt : UInt64} (h : ¬ virt < stop) (fuel : Nat) (phys : UInt64) :
    visits stop fuel virt phys = [] := by
  cases fuel with
  | zero => rfl
  | succ fuel => rw [visits, if_pos h]

theorem wellFormed_mapLoop (hattr : AttrOk attr) :
    ∀ (fuel : Nat) (s : MmuState) (virt phys : UInt64), WellFormed s →
    mapLoop stop attr fuel s virt phys = some t → WellFormed t := by
  have hblock : ∀ s phys, WellFormed s → WellFormed (map2mbBlock s phys attr) := by
    intro s phys hwf
    rcases map2mbBlock_cases hwf phys hattr with h | h <;> exact h.wf
  intro fuel
  induction fuel with
  | zero =>
    intro s virt phys hwf h
    unfold mapLoop at h
    split at h
    · obtain rfl := Option.some.inj h
      exact hwf
    · cases h
  | succ fuel ih =>
    intro s virt phys hwf h
    unfold mapLoop at h
    split at h
    · obtain rfl := Option.some.inj h
      exact hwf
    · simp only at h
      split at h
      · exact ih _ _ _ (hblock s _ hwf) h
      · exact ih _ _ _ (hblock s _ hwf) h

section Loop

variable {stop : UInt64} (hstop : stop.toNat % 4096 = 0)

include hstop

theorem step_cases {virt phys : UInt64} (hv : virt.toNat % 4096 = 0) (hp : phys.toNat % 4096 = 0)
    (hlt : virt < stop) :
    ∃ step : UInt64, (step = blockSize ∧ virt &&& 0x1FFFFF = 0 ∧ phys &&& 0x1FFFFF = 0 ∧
        stop - virt ≥ blockSize ∨ step = pageSize ∧
        ¬ (virt &&& 0x1FFFFF = 0 ∧ phys &&& 0x1FFFFF = 0 ∧ stop - virt ≥ blockSize)) ∧
      4096 ≤ step.toNat ∧ step.toNat % 4096 = 0 ∧
      (virt + step).toNat = virt.toNat + step.toNat ∧ virt.toNat + step.toNat ≤ stop.toNat ∧
      phys.toNat % 2097152 + step.toNat ≤ 2097152 := by
  rw [lt_iff_toNat_lt] at hlt
  have hls := stop.toNat_lt
  by_cases hbig : virt &&& 0x1FFFFF = 0 ∧ phys &&& 0x1FFFFF = 0 ∧ stop - virt ≥ blockSize
  · obtain ⟨hva, hpa, hsize⟩ := hbig
    have hp' := and_low_eq_zero.mp hpa
    have hle : virt.toNat + 2097152 ≤ stop.toNat := by
      rw [ge_iff_le, le_iff_toNat_le, blockSize_toNat,
        UInt64.toNat_sub_of_le _ _ (le_iff_toNat_le.mpr (by omega))] at hsize
      omega
    refine ⟨blockSize, .inl ⟨rfl, hva, hpa, hsize⟩, ?_⟩
    rw [UInt64.toNat_add, blockSize_toNat]
    omega
  · refine ⟨pageSize, .inr ⟨rfl, hbig⟩, ?_⟩
    rw [UInt64.toNat_add, pageSize_toNat]
    omega

theorem mapLoop_eq {attr : UInt64} : ∀ (fuel : Nat) (s : MmuState) (virt phys : UInt64),
    virt.toNat % 4096 = 0 → phys.toNat % 4096 = 0 → stop.toNat ≤ virt.toNat + fuel * 4096 →
    mapLoop stop attr fuel s virt phys = some (mapAll attr s (visits stop fuel virt phys)) := by
  intro fuel
  induction fuel with
  | zero =>
    intro s virt phys _ _ hfuel
    unfold mapLoop
    rw [if_pos (by rw [lt_iff_toNat_lt]; omega)]
    rfl
  | succ fuel ih =>
    intro s virt phys hv hp hfuel
    unfold mapLoop visits
    by_cases hlt : virt < stop
    · rw [if_neg (not_not.mpr hlt), if_neg (not_not.mpr hlt)]
      simp only
      obtain ⟨step, hstep, hge, hmul, hadd, hle, -⟩ := step_cases hstop hv hp hlt
      have hnext : (phys + step).toNat % 4096 = 0 := by
        rw [UInt64.toNat_add]
        omega
      rcases hstep with ⟨rfl, hbig⟩ | ⟨rfl, hbig⟩
      · rw [if_pos hbig, if_pos hbig, ih _ _ _ (by omega) hnext (by omega), mapAll, mapAll,
          foldl_cons]
      · rw [if_neg hbig, if_neg hbig, map2mbBlock_round, ih _ _ _ (by omega) hnext (by omega),
          mapAll, mapAll, foldl_cons]
    · rw [if_pos hlt, if_pos hlt]
      rfl

theorem mem_visits : ∀ (fuel : Nat) (virt phys : UInt64), virt.toNat % 4096 = 0 →
    phys.toNat % 4096 = 0 → ∀ p ∈ visits stop fuel virt phys,
    ∃ o, virt.toNat + o < stop.toNat ∧ p.toNat = (phys.toNat + o) % 2 ^ 64 := by
  intro fuel
  induction fuel with
  | zero => intro virt phys _ _ p hp; cases hp
  | succ fuel ih =>
    intro virt phys hv hp p hmem
    unfold visits at hmem
    by_cases hlt : virt < stop
    · rw [if_neg (not_not.mpr hlt)] at hmem
      obtain ⟨step, hstep, hge, hmul, hadd, hle, -⟩ := step_cases hstop hv hp hlt
      have hnext : (phys + step).toNat % 4096 = 0 := by
        rw [UInt64.toNat_add]
        omega
      have hmem' : p = phys ∨ p ∈ visits stop fuel (virt + step) (phys + step) := by
        rcases hstep with ⟨rfl, hbig⟩ | ⟨rfl, hbig⟩
        · rw [if_pos hbig] at hmem
          exact mem_cons.mp hmem
        · rw [if_neg hbig] at hmem
          exact mem_cons.mp hmem
      rcases hmem' with rfl | hmem'
      · have := p.toNat_lt
        exact ⟨0, by omega, by omega⟩
      · obtain ⟨o, ho, heq⟩ := ih _ _ (by omega) hnext p hmem'
        rw [UInt64.toNat_add] at heq
        exact ⟨step.toNat + o, by omega, by omega⟩
    · rw [if_pos hlt] at hmem
      cases hmem

theorem visits_cover : ∀ (fuel : Nat) (virt phys : UInt64), virt.toNat % 4096 = 0 →
    phys.toNat % 4096 = 0 → stop.toNat ≤ virt.toNat + fuel * 4096 →
    ∀ o, virt.toNat + o < stop.toNat → ∃ p ∈ visits stop fuel virt phys,
      p.toNat / 2097152 = (phys.toNat + o) % 2 ^ 64 / 2097152 := by
  intro fuel
  induction fuel with
  | zero => intro virt phys _ _ hfuel o ho; omega
  | succ fuel ih =>
    intro virt phys hv hp hfuel o ho
    have hlt : virt < stop := lt_iff_toNat_lt.mpr (by omega)
    have hphys := phys.toNat_lt
    obtain ⟨step, hstep, hge, hmul, hadd, hle, hblock⟩ := step_cases hstop hv hp hlt
    have hvisits : visits stop (fuel + 1) virt phys =
        phys :: visits stop fuel (virt + step) (phys + step) := by
      rw [visits, if_neg (not_not.mpr hlt)]
      rcases hstep with ⟨rfl, hbig⟩ | ⟨rfl, hbig⟩
      · rw [if_pos hbig]
      · rw [if_neg hbig]
    have hnext : (phys + step).toNat % 4096 = 0 := by
      rw [UInt64.toNat_add]
      omega
    rw [hvisits]
    by_cases hnear : o < step.toNat
    · exact ⟨phys, mem_cons_self, by omega⟩
    · obtain ⟨p, hmem, heq⟩ := ih (virt + step) (phys + step) (by omega) hnext (by omega)
        (o - step.toNat) (by omega)
      rw [UInt64.toNat_add] at heq
      exact ⟨p, mem_cons_of_mem _ hmem, by omega⟩

end Loop

/-! ## The loop of hal_mmu_unmap -/

def Endless (virt size : UInt64) : Prop :=
  virt < virt + size ∧ 2 ^ 64 - 2097152 + virt.toNat % 2097152 < (virt + size).toNat

instance (virt size : UInt64) : Decidable (Endless virt size) :=
  inferInstanceAs (Decidable (_ ∧ _))

theorem unmapLoop_endless {c : Nat} (hc : c < 2097152) (hstop : 2 ^ 64 - 2097152 + c < stop.toNat) :
    ∀ (fuel : Nat) (s : MmuState) (a : UInt64),
    a.toNat % 2097152 = c → unmapLoop l2 stop fuel s a = none := by
  intro fuel
  induction fuel with
  | zero =>
    intro s a ha
    have hlt := a.toNat_lt
    unfold unmapLoop
    rw [if_neg (by rw [lt_iff_toNat_lt]; omega)]
  | succ fuel ih =>
    intro s a ha
    have hlt := a.toNat_lt
    unfold unmapLoop
    rw [if_neg (by rw [lt_iff_toNat_lt]; omega)]
    refine ih _ _ ?_
    rw [UInt64.toNat_add, blockSize_toNat]
    omega

def clearAll (l2 : UInt64) (s : MmuState) (ks : List (Fin 512)) : MmuState :=
  ks.foldl (fun s k => s.write l2 k 0) s

def strides : Nat → UInt64 → List (Fin 512)
  | 0, _ => []
  | n + 1, a => l2Index a :: strides n (a + blockSize)

theorem unmapLoop_eq : ∀ (n fuel : Nat) (s : MmuState) (a : UInt64),
    stop.toNat ≤ a.toNat + n * 2097152 → (n = 0 ∨ a.toNat + (n - 1) * 2097152 < stop.toNat) →
    a.toNat + n * 2097152 < 2 ^ 64 → n ≤ fuel →
    unmapLoop l2 stop fuel s a = some (clearAll l2 s (strides n a)) := by
  intro n
  induction n with
  | zero =>
    intro fuel s a hstop _ _ _
    unfold unmapLoop
    rw [if_pos (by rw [lt_iff_toNat_lt]; omega)]
    rfl
  | succ n ih =>
    intro fuel s a hstop hlast hlt hfuel
    obtain ⟨fuel, rfl⟩ : ∃ m, fuel = m + 1 := ⟨fuel - 1, by omega⟩
    have hnext : (a + blockSize).toNat = a.toNat + 2097152 := by
      rw [UInt64.toNat_add, blockSize_toNat]
      omega
    unfold unmapLoop
    rw [if_neg (by rw [lt_iff_toNat_lt]; omega)]
    simp only
    rw [ih fuel _ _ (by omega) (by omega) (by omega) (by omega), strides, clearAll, clearAll,
      foldl_cons]

theorem clearAll_spec {i j : Fin 512} : ∀ (ks : List (Fin 512)) (s : MmuState),
    WellFormed s → s.Table [i, j] l2 → WellFormed (clearAll l2 s ks) ∧
      cell (clearAll l2 s ks) = store (cell s) (ks.map fun k => ((i, j, k), 0)) := by
  intro ks
  induction ks with
  | nil => intro s hwf _; exact ⟨hwf, rfl⟩
  | cons k ks ih =>
    intro s hwf ht
    obtain ⟨hwf', htable, hcell⟩ := writeBlock_spec hwf ht k (v := 0)
      fun h => by rw [bit_zero] at h; cases h
    obtain ⟨hwf'', hcells⟩ := ih _ hwf' ((htable _ _).mpr ht)
    refine ⟨hwf'', hcells.trans ?_⟩
    rw [map_cons, store, hcell]

def strideCount (virt size : UInt64) : Nat :=
  if virt.toNat + size.toNat < 2 ^ 64 then (size.toNat + 2097151) / 2097152 else 0

theorem unmapLoop_range (s : MmuState) (l2 virt size : UInt64) :
    unmapLoop l2 (virt + size) (2 ^ 52) s virt = if Endless virt size then none
      else some (clearAll l2 s (strides (strideCount virt size) virt)) := by
  have hv := virt.toNat_lt
  have hs := size.toNat_lt
  by_cases hend : Endless virt size
  · rw [if_pos hend]
    exact unmapLoop_endless (Nat.mod_lt _ (by decide)) hend.2 _ _ _ rfl
  · rw [if_neg hend]
    unfold Endless at hend
    rw [lt_iff_toNat_lt, not_and, not_lt] at hend
    unfold strideCount
    by_cases hwrap : virt.toNat + size.toNat < 2 ^ 64
    · have hsum : (virt + size).toNat = virt.toNat + size.toNat := by
        rw [UInt64.toNat_add]
        omega
      rw [if_pos hwrap]
      by_cases hzero : size.toNat = 0
      · refine unmapLoop_eq _ _ s virt (by omega) (.inl (by omega)) (by omega) (by omega)
      · refine unmapLoop_eq _ _ s virt (by omega) (.inr (by omega)) (by omega) (by omega)
    · have hsum : (virt + size).toNat = virt.toNat + size.toNat - 2 ^ 64 := by
        rw [UInt64.toNat_add]
        omega
      rw [if_neg hwrap]
      exact unmapLoop_eq 0 _ s virt (by omega) (.inl rfl) (by omega) (by omega)

end AlJefra.Arch.Aarch64
