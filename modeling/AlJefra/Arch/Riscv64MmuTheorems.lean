/-
When `hal_mmu_map` and `hal_mmu_unmap` meet their contracts on riscv64, after any calls: cells
below a gigapage are not mapped, and unmapping one clears the gigapage.
-/
import AlJefra.Arch.Riscv64LoopTheorems
import AlJefra.Arch.X86LoopTheorems

namespace AlJefra.Arch.Riscv64

open AlJefra.Lib AlJefra.Hal List
open AlJefra.Arch.X86 (halPageWrite halPageExec halPageUser HalMemType)

/-! ## Addresses and blocks -/

theorem vpn2_val (a : UInt64) : (vpn2 a).val = a.toNat / 2 ^ 30 % 512 :=
  X86.tableIndex_val (show (30 : UInt64).toNat < 64 by decide) a

theorem vpn1_val (a : UInt64) : (vpn1 a).val = a.toNat / 2 ^ 21 % 512 :=
  X86.tableIndex_val (show (21 : UInt64).toNat < 64 by decide) a

variable {a b l1 size virt : UInt64} {s : MmuState}

theorem key_eq_iff : key a = key b ↔ a.toNat / 2097152 % 2 ^ 18 = b.toNat / 2097152 % 2 ^ 18 := by
  simp only [key, Prod.mk.injEq, Fin.ext_iff, vpn2_val, vpn1_val]
  omega

theorem same_block (ha : Canonical a) (hb : Canonical b) (h : key a = key b) :
    a.toNat / 2097152 = b.toNat / 2097152 := by
  rw [key_eq_iff] at h
  have hla := a.toNat_lt
  have hlb := b.toNat_lt
  unfold Canonical at ha hb
  omega

theorem mem_blocks {b : UInt64 × UInt64} : ∀ (n : Nat) (virt phys : UInt64),
    b ∈ blocks n virt phys ↔ ∃ k < n, b.1.toNat = (virt.toNat + k * 2097152) % 2 ^ 64 ∧
      b.2.toNat = (phys.toNat + k * 2097152) % 2 ^ 64 := by
  intro n
  induction n with
  | zero => intro virt phys; simp [blocks]
  | succ n ih =>
    intro virt phys
    have hv := virt.toNat_lt
    have hp := phys.toNat_lt
    rw [blocks, mem_cons, ih]
    constructor
    · rintro (rfl | ⟨k, hk, h1, h2⟩)
      · exact ⟨0, by omega, by simp only; omega, by simp only; omega⟩
      · rw [UInt64.toNat_add, megapage_toNat] at h1 h2
        exact ⟨k + 1, by omega, by omega, by omega⟩
    · rintro ⟨k, hk, h1, h2⟩
      cases k with
      | zero =>
        refine .inl (Prod.ext (UInt64.toNat_inj.mp ?_) (UInt64.toNat_inj.mp ?_))
        · simp only; omega
        · simp only; omega
      | succ k =>
        refine .inr ⟨k, by omega, ?_, ?_⟩
        · rw [UInt64.toNat_add, megapage_toNat]; omega
        · rw [UInt64.toNat_add, megapage_toNat]; omega

section Range

variable {virt size : UInt64} (hv : virt.toNat % 2097152 = 0) (hs : size.toNat % 2097152 = 0)

include hv hs

variable {a : UInt64}

theorem block_of_inSpan (phys : UInt64) (hwrap : virt.toNat + size.toNat < 2 ^ 64)
    (ha : InSpan virt size a) : ∃ b ∈ blocks (blockCount virt size) virt phys,
      a.toNat / 2097152 = b.1.toNat / 2097152 ∧ ((a - virt).toNat = b.1.toNat - virt.toNat +
        a.toNat % 2097152) ∧ virt.toNat ≤ b.1.toNat ∧
        b.2.toNat = (phys.toNat + (b.1.toNat - virt.toNat)) % 2 ^ 64 := by
  rw [inSpan_iff, toNat_offset] at ha
  have hla := a.toNat_lt
  have hle : virt.toNat ≤ a.toNat := by
    by_contra hlt
    rw [if_neg hlt] at ha
    omega
  rw [if_pos hle] at ha
  have hb1 : (UInt64.ofNat (a.toNat / 2097152 * 2097152)).toNat = a.toNat / 2097152 * 2097152 :=
    UInt64.toNat_ofNat_of_lt' (lt_of_le_of_lt (Nat.div_mul_le_self _ _) hla)
  have hb2 : (UInt64.ofNat
      ((phys.toNat + (a.toNat / 2097152 * 2097152 - virt.toNat)) % 2 ^ 64)).toNat =
      (phys.toNat + (a.toNat / 2097152 * 2097152 - virt.toNat)) % 2 ^ 64 :=
    UInt64.toNat_ofNat_of_lt' (Nat.mod_lt _ (by decide))
  refine ⟨(UInt64.ofNat (a.toNat / 2097152 * 2097152),
    UInt64.ofNat ((phys.toNat + (a.toNat / 2097152 * 2097152 - virt.toNat)) % 2 ^ 64)), ?_, ?_, ?_,
    ?_, ?_⟩
  · rw [mem_blocks, blockCount, if_pos hwrap]
    refine ⟨a.toNat / 2097152 - virt.toNat / 2097152, by omega, ?_, ?_⟩
    · simp only
      rw [hb1]
      omega
    · simp only
      rw [hb2]
      congr 1
      omega
  · simp only
    rw [hb1]
    omega
  · simp only
    rw [hb1, toNat_offset, if_pos hle]
    omega
  · simp only
    rw [hb1]
    omega
  · simp only
    rw [hb1, hb2]

theorem inSpan_of_block {phys : UInt64} {b : UInt64 × UInt64}
    (hb : b ∈ blocks (blockCount virt size) virt phys)
    (ha : a.toNat / 2097152 = b.1.toNat / 2097152) : InSpan virt size a := by
  obtain ⟨k, hk, h1, -⟩ := (mem_blocks _ _ _).mp hb
  rw [blockCount] at hk
  split at hk
  · rw [inSpan_iff, toNat_offset]
    rw [Nat.mod_eq_of_lt (by omega)] at h1
    rw [if_pos (by omega)]
    omega
  · omega

end Range

/-! ## Rights -/

def asked (perms : UInt32) (phys : Nat) : Translation where
  phys := phys
  readable := decide (perms &&& halPageRead ≠ 0)
  writable := decide (perms &&& halPageWrite ≠ 0)
  executable := decide (perms &&& halPageExec ≠ 0)
  user := decide (perms &&& halPageUser ≠ 0)

def Expressible (perms : UInt32) : Prop :=
  perms &&& halPageRead ≠ 0 ∨ (perms &&& halPageExec ≠ 0 ∧ perms &&& halPageWrite = 0)

instance (perms : UInt32) : Decidable (Expressible perms) := inferInstanceAs (Decidable (_ ∨ _))

def flagsOf (r w x u : Bool) : UInt64 :=
  let flags := 0
  let flags := if r then flags ||| pteR else flags
  let flags := if w then flags ||| pteW else flags
  let flags := if x then flags ||| pteX else flags
  let flags := if u then flags ||| pteU else flags
  if flags &&& (pteR ||| pteW ||| pteX) = 0 then pteR ||| pteW else flags

theorem pteFlags_eq (perms : UInt32) : pteFlags perms =
    flagsOf (asked perms 0).readable (asked perms 0).writable (asked perms 0).executable
      (asked perms 0).user := by
  simp only [pteFlags, flagsOf, asked, decide_eq_true_eq]

theorem flagsOf_spec : ∀ r w x u : Bool, isLeaf (flagsOf r w x u) = true ∧
    (flagsOf r w x u).toNat < 1024 ∧
    (((bit (flagsOf r w x u) 1 = true ∨ (bit (flagsOf r w x u) 3 = true ∧
        bit (flagsOf r w x u) 2 = false)) ∧ bit (flagsOf r w x u) 1 = r ∧
        bit (flagsOf r w x u) 2 = w ∧ bit (flagsOf r w x u) 3 = x ∧ bit (flagsOf r w x u) 4 = u) ↔
      (r = true ∨ (x = true ∧ w = false))) := by
  decide

theorem isLeaf_pteFlags (perms : UInt32) : isLeaf (pteFlags perms) = true := by
  rw [pteFlags_eq]
  exact (flagsOf_spec _ _ _ _).1

/-! ## A megapage as the hardware sees it -/

section Mega

variable {pa flags : UInt64} (hpa : pa.toNat % 2097152 = 0) (hflags : flags.toNat < 1024)

include hpa hflags

variable {k : Nat}

theorem bit_megaPte_high (hk : 10 ≤ k) :
    bit (megaPte pa flags) k = (decide (k < 64) && bit pa (k + 2)) := by
  have hround : (pa &&& ~~~0x1FFFFF) = pa := by
    refine UInt64.toNat_inj.mp ?_
    rw [toNat_and_high (n := 21) (by decide)]
    omega
  have hlow : bit flags k = false := bit_of_lt (n := 10) hflags hk
  rw [megaPte, hround]
  simp only [bit_or, bit_paToPpn, bit_pteV, bit_pteA, bit_pteD, bit_pteG, hlow]
  simp [hk, show ¬ 0 = k by omega, show ¬ 6 = k by omega, show ¬ 7 = k by omega,
    show ¬ 5 = k by omega]

omit hpa hflags in
theorem bit_megaPte_right (hk : 1 ≤ k ∧ k ≤ 4) : bit (megaPte pa flags) k = bit flags k := by
  simp only [megaPte, bit_or, bit_paToPpn, bit_pteV, bit_pteA, bit_pteD, bit_pteG]
  simp [show ¬ 10 ≤ k by omega, show ¬ 0 = k by omega, show ¬ 6 = k by omega,
    show ¬ 7 = k by omega, show ¬ 5 = k by omega]

theorem megaPte_ppn : (megaPte pa flags).toNat / 2 ^ 10 = pa.toNat / 4096 := by
  have hlt := pa.toNat_lt
  refine Nat.eq_of_testBit_eq fun k => ?_
  rw [Nat.testBit_div_two_pow, show (4096 : Nat) = 2 ^ 12 from rfl, Nat.testBit_div_two_pow]
  change bit (megaPte pa flags) (k + 10) = bit pa (k + 12)
  rw [bit_megaPte_high hpa hflags (by omega)]
  by_cases hk : k + 10 < 64
  · simp [hk]
  · have hbit : bit pa (k + 12) = false := bit_of_lt (n := 64) hlt (by omega)
    simp [hk, hbit]

theorem leafTranslate_mega (va : UInt64) : leafTranslate (megaPte pa flags) 21 va =
    if pa.toNat < 2 ^ 56 ∧ (bit flags 1 = true ∨ (bit flags 3 = true ∧ bit flags 2 = false)) then
      some ⟨pa.toNat + va.toNat % 2097152, bit flags 1, bit flags 2, bit flags 3, bit flags 4⟩
    else none := by
  have hppn := megaPte_ppn hpa hflags
  have h0 := bit_megaPte_zero pa flags
  have h1 : bit (megaPte pa flags) 1 = bit flags 1 := bit_megaPte_right (by decide)
  have h2 : bit (megaPte pa flags) 2 = bit flags 2 := bit_megaPte_right (by decide)
  have h3 : bit (megaPte pa flags) 3 = bit flags 3 := bit_megaPte_right (by decide)
  have h4 : bit (megaPte pa flags) 4 = bit flags 4 := bit_megaPte_right (by decide)
  have hhigh : (megaPte pa flags).toNat / 2 ^ 54 ≠ 0 ↔ ¬ pa.toNat < 2 ^ 56 := by omega
  have hdecode : decode (megaPte pa flags) = .leaf ↔
      pa.toNat < 2 ^ 56 ∧ (bit flags 1 = true ∨ (bit flags 3 = true ∧ bit flags 2 = false)) := by
    simp only [decode, hhigh, h0, h1, h2, h3]
    by_cases hlt : pa.toNat < 2 ^ 56
    · simp only [hlt]
      cases bit flags 1 <;> cases bit flags 2 <;> cases bit flags 3 <;> simp
    · simp only [hlt]
      simp
  unfold leafTranslate
  by_cases hleaf : decode (megaPte pa flags) = .leaf
  · have hcond := hdecode.mp hleaf
    have halign : field (megaPte pa flags) 10 9 = 0 := by
      rw [field]
      omega
    have hphys : field (megaPte pa flags) 10 44 * 4096 = pa.toNat := by
      rw [field]
      omega
    rw [if_pos hleaf, if_pos hcond, through, if_neg (not_not.mpr halign), hphys, h1, h2, h3, h4]
    rfl
  · rw [if_neg hleaf, if_neg (mt hdecode.mpr hleaf)]

end Mega

theorem mega_asked_iff {pa : UInt64} (hpa : pa.toNat % 2097152 = 0) (perms : UInt32) (va : UInt64)
    (phys : Nat) : leafTranslate (megaPte pa (pteFlags perms)) 21 va = some (asked perms phys) ↔
      Expressible perms ∧ pa.toNat < 2 ^ 56 ∧ phys = pa.toNat + va.toNat % 2097152 := by
  obtain ⟨-, hlt, hiff⟩ := flagsOf_spec (asked perms 0).readable (asked perms 0).writable
    (asked perms 0).executable (asked perms 0).user
  rw [← pteFlags_eq] at hlt hiff
  have hexpr : Expressible perms ↔ ((asked perms 0).readable = true ∨
      ((asked perms 0).executable = true ∧ (asked perms 0).writable = false)) := by
    simp only [Expressible, asked, decide_eq_true_eq, decide_eq_false_iff_not, ne_eq, not_not]
  rw [leafTranslate_mega hpa hlt, hexpr, ← hiff]
  constructor
  · intro h
    split at h
    · rename_i hcond
      have heq := Option.some.inj h
      simp only [asked, Translation.mk.injEq] at heq
      exact ⟨⟨hcond.2, heq.2.1, heq.2.2.1, heq.2.2.2.1, heq.2.2.2.2⟩, hcond.1, heq.1.symm⟩
    · cases h
  · rintro ⟨⟨hleaf, h1, h2, h3, h4⟩, hpa56, rfl⟩
    rw [if_pos ⟨hpa56, hleaf⟩, h1, h2, h3, h4]
    rfl

/-! ## Mapping -/

structure MapContract (s t : MmuState) (virt phys size : UInt64) (perms : UInt32) : Prop where
  inside : ∀ a, InSpan virt size a →
    translate t a = some (asked perms (phys.toNat + (a - virt).toNat))
  outside : ∀ a, ¬ InSpan virt size a → translate t a = translate s a

def Skipped (s : MmuState) (virt size a : UInt64) : Prop :=
  2 ^ 64 ≤ virt.toNat + size.toNat ∨ IsGiga s (vpn2 a)

structure MapOk (s : MmuState) (virt phys size : UInt64) (perms : UInt32) : Prop where
  canonical : ∀ a, InSpan virt size a → Canonical a
  skipped : ∀ a, InSpan virt size a → Skipped s virt size a →
    translate s a = some (asked perms (phys.toNat + (a - virt).toNat))
  placed : ∀ a, InSpan virt size a → ¬ Skipped s virt size a →
    Expressible perms ∧ phys.toNat + (a - virt).toNat < 2 ^ 56
  room : Room s (blocks (blockCount virt size) virt phys)

section Map

variable {s : MmuState} (hwf : WellFormed s) {virt phys size : UInt64}
  (hv : virt.toNat % 2097152 = 0) (hp : phys.toNat % 2097152 = 0) (hs : size.toNat % 2097152 = 0)
  (perms : UInt32)

def mapResult (s : MmuState) (virt phys size : UInt64) (perms : UInt32) : MmuState :=
  mapAll (pteFlags perms) s (blocks (blockCount virt size) virt phys)

include hwf

theorem wellFormed_mapResult : WellFormed (mapResult s virt phys size perms) :=
  (mapAll_keeps (isLeaf_pteFlags perms) _ s hwf).1

include hv hs

variable {a : UInt64}

theorem cell_mapResult_outside (hcanon : ∀ a, InSpan virt size a → Canonical a)
    (hroom : Room s (blocks (blockCount virt size) virt phys)) (ha : Canonical a)
    (hout : ¬ InSpan virt size a) :
    cell (mapResult s virt phys size perms) (key a) = cell s (key a) := by
  rw [mapResult, mapAll_cells (isLeaf_pteFlags perms) _ s hwf hroom]
  refine store_of_not_mem _ _ fun w hw heq => hout ?_
  obtain ⟨b, hb, rfl⟩ := mem_map.mp hw
  have hb' := mem_of_mem_filter hb
  have hbin := inSpan_of_block hv hs hb' (a := b.1) rfl
  exact inSpan_of_block hv hs hb' (same_block ha (hcanon _ hbin) heq.symm)

theorem cell_mapResult_skipped (hroom : Room s (blocks (blockCount virt size) virt phys))
    (hskip : Skipped s virt size a) :
    cell (mapResult s virt phys size perms) (key a) = cell s (key a) := by
  rw [mapResult, mapAll_cells (isLeaf_pteFlags perms) _ s hwf hroom]
  refine store_of_not_mem _ _ fun w hw heq => ?_
  obtain ⟨b, hb, rfl⟩ := mem_map.mp hw
  obtain ⟨hmem, hgiga⟩ := mem_filter.mp hb
  rcases hskip with hwrap | hg
  · rw [blockCount, if_neg (by omega)] at hmem
    exact absurd hmem not_mem_nil
  · have hvpn : vpn2 b.1 = vpn2 a := (Prod.mk.inj heq).1
    rw [hvpn] at hgiga
    simp [hg] at hgiga

include hp

theorem cell_mapResult_placed (hcanon : ∀ a, InSpan virt size a → Canonical a)
    (hroom : Room s (blocks (blockCount virt size) virt phys)) (hin : InSpan virt size a)
    (hskip : ¬ Skipped s virt size a) :
    ∃ pa : UInt64, pa.toNat % 2097152 = 0 ∧
      pa.toNat = (phys.toNat + ((a - virt).toNat - a.toNat % 2097152)) % 2 ^ 64 ∧
      a.toNat % 2097152 ≤ (a - virt).toNat ∧
      cell (mapResult s virt phys size perms) (key a) = .mega (megaPte pa (pteFlags perms)) := by
  rw [Skipped, not_or] at hskip
  obtain ⟨b, hb, hdiv, hoff, hle, hb2⟩ := block_of_inSpan hv hs phys (by omega) hin
  have hbv : b.1.toNat % 2097152 = 0 := by
    obtain ⟨k, -, h1, -⟩ := (mem_blocks _ _ _).mp hb
    omega
  have hkey : key a = key b.1 := key_eq_iff.mpr (by rw [hdiv])
  refine ⟨b.2, by omega, by rw [hb2]; congr 1; omega, by omega, ?_⟩
  rw [mapResult, mapAll_cells (isLeaf_pteFlags perms) _ s hwf hroom]
  refine store_of_mem _ _ ⟨_, mem_map.mpr ⟨b, mem_filter.mpr ⟨hb, ?_⟩, rfl⟩, hkey.symm⟩ ?_
  · rw [show vpn2 b.1 = vpn2 a from (Prod.mk.inj hkey.symm).1]
    simpa using hskip.2
  · -- a second write to the cell would be for the same block
    intro w hw heq
    obtain ⟨c, hc, rfl⟩ := mem_map.mp hw
    have hc' := mem_of_mem_filter hc
    have hcin := inSpan_of_block hv hs hc' (a := c.1) rfl
    have hsame := same_block (hcanon _ hcin) (hcanon _ hin) heq
    obtain ⟨k, hk, hc1, hc2⟩ := (mem_blocks _ _ _).mp hc'
    obtain ⟨m, hm, hb1, hb2'⟩ := (mem_blocks _ _ _).mp hb
    rw [blockCount, if_pos (by omega)] at hk hm
    have hkm : k = m := by omega
    have hpa : c.2 = b.2 := UInt64.toNat_inj.mp (by rw [hc2, hb2', hkm])
    rw [hpa]

theorem mapContract_iff : MapContract s (mapResult s virt phys size perms) virt phys size perms ↔
    MapOk s virt phys size perms := by
  have hwf' : WellFormed (mapResult s virt phys size perms) := wellFormed_mapResult hwf perms
  have htr := translate_eq hwf'
  constructor
  · intro h
    have hcanon : ∀ a, InSpan virt size a → Canonical a := by
      intro a ha
      by_contra hno
      have hin := h.inside a ha
      rw [htr, if_neg hno] at hin
      cases hin
    have hroom : Room s (blocks (blockCount virt size) virt phys) := by
      by_contra hno
      obtain ⟨b, hb, hcell⟩ := mapAll_no_room (isLeaf_pteFlags perms) _ s hwf hno
      have hin := h.inside b.1 (inSpan_of_block hv hs hb rfl)
      rw [htr, mapResult, hcell] at hin
      split at hin <;> cases hin
    refine ⟨hcanon, fun a ha hskip => ?_, fun a ha hskip => ?_, hroom⟩
    · have hin := h.inside a ha
      rwa [htr, cell_mapResult_skipped hwf hv hs perms hroom hskip, ← translate_eq hwf] at hin
    · obtain ⟨pa, hpa, hval, hle, hcell⟩ :=
        cell_mapResult_placed hwf hv hp hs perms hcanon hroom ha hskip
      have hin := h.inside a ha
      rw [htr, if_pos (hcanon a ha), hcell, Cell.translate, mega_asked_iff hpa] at hin
      exact ⟨hin.1, by omega⟩
  · intro h
    refine ⟨fun a ha => ?_, fun a ha => ?_⟩
    · by_cases hskip : Skipped s virt size a
      · rw [htr, cell_mapResult_skipped hwf hv hs perms h.room hskip, ← translate_eq hwf]
        exact h.skipped a ha hskip
      · obtain ⟨pa, hpa, hval, hle, hcell⟩ :=
          cell_mapResult_placed hwf hv hp hs perms h.canonical h.room ha hskip
        obtain ⟨hexpr, hlt⟩ := h.placed a ha hskip
        rw [htr, if_pos (h.canonical a ha), hcell, Cell.translate, mega_asked_iff hpa]
        rw [Nat.mod_eq_of_lt (by omega)] at hval
        exact ⟨hexpr, by omega, by omega⟩
    · rw [htr, translate_eq hwf]
      by_cases hca : Canonical a
      · rw [if_pos hca, if_pos hca,
          cell_mapResult_outside hwf hv hs perms h.canonical h.room hca ha]
      · rw [if_neg hca, if_neg hca]

end Map

/-! ## Unmapping -/

structure UnmapContract (s t : MmuState) (virt size : UInt64) : Prop where
  inside : ∀ a, InSpan virt size a → translate t a = none
  outside : ∀ a, ¬ InSpan virt size a → translate t a = translate s a

def Cleared (s : MmuState) (virt size a : UInt64) : Prop :=
  ¬ RootAbsent s (vpn2 virt) ∧ vpn2 a = vpn2 virt ∧
    (IsGiga s (vpn2 virt) ∨ ∃ k < blockCount virt size,
      (virt.toNat / 2097152 + k) % 512 = a.toNat / 2097152 % 512)

def UnmapOk (s : MmuState) (virt size : UInt64) : Prop :=
  ∀ a, translate s a ≠ none → (InSpan virt size a ↔ Cleared s virt size a)

def clearAll (l1 : UInt64) (s : MmuState) (bs : List (UInt64 × UInt64)) : MmuState :=
  bs.foldl (fun s b => s.write l1 (vpn1 b.1) 0) s

theorem unmapLoop_eq {stop : UInt64} : ∀ (n fuel : Nat) (s : MmuState) (a phys : UInt64),
    a.toNat % 2097152 = 0 → a.toNat + n * 2097152 = stop.toNat → n ≤ fuel →
    unmapLoop l1 stop fuel s a = some (clearAll l1 s (blocks n a phys)) := by
  intro n
  induction n with
  | zero =>
    intro fuel s a phys _ hstop _
    unfold unmapLoop
    rw [if_pos (by rw [UInt64.lt_iff_toNat_lt]; omega)]
    rfl
  | succ n ih =>
    intro fuel s a phys ha hstop hfuel
    have hlt := stop.toNat_lt
    obtain ⟨fuel, rfl⟩ : ∃ m, fuel = m + 1 := ⟨fuel - 1, by omega⟩
    have hnext : (a + megapage).toNat = a.toNat + 2097152 := by
      rw [UInt64.toNat_add, megapage_toNat]
      omega
    unfold unmapLoop
    rw [if_neg (by rw [UInt64.lt_iff_toNat_lt]; omega)]
    simp only
    rw [ih fuel _ _ (phys + megapage) (aligned_add_megapage ha) (by omega) (by omega),
      blocks, clearAll, clearAll, foldl_cons]

theorem clearAll_spec {i : Fin 512} : ∀ (bs : List (UInt64 × UInt64)) (s : MmuState),
    WellFormed s → ¬ RootAbsent s i → ¬ IsGiga s i →
    WellFormed (clearAll (ppnToPa (s.root i)) s bs) ∧ cell (clearAll (ppnToPa (s.root i)) s bs) =
        store (cell s) (bs.map fun b => ((i, vpn1 b.1), .absent)) := by
  intro bs
  induction bs with
  | nil => intro s hwf _ _; exact ⟨hwf, rfl⟩
  | cons b bs ih =>
    intro s hwf ha hg
    obtain ⟨hwf', hroot, hcell⟩ := writeWord_spec hwf ha hg (vpn1 b.1) (v := 0)
      fun h => by rw [bit_zero] at h; cases h
    have ha' : ¬ RootAbsent (s.write (ppnToPa (s.root i)) (vpn1 b.1) 0) i := by
      rwa [RootAbsent, hroot]
    have hg' : ¬ IsGiga (s.write (ppnToPa (s.root i)) (vpn1 b.1) 0) i := by
      rwa [IsGiga, hroot]
    obtain ⟨hwf'', hcells⟩ := ih _ hwf' ha' hg'
    rw [hroot] at hwf'' hcells
    rw [clearAll, foldl_cons]
    refine ⟨hwf'', hcells.trans ?_⟩
    rw [map_cons, store, hcell, bit_zero]
    rfl

theorem unmapLoop_range (s : MmuState) (hv : virt.toNat % 2097152 = 0)
    (hs : size.toNat % 2097152 = 0) :
    unmapLoop l1 (virt + size) (2 ^ 52) s virt =
      some (clearAll l1 s (blocks (blockCount virt size) virt virt)) := by
  have hsl := size.toNat_lt
  unfold blockCount
  by_cases hwrap : virt.toNat + size.toNat < 2 ^ 64
  · rw [if_pos hwrap]
    refine unmapLoop_eq _ _ s virt virt hv ?_ (by omega)
    rw [UInt64.toNat_add]
    omega
  · rw [if_neg hwrap]
    unfold unmapLoop
    rw [if_pos]
    · rfl
    · rw [UInt64.lt_iff_toNat_lt, UInt64.toNat_add]
      omega

theorem block_index_iff (virt a : UInt64) (n : Nat) :
    (∃ b ∈ blocks n virt virt, vpn1 b.1 = vpn1 a) ↔
      ∃ k < n, (virt.toNat / 2097152 + k) % 512 = a.toNat / 2097152 % 512 := by
  constructor
  · rintro ⟨b, hb, hidx⟩
    obtain ⟨k, hk, h1, -⟩ := (mem_blocks _ _ _).mp hb
    rw [Fin.ext_iff, vpn1_val, vpn1_val] at hidx
    exact ⟨k, hk, by omega⟩
  · rintro ⟨k, hk, hidx⟩
    have hcast : (UInt64.ofNat ((virt.toNat + k * 2097152) % 2 ^ 64)).toNat =
        (virt.toNat + k * 2097152) % 2 ^ 64 :=
      UInt64.toNat_ofNat_of_lt' (Nat.mod_lt _ (by decide))
    refine ⟨(UInt64.ofNat ((virt.toNat + k * 2097152) % 2 ^ 64),
      UInt64.ofNat ((virt.toNat + k * 2097152) % 2 ^ 64)),
      (mem_blocks _ _ _).mpr ⟨k, hk, hcast, hcast⟩, ?_⟩
    rw [Fin.ext_iff, vpn1_val, vpn1_val]
    simp only
    rw [hcast]
    omega

theorem halMmuUnmap_spec (hwf : WellFormed s) (hv : virt.toNat % 2097152 = 0)
    (hs : size.toNat % 2097152 = 0) :
    ∃ t, halMmuUnmap s virt size = some (.ok, t) ∧ WellFormed t ∧
      ∀ a, (Cleared s virt size a → cell t (key a) = .absent) ∧
        (¬ Cleared s virt size a → cell t (key a) = cell s (key a)) := by
  unfold halMmuUnmap
  by_cases ha : RootAbsent s (vpn2 virt)
  · rw [if_pos (rootAbsent_iff.mpr ha)]
    exact ⟨s, rfl, hwf, fun a => ⟨fun h => absurd ha h.1, fun _ => rfl⟩⟩
  · rw [if_neg (mt rootAbsent_iff.mp ha)]
    by_cases hg : IsGiga s (vpn2 virt)
    · rw [if_pos ((isGiga_iff ha).mpr hg)]
      obtain ⟨hwf', hcell⟩ := clearRoot_spec hwf (vpn2 virt)
      refine ⟨_, rfl, hwf', fun a => ⟨fun h => ?_, fun h => ?_⟩⟩
      · rw [hcell]
        exact if_pos h.2.1
      · rw [hcell]
        exact if_neg fun hvpn => h ⟨ha, hvpn, .inl hg⟩
    · rw [if_neg (mt (isGiga_iff ha).mp hg), unmapLoop_range s hv hs]
      obtain ⟨hwf', hcell⟩ := clearAll_spec (blocks (blockCount virt size) virt virt) s hwf ha hg
      refine ⟨_, rfl, hwf', fun a => ⟨fun h => ?_, fun h => ?_⟩⟩
      · obtain ⟨-, hvpn, hg' | hk⟩ := h
        · exact absurd hg' hg
        · obtain ⟨b, hb, hidx⟩ := (block_index_iff _ a _).mpr hk
          change cell (clearAll (ppnToPa (s.root (vpn2 virt))) s _) (key a) = _
          rw [hcell]
          refine store_of_mem _ _ ⟨_, mem_map.mpr ⟨b, hb, rfl⟩, ?_⟩ ?_
          · rw [key, hvpn, hidx]
          · intro w hw _
            obtain ⟨c, -, rfl⟩ := mem_map.mp hw
            rfl
      · change cell (clearAll (ppnToPa (s.root (vpn2 virt))) s _) (key a) = _
        rw [hcell]
        refine store_of_not_mem _ _ fun w hw heq => h ?_
        obtain ⟨b, hb, rfl⟩ := mem_map.mp hw
        obtain ⟨hvpn, hidx⟩ := Prod.mk.inj heq
        exact ⟨ha, hvpn.symm, .inr ((block_index_iff _ a _).mp ⟨b, hb, hidx⟩)⟩

theorem unmapContract_iff {t : MmuState} (hwf : WellFormed s) (hwf' : WellFormed t)
    (ht : ∀ a, (Cleared s virt size a → cell t (key a) = .absent) ∧
      (¬ Cleared s virt size a → cell t (key a) = cell s (key a))) :
    UnmapContract s t virt size ↔ UnmapOk s virt size := by
  have hcleared : ∀ a, Cleared s virt size a → translate t a = none := by
    intro a ha
    rw [translate_eq hwf', (ht a).1 ha]
    split <;> rfl
  have hkept : ∀ a, ¬ Cleared s virt size a → translate t a = translate s a := by
    intro a ha
    rw [translate_eq hwf', translate_eq hwf, (ht a).2 ha]
  have herases := erases_iff (InSpan virt size) id hcleared hkept
  simp only [Option.map_id_fun, id] at herases
  exact ⟨fun h => herases.mp ⟨h.inside, h.outside⟩, fun h => ⟨(herases.mpr h).1, (herases.mpr h).2⟩⟩

/-! ## The tables of hal_mmu_init -/

def NoTables (s : MmuState) : Prop := ∀ i, RootAbsent s i ∨ IsGiga s i

theorem noTables_mapGigapage (h : NoTables s) (va pa : UInt64) {flags : UInt64}
    (hflags : isLeaf flags = true) : NoTables (mapGigapage s va pa flags) := by
  intro i
  rw [mapGigapage, RootAbsent, IsGiga, root_write]
  by_cases hi : i = vpn2 va
  · rw [if_pos hi]
    refine .inr ⟨by simp [bit_pteV], ?_⟩
    simp only [isLeaf, Bool.or_eq_true] at hflags ⊢
    simp only [bit_or, Bool.or_eq_true]
    rcases hflags with (h1 | h2) | h3
    · exact .inl (.inl (.inr h1))
    · exact .inl (.inr (.inr h2))
    · exact .inr (.inr h3)
  · rw [if_neg hi]
    exact h i

structure PoolPlaced (s : MmuState) : Prop where
  aligned : s.ptPool.toNat % 4096 = 0
  inMemory : s.ptPool.toNat + 262144 ≤ 2 ^ 56

theorem wellFormed_halMmuInit (h : PoolPlaced s) : WellFormed (halMmuInit s) := by
  have hempty : NoTables { s with mem := setPage s.mem s.ptPool fun _ => 0, ptPoolNext := 1 } := by
    intro i
    left
    simp [RootAbsent, MmuState.root]
  have hinit : NoTables (halMmuInit s) :=
    noTables_mapGigapage (noTables_mapGigapage (noTables_mapGigapage
      (noTables_mapGigapage hempty _ _ (by decide)) _ _ (by decide)) _ _ (by decide)) _ _
      (by decide)
  have hvoid : ∀ {P : Prop} i, ¬ RootAbsent (halMmuInit s) i → ¬ IsGiga (halMmuInit s) i → P :=
    fun i ha hg => absurd (hinit i) (not_or.mpr ⟨ha, hg⟩)
  exact
    { aligned := h.aligned
      inMemory := h.inMemory
      next := ⟨le_refl 1, (by decide : 1 ≤ 64)⟩
      pointer := fun i ha hg => hvoid i ha hg
      distinct := fun i _ ha hg => hvoid i ha hg
      words := fun i ha hg => hvoid i ha hg }

/-! ## Runs of calls -/

abbrev Megas := { a : UInt64 // a.toNat % 2097152 = 0 }

inductive MmuOp where
  | map (virt phys size : Megas) (perms : UInt32) (type : HalMemType)
  | unmap (virt size : Megas)

def mmuStep (s : MmuState) : MmuOp → MmuState
  | .map virt phys size perms type =>
    ((halMmuMap s virt.1 phys.1 size.1 perms type).map Prod.snd).getD s
  | .unmap virt size => ((halMmuUnmap s virt.1 size.1).map Prod.snd).getD s

theorem wellFormed_mmuStep (s : MmuState) (op : MmuOp) (hwf : WellFormed s) :
    WellFormed (mmuStep s op) := by
  cases op with
  | map virt phys size perms type =>
    rw [mmuStep, halMmuMap_eq s perms type virt.2 phys.2 size.2]
    exact wellFormed_mapResult hwf perms
  | unmap virt size =>
    obtain ⟨t, heq, hwf', -⟩ := halMmuUnmap_spec hwf virt.2 size.2
    rw [mmuStep, heq]
    exact hwf'

/-- After any calls, ranges of megapages meet the contracts exactly under `MapOk` and `UnmapOk`. -/
theorem halMmu_contract_iff (s : MmuState) (hs : PoolPlaced s) (ops : List MmuOp)
    (virt phys size : Megas) (perms : UInt32) (type : HalMemType) :
    (∃ t, halMmuMap (run mmuStep (halMmuInit s) ops) virt.1 phys.1 size.1 perms type =
        some (.ok, t) ∧
      (MapContract (run mmuStep (halMmuInit s) ops) t virt.1 phys.1 size.1 perms ↔
        MapOk (run mmuStep (halMmuInit s) ops) virt.1 phys.1 size.1 perms)) ∧
    (∃ t, halMmuUnmap (run mmuStep (halMmuInit s) ops) virt.1 size.1 = some (.ok, t) ∧
      (UnmapContract (run mmuStep (halMmuInit s) ops) t virt.1 size.1 ↔
        UnmapOk (run mmuStep (halMmuInit s) ops) virt.1 size.1)) := by
  have hwf : WellFormed (run mmuStep (halMmuInit s) ops) :=
    run_invariant wellFormed_mmuStep ops _ (wellFormed_halMmuInit hs)
  refine ⟨⟨_, halMmuMap_eq _ perms type virt.2 phys.2 size.2, ?_⟩, ?_⟩
  · exact mapContract_iff hwf virt.2 phys.2 size.2 perms
  · obtain ⟨t, heq, hwf', hcells⟩ := halMmuUnmap_spec hwf virt.2 size.2
    exact ⟨t, heq, unmapContract_iff hwf hwf' hcells⟩

def coldBoot : MmuState where
  mem := fun _ _ => 0
  ptPool := 0x80210000
  ptPoolNext := 0

theorem halMmu_contract_above : PoolPlaced coldBoot ∧
    ∃ t, halMmuMap (halMmuInit coldBoot) 0x100000000 0x90000000 0x200000 0x3 .normal =
        some (.ok, t) ∧
      MapContract (halMmuInit coldBoot) t 0x100000000 0x90000000 0x200000 0x3 := by
  have hplaced : PoolPlaced coldBoot := ⟨by decide, by decide⟩
  have hspan : ∀ a, InSpan 0x100000000 0x200000 a →
      0x100000000 ≤ a.toNat ∧ a.toNat < 0x100200000 := by
    intro a ha
    rw [inSpan_iff, toNat_offset] at ha
    simp only [show (0x100000000 : UInt64).toNat = 0x100000000 from rfl,
      show (0x200000 : UInt64).toNat = 0x200000 from rfl] at ha
    split at ha <;> omega
  have habsent : ¬ IsGiga (halMmuInit coldBoot) 4 := by decide
  have hnotSkipped : ∀ a, InSpan 0x100000000 0x200000 a →
      ¬ Skipped (halMmuInit coldBoot) 0x100000000 0x200000 a := by
    intro a ha hskip
    rcases hskip with hwrap | hgiga
    · exact absurd hwrap (by decide)
    · have hroot : vpn2 a = 4 := by
        rw [Fin.ext_iff, vpn2_val]
        have := hspan a ha
        change a.toNat / 2 ^ 30 % 512 = 4
        omega
      rw [hroot] at hgiga
      exact habsent hgiga
  refine ⟨hplaced, ?_⟩
  obtain ⟨⟨t, heq, hiff⟩, -⟩ := halMmu_contract_iff coldBoot hplaced []
    ⟨0x100000000, by decide⟩ ⟨0x90000000, by decide⟩ ⟨0x200000, by decide⟩ 0x3 .normal
  refine ⟨t, heq, hiff.mpr ⟨fun a ha => ?_, fun a ha hskip => ?_, fun a ha _ => ?_, ?_⟩⟩
  · have := hspan a ha
    left
    omega
  · exact absurd hskip (hnotSkipped a ha)
  · refine ⟨by decide, ?_⟩
    have hoff : (a - 0x100000000).toNat < 0x200000 := inSpan_iff.mp ha
    change 0x90000000 + (a - 0x100000000).toNat < 2 ^ 56
    omega
  · have hcard : (demand (RootAbsent (halMmuInit coldBoot))
        ((blocks (blockCount 0x100000000 0x200000) 0x100000000 0x90000000).map
          fun b => vpn2 b.1)).card ≤ 1 :=
      Nat.le_trans (Finset.card_filter_le _ _) (toFinset_card_le _)
    have hnext : (halMmuInit coldBoot).ptPoolNext = 1 := rfl
    change _ + Finset.card _ ≤ 64
    rw [run_nil, hnext]
    exact Nat.le_trans (Nat.add_le_add_left hcard 1) (by decide)

theorem halMmu_contract_below :
    (∃ t, halMmuMap (halMmuInit coldBoot) 0x80000000 0x90000000 0x200000 0x3 .normal =
        some (.ok, t) ∧ translate t 0x80000000 = some ⟨0x80000000, true, true, true, false⟩ ∧
      ¬ MapContract (halMmuInit coldBoot) t 0x80000000 0x90000000 0x200000 0x3) ∧
    (∃ t, halMmuUnmap (halMmuInit coldBoot) 0x40000000 0x200000 = some (.ok, t) ∧
      translate (halMmuInit coldBoot) 0x40400000 = some ⟨0x40400000, true, true, false, false⟩ ∧
      translate t 0x40400000 = none ∧
      ¬ UnmapContract (halMmuInit coldBoot) t 0x40000000 0x200000) := by
  constructor
  · refine ⟨_, halMmuMap_eq _ 0x3 .normal (by decide) (by decide) (by decide), ?_⟩
    have htr : translate (mapAll (pteFlags 0x3) (halMmuInit coldBoot)
        (blocks (blockCount 0x80000000 0x200000) 0x80000000 0x90000000)) 0x80000000 =
        some ⟨0x80000000, true, true, true, false⟩ := by decide
    refine ⟨htr, fun h => ?_⟩
    have hin := h.inside 0x80000000 (by decide)
    rw [htr] at hin
    exact absurd hin (by decide)
  · have hbefore : translate (halMmuInit coldBoot) 0x40400000 =
        some ⟨0x40400000, true, true, false, false⟩ := by decide
    have hafter : translate ((halMmuInit coldBoot).write coldBoot.ptPool 1 0) 0x40400000
        = none := by
      decide
    refine ⟨(halMmuInit coldBoot).write coldBoot.ptPool 1 0, rfl, hbefore, hafter, fun h => ?_⟩
    have hout := h.outside 0x40400000 (by decide)
    rw [hbefore, hafter] at hout
    cases hout

end AlJefra.Arch.Riscv64
