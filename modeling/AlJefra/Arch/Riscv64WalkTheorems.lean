/- The Sv39 tables as cells of 2 MiB. -/
import AlJefra.Arch.Riscv64Mmu
import AlJefra.Lib.Cells

namespace AlJefra.Arch.Riscv64

open AlJefra.Lib AlJefra.Hal

/-! ## Entries -/

def isLeaf (pte : UInt64) : Bool := bit pte 1 || bit pte 2 || bit pte 3

variable {pte : UInt64} {s : MmuState} {i j : Fin 512}

theorem bit_pteV (k : Nat) : bit pteV k = decide (0 = k) := bit_flag (by decide) k
theorem bit_pteR (k : Nat) : bit pteR k = decide (1 = k) := bit_flag (by decide) k
theorem bit_pteW (k : Nat) : bit pteW k = decide (2 = k) := bit_flag (by decide) k
theorem bit_pteX (k : Nat) : bit pteX k = decide (3 = k) := bit_flag (by decide) k
theorem bit_pteG (k : Nat) : bit pteG k = decide (5 = k) := bit_flag (by decide) k
theorem bit_pteA (k : Nat) : bit pteA k = decide (6 = k) := bit_flag (by decide) k
theorem bit_pteD (k : Nat) : bit pteD k = decide (7 = k) := bit_flag (by decide) k

theorem and_rwx : pte &&& (pteR ||| pteW ||| pteX) = 0 ↔ isLeaf pte = false := by
  have hbits : ∀ k, bit (pte &&& (pteR ||| pteW ||| pteX)) k =
      (bit pte k && (decide (1 = k) || decide (2 = k) || decide (3 = k))) := by
    intro k
    rw [bit_and, bit_or, bit_or, bit_pteR, bit_pteW, bit_pteX]
  constructor
  · intro h
    have hz : ∀ k, bit (pte &&& (pteR ||| pteW ||| pteX)) k = false := fun k => by rw [h, bit_zero]
    have h1 := hz 1
    have h2 := hz 2
    have h3 := hz 3
    rw [hbits] at h1 h2 h3
    simp only [isLeaf]
    simp_all
  · intro h
    simp only [isLeaf, Bool.or_eq_false_iff] at h
    refine word_ext fun k _ => ?_
    rw [hbits, bit_zero]
    by_cases h1 : 1 = k
    · subst h1; simp [h.1.1]
    · by_cases h2 : 2 = k
      · subst h2; simp [h.1.2]
      · by_cases h3 : 3 = k
        · subst h3; simp [h.2]
        · simp [h1, h2, h3]

theorem decode_of_isLeaf (h : isLeaf pte = true) : decode pte = .fault ∨ decode pte = .leaf := by
  unfold decode
  split
  · exact .inl rfl
  · rename_i hok
    rw [if_pos]
    · exact .inr rfl
    · simp only [isLeaf, Bool.or_eq_true] at h
      simp only [not_or, not_and] at hok
      rcases h with (h1 | h2) | h3
      · exact .inl h1
      · by_contra hno
        simp only [not_or] at hno
        exact hok.2.1 hno.1 h2
      · exact .inr h3

theorem decode_of_invalid (h : bit pte 0 = false) : decode pte = .fault := by
  unfold decode
  rw [if_pos (.inl (by simp [h]))]

/-! ## Pointers -/

theorem bit_paToPpn (pa : UInt64) (k : Nat) :
    bit (paToPpn pa) k = (decide (k < 64) && decide (10 ≤ k) && bit pa (k + 2)) := by
  rw [paToPpn, bit_shiftLeft (by decide), bit_shiftRight (by decide),
    show (10 : UInt64).toNat = 10 from rfl, show (12 : UInt64).toNat = 12 from rfl]
  by_cases hk : 10 ≤ k
  · rw [show 12 + (k - 10) = k + 2 by omega]
  · simp [hk]

theorem bit_ppnToPa (pte : UInt64) (k : Nat) :
    bit (ppnToPa pte) k = (decide (k < 56) && decide (12 ≤ k) && bit pte (k - 2)) := by
  have hmask : ∀ m, bit (0xFFFFFFFFFFF : UInt64) m = decide (m < 44) := by
    intro m
    rw [bit, show (0xFFFFFFFFFFF : UInt64).toNat = 2 ^ 44 - 1 from rfl, Nat.testBit_two_pow_sub_one]
  rw [ppnToPa, bit_shiftLeft (by decide), bit_and, bit_shiftRight (by decide), hmask,
    show (10 : UInt64).toNat = 10 from rfl, show (12 : UInt64).toNat = 12 from rfl]
  by_cases hk : 12 ≤ k
  · rw [show 10 + (k - 12) = k - 2 by omega]
    by_cases h56 : k < 56
    · simp [hk, h56, show k < 64 by omega, show k - 12 < 44 by omega]
    · simp [h56, show ¬ k - 12 < 44 by omega]
  · simp [hk]

def pointerPte (page : UInt64) : UInt64 := paToPpn page ||| pteV

theorem bit_pointerPte_low (page : UInt64) {k : Nat} (hk : k < 10) :
    bit (pointerPte page) k = decide (0 = k) := by
  rw [pointerPte, bit_or, bit_paToPpn, bit_pteV]
  simp [show ¬ 10 ≤ k by omega]

theorem isLeaf_pointerPte (page : UInt64) : isLeaf (pointerPte page) = false := by
  simp [isLeaf, bit_pointerPte_low]

theorem ppnToPa_pointerPte {page : UInt64} (halign : page.toNat % 4096 = 0)
    (hlt : page.toNat < 2 ^ 56) : ppnToPa (pointerPte page) = page := by
  refine word_ext fun k hk => ?_
  rw [bit_ppnToPa, pointerPte, bit_or, bit_paToPpn, bit_pteV]
  by_cases h12 : 12 ≤ k
  · by_cases h56 : k < 56
    · simp [h12, h56, show k - 2 < 64 by omega, show 10 ≤ k - 2 by omega,
        show ¬ 0 = k - 2 by omega, show k - 2 + 2 = k by omega]
    · have hbit : bit page k = false := bit_of_lt hlt (by omega)
      simp [h56, hbit]
  · have hbit : bit page k = false := bit_of_aligned (n := 12) halign (by omega)
    simp [h12, hbit]

theorem pointerPte_lt {page : UInt64} (hlt : page.toNat < 2 ^ 56) :
    (pointerPte page).toNat < 2 ^ 54 := by
  refine Nat.lt_pow_two_of_testBit _ fun k hk => ?_
  change bit (pointerPte page) k = false
  have hbit : bit page (k + 2) = false := bit_of_lt hlt (by omega)
  rw [pointerPte, bit_or, bit_paToPpn, bit_pteV, hbit]
  simp [show ¬ 0 = k by omega]

theorem decode_pointerPte {page : UInt64} (halign : page.toNat % 4096 = 0)
    (hlt : page.toNat < 2 ^ 56) : decode (pointerPte page) = .table page := by
  have h0 := bit_pointerPte_low page (show 0 < 10 by decide)
  have h1 := bit_pointerPte_low page (show 1 < 10 by decide)
  have h2 := bit_pointerPte_low page (show 2 < 10 by decide)
  have h3 := bit_pointerPte_low page (show 3 < 10 by decide)
  have hhigh : (pointerPte page).toNat / 2 ^ 54 = 0 := Nat.div_eq_of_lt (pointerPte_lt hlt)
  unfold decode
  rw [if_neg, if_neg, ppnToPa_pointerPte halign hlt]
  · simp [h1, h3]
  · simp only [h0, h1, h2, hhigh]
    decide

/-! ## Cells -/

inductive Cell where
  | absent
  | giga (pte : UInt64)
  | mega (pte : UInt64)
  deriving DecidableEq

def MmuState.root (s : MmuState) (i : Fin 512) : UInt64 := s.mem s.ptPool i
def RootAbsent (s : MmuState) (i : Fin 512) : Prop := bit (s.root i) 0 = false

instance (s : MmuState) (i : Fin 512) : Decidable (RootAbsent s i) :=
  inferInstanceAs (Decidable (_ = _))

def IsGiga (s : MmuState) (i : Fin 512) : Prop := bit (s.root i) 0 = true ∧ isLeaf (s.root i) = true

instance (s : MmuState) (i : Fin 512) : Decidable (IsGiga s i) :=
  inferInstanceAs (Decidable (_ ∧ _))

def cell (s : MmuState) (k : Fin 512 × Fin 512) : Cell :=
  if RootAbsent s k.1 then .absent
  else if IsGiga s k.1 then .giga (s.root k.1)
  else
    let pte := s.mem (ppnToPa (s.root k.1)) k.2
    if bit pte 0 then .mega pte else .absent

def leafTranslate (pte : UInt64) (shift : Nat) (va : UInt64) : Option Translation :=
  if decode pte = .leaf then through pte shift va else none

def Cell.translate (va : UInt64) : Cell → Option Translation
  | .absent => none
  | .giga pte => leafTranslate pte 30 va
  | .mega pte => leafTranslate pte 21 va

def key (va : UInt64) : Fin 512 × Fin 512 := (vpn2 va, vpn1 va)

structure WellFormed (s : MmuState) : Prop where
  aligned : s.ptPool.toNat % 4096 = 0
  inMemory : s.ptPool.toNat + 262144 ≤ 2 ^ 56
  next : 1 ≤ s.ptPoolNext ∧ s.ptPoolNext ≤ 64
  pointer : ∀ i, ¬ RootAbsent s i → ¬ IsGiga s i →
    ∃ n, 1 ≤ n ∧ n < s.ptPoolNext ∧ s.root i = pointerPte (s.poolPage n)
  distinct : ∀ i j, ¬ RootAbsent s i → ¬ IsGiga s i → ¬ RootAbsent s j → ¬ IsGiga s j →
    s.root i = s.root j → i = j
  words : ∀ i, ¬ RootAbsent s i → ¬ IsGiga s i → ∀ j,
    bit (s.mem (ppnToPa (s.root i)) j) 0 = true → isLeaf (s.mem (ppnToPa (s.root i)) j) = true

theorem rootAbsent_iff : s.mem s.ptPool i &&& pteV = 0 ↔ RootAbsent s i :=
  and_flag_eq_zero (by decide)

theorem isGiga_iff (ha : ¬ RootAbsent s i) :
    s.mem s.ptPool i &&& (pteR ||| pteW ||| pteX) ≠ 0 ↔ IsGiga s i := by
  have hvalid : bit (s.root i) 0 = true := by simpa [RootAbsent] using ha
  change s.root i &&& _ ≠ 0 ↔ _
  rw [Ne, and_rwx, IsGiga]
  simp [hvalid]

section Pool

variable {s : MmuState} (hwf : WellFormed s)

include hwf

variable {n : Nat}

theorem poolPage_toNat (hn : n < 64) : (s.poolPage n).toNat = s.ptPool.toNat + 4096 * n := by
  have hmem := hwf.inMemory
  have hcast : (n.toUInt64).toNat = n :=
    UInt64.toNat_ofNat_of_lt' (Nat.lt_of_lt_of_le hn (by decide))
  rw [MmuState.poolPage, UInt64.toNat_add, UInt64.toNat_mul, hcast,
    show (4096 : UInt64).toNat = 4096 from rfl]
  omega

theorem poolPage_ok (hn : n < 64) :
    (s.poolPage n).toNat % 4096 = 0 ∧ (s.poolPage n).toNat < 2 ^ 56 := by
  have h := poolPage_toNat hwf hn
  have halign := hwf.aligned
  have hmem := hwf.inMemory
  omega

theorem poolPage_inj {m : Nat} (hm : m < 64) (hn : n < 64) (h : s.poolPage m = s.poolPage n) :
    m = n := by
  have := congrArg UInt64.toNat h
  rw [poolPage_toNat hwf hm, poolPage_toNat hwf hn] at this
  omega

theorem poolPage_ne_root (hpos : 1 ≤ n) (hn : n < 64) : s.poolPage n ≠ s.ptPool := by
  intro h
  have := congrArg UInt64.toNat h
  rw [poolPage_toNat hwf hn] at this
  omega

theorem WellFormed.page {i : Fin 512} (ha : ¬ RootAbsent s i) (hg : ¬ IsGiga s i) :
    ∃ n, 1 ≤ n ∧ n < s.ptPoolNext ∧ n < 64 ∧ s.root i = pointerPte (s.poolPage n) ∧
      ppnToPa (s.root i) = s.poolPage n := by
  obtain ⟨n, hpos, hlt, hroot⟩ := hwf.pointer i ha hg
  have hnext := hwf.next
  have hok := poolPage_ok hwf (show n < 64 by omega)
  exact ⟨n, hpos, hlt, by omega, hroot, by rw [hroot, ppnToPa_pointerPte hok.1 hok.2]⟩

theorem translate_eq (va : UInt64) :
    translate s va = if Canonical va then (cell s (key va)).translate va else none := by
  unfold translate
  by_cases hva : Canonical va
  · rw [if_neg (not_not.mpr hva), if_pos hva]
    simp only [show s.mem s.ptPool (vpn2 va) = s.root (vpn2 va) from rfl]
    unfold cell key
    by_cases ha : RootAbsent s (vpn2 va)
    · rw [if_pos ha, decode_of_invalid ha]
      rfl
    · rw [if_neg ha]
      by_cases hg : IsGiga s (vpn2 va)
      · rw [if_pos hg, Cell.translate, leafTranslate]
        rcases decode_of_isLeaf hg.2 with hd | hd <;> simp [hd]
      · rw [if_neg hg]
        obtain ⟨n, -, -, hlt, hroot, hpage⟩ := hwf.page ha hg
        have hok := poolPage_ok hwf hlt
        have hdecode : decode (s.root (vpn2 va)) = .table (ppnToPa (s.root (vpn2 va))) := by
          rw [hpage, hroot, decode_pointerPte hok.1 hok.2]
        rw [hdecode]
        simp only
        by_cases h0 : bit (s.mem (ppnToPa (s.root (vpn2 va))) (vpn1 va)) 0 = true
        · rw [if_pos h0, Cell.translate, leafTranslate]
          rcases decode_of_isLeaf (hwf.words _ ha hg _ h0) with hd | hd <;> simp [hd]
        · rw [if_neg h0, decode_of_invalid (by simpa using h0)]
          rfl
  · rw [if_pos hva, if_neg hva]

end Pool

/-! ## One word changed -/

theorem root_write (s : MmuState) (i j : Fin 512) (v : UInt64) :
    (s.write s.ptPool i v).root j = if j = i then v else s.root j := by
  simp only [MmuState.root, MmuState.write, setWord]
  by_cases h : j = i <;> simp [h]

theorem cell_absent (ha : RootAbsent s i) : cell s (i, j) = .absent := if_pos ha

theorem cell_giga (hg : IsGiga s i) : cell s (i, j) = .giga (s.root i) := by
  have ha : ¬ RootAbsent s i := fun h => by
    rw [RootAbsent, hg.1] at h
    cases h
  unfold cell
  rw [if_neg ha, if_pos hg]

theorem cell_table (ha : ¬ RootAbsent s i) (hg : ¬ IsGiga s i) :
    cell s (i, j) = if bit (s.mem (ppnToPa (s.root i)) j) 0 then
      .mega (s.mem (ppnToPa (s.root i)) j) else .absent := by
  unfold cell
  rw [if_neg ha, if_neg hg]

theorem cell_congr {t : MmuState} (hroot : t.root i = s.root i)
    (hword : ¬ RootAbsent s i → ¬ IsGiga s i → t.mem (ppnToPa (s.root i)) j =
      s.mem (ppnToPa (s.root i)) j) : cell t (i, j) = cell s (i, j) := by
  have habs : RootAbsent t i ↔ RootAbsent s i := by rw [RootAbsent, hroot, RootAbsent]
  have hgiga : IsGiga t i ↔ IsGiga s i := by rw [IsGiga, hroot, IsGiga]
  by_cases ha : RootAbsent s i
  · rw [cell_absent ha, cell_absent (habs.mpr ha)]
  · by_cases hg : IsGiga s i
    · rw [cell_giga hg, cell_giga (hgiga.mpr hg), hroot]
    · rw [cell_table ha hg, cell_table (mt habs.mp ha) (mt hgiga.mp hg), hroot, hword ha hg]

section Write

variable {s : MmuState} (hwf : WellFormed s)

include hwf

variable {i : Fin 512}

theorem WellFormed.page_inj {j : Fin 512} (ha : ¬ RootAbsent s i) (hg : ¬ IsGiga s i)
    (ha' : ¬ RootAbsent s j) (hg' : ¬ IsGiga s j) (h : ppnToPa (s.root i) = ppnToPa (s.root j)) :
    i = j := by
  obtain ⟨m, -, -, hm, hroot, hpage⟩ := hwf.page ha hg
  obtain ⟨n, -, -, hn, hroot', hpage'⟩ := hwf.page ha' hg'
  rw [hpage, hpage'] at h
  obtain rfl := poolPage_inj hwf hm hn h
  exact hwf.distinct i j ha hg ha' hg' (hroot.trans hroot'.symm)

theorem writeWord_spec (ha : ¬ RootAbsent s i) (hg : ¬ IsGiga s i) (j : Fin 512) {v : UInt64}
    (hv : bit v 0 = true → isLeaf v = true) :
    WellFormed (s.write (ppnToPa (s.root i)) j v) ∧
      (∀ k, (s.write (ppnToPa (s.root i)) j v).root k = s.root k) ∧
      cell (s.write (ppnToPa (s.root i)) j v) =
        Function.update (cell s) (i, j) (if bit v 0 then .mega v else .absent) := by
  obtain ⟨n, hpos, -, hn, -, hpage⟩ := hwf.page ha hg
  have hne : s.ptPool ≠ ppnToPa (s.root i) := by
    rw [hpage]
    exact (poolPage_ne_root hwf hpos hn).symm
  have hroot : ∀ k, (s.write (ppnToPa (s.root i)) j v).root k = s.root k := by
    intro k
    exact setWord_ne s.mem v fun h => hne h.1
  -- the same entries are absent or gigapages
  have habs : ∀ k, RootAbsent (s.write (ppnToPa (s.root i)) j v) k ↔ RootAbsent s k := by
    intro k
    rw [RootAbsent, hroot, RootAbsent]
  have hgiga : ∀ k, IsGiga (s.write (ppnToPa (s.root i)) j v) k ↔ IsGiga s k := by
    intro k
    rw [IsGiga, hroot, IsGiga]
  have hword : ∀ k l, ¬ RootAbsent s k → ¬ IsGiga s k →
      (s.write (ppnToPa (s.root i)) j v).mem (ppnToPa (s.root k)) l =
        if (k, l) = (i, j) then v else s.mem (ppnToPa (s.root k)) l := by
    intro k l hka hkg
    simp only [MmuState.write, setWord, Prod.mk.injEq]
    by_cases hk : k = i
    · subst hk; simp
    · have hpages : ppnToPa (s.root k) ≠ ppnToPa (s.root i) :=
        fun h => hk (hwf.page_inj hka hkg ha hg h)
      simp [hk, hpages]
  refine ⟨⟨hwf.aligned, hwf.inMemory, hwf.next, ?_, ?_, ?_⟩, hroot, ?_⟩
  · intro k hka hkg
    rw [habs] at hka
    rw [hgiga] at hkg
    rw [hroot]
    exact hwf.pointer k hka hkg
  · intro k l hka hkg hla hlg
    rw [habs] at hka hla
    rw [hgiga] at hkg hlg
    rw [hroot, hroot]
    exact hwf.distinct k l hka hkg hla hlg
  · intro k hka hkg l
    rw [habs] at hka
    rw [hgiga] at hkg
    rw [hroot, hword k l hka hkg]
    split
    · exact hv
    · exact hwf.words k hka hkg l
  · funext kl
    obtain ⟨k, l⟩ := kl
    by_cases hki : (k, l) = (i, j)
    · obtain ⟨rfl, rfl⟩ := Prod.mk.inj hki
      rw [Function.update_self, cell_table (mt (habs k).mp ha) (mt (hgiga k).mp hg), hroot,
        hword k l ha hg, if_pos rfl]
    · rw [Function.update_of_ne hki]
      refine cell_congr (hroot k) fun hka hkg => ?_
      rw [hword k l hka hkg, if_neg hki]

theorem clearRoot_spec (i : Fin 512) : WellFormed (s.write s.ptPool i 0) ∧
      cell (s.write s.ptPool i 0) = fun k => if k.1 = i then .absent else cell s k := by
  have habs : ∀ k, RootAbsent (s.write s.ptPool i 0) k ↔ k = i ∨ RootAbsent s k := by
    intro k
    rw [RootAbsent, root_write]
    by_cases hk : k = i <;> simp [hk, RootAbsent]
  have hroot : ∀ k, k ≠ i → (s.write s.ptPool i 0).root k = s.root k := by
    intro k hk
    rw [root_write, if_neg hk]
  have hgiga : ∀ k, k ≠ i → (IsGiga (s.write s.ptPool i 0) k ↔ IsGiga s k) := by
    intro k hk
    rw [IsGiga, hroot k hk, IsGiga]
  have hword : ∀ k l, ¬ RootAbsent s k → ¬ IsGiga s k →
      (s.write s.ptPool i 0).mem (ppnToPa (s.root k)) l = s.mem (ppnToPa (s.root k)) l := by
    intro k l hka hkg
    obtain ⟨n, hpos, -, hn, -, hpage⟩ := hwf.page hka hkg
    simp only [MmuState.write]
    rw [setWord_ne _ _ fun h => ?_]
    rw [hpage] at h
    exact poolPage_ne_root hwf hpos hn h.1
  have hold : ∀ k, ¬ RootAbsent (s.write s.ptPool i 0) k → ¬ IsGiga (s.write s.ptPool i 0) k →
      k ≠ i ∧ ¬ RootAbsent s k ∧ ¬ IsGiga s k := by
    intro k hka hkg
    rw [habs, not_or] at hka
    exact ⟨hka.1, hka.2, mt (hgiga k hka.1).mpr hkg⟩
  refine ⟨⟨hwf.aligned, hwf.inMemory, hwf.next, ?_, ?_, ?_⟩, ?_⟩
  · intro k hka hkg
    obtain ⟨hki, ha', hg'⟩ := hold k hka hkg
    rw [hroot k hki]
    exact hwf.pointer k ha' hg'
  · intro k l hka hkg hla hlg
    obtain ⟨hki, ha', hg'⟩ := hold k hka hkg
    obtain ⟨hli, hla', hlg'⟩ := hold l hla hlg
    rw [hroot k hki, hroot l hli]
    exact hwf.distinct k l ha' hg' hla' hlg'
  · intro k hka hkg l
    obtain ⟨hki, ha', hg'⟩ := hold k hka hkg
    rw [hroot k hki, hword k l ha' hg']
    exact hwf.words k ha' hg' l
  · funext kl
    obtain ⟨k, l⟩ := kl
    by_cases hki : k = i
    · rw [if_pos hki, cell_absent ((habs k).mpr (.inl hki))]
    · rw [if_neg hki]
      exact cell_congr (hroot k hki) fun hka hkg => hword k l hka hkg

/-! ## A table created -/

def MmuState.linked (s : MmuState) (i : Fin 512) : MmuState :=
  MmuState.write { s with
    mem := setPage s.mem (s.poolPage s.ptPoolNext) fun _ => 0
    ptPoolNext := s.ptPoolNext + 1 } s.ptPool i (pointerPte (s.poolPage s.ptPoolNext))

theorem linked_spec (ha : RootAbsent s i) (hroom : s.ptPoolNext < 64) :
    WellFormed (s.linked i) ∧ cell (s.linked i) = cell s ∧
      (∀ k, RootAbsent (s.linked i) k ↔ RootAbsent s k ∧ k ≠ i) ∧
      (∀ k, IsGiga (s.linked i) k ↔ IsGiga s k) := by
  have hnext := hwf.next
  have hok := poolPage_ok hwf hroom
  have hnotRoot := poolPage_ne_root hwf hnext.1 hroom
  have hroot : ∀ k, (s.linked i).root k =
      if k = i then pointerPte (s.poolPage s.ptPoolNext) else s.root k := by
    intro k
    simp only [MmuState.root, MmuState.linked, MmuState.write, setWord]
    by_cases hk : k = i
    · simp [hk]
    · simp [hk, setPage_ne _ _ hnotRoot.symm]
  have hself : (s.linked i).root i = pointerPte (s.poolPage s.ptPoolNext) := by
    rw [hroot, if_pos rfl]
  have hother : ∀ k, k ≠ i → (s.linked i).root k = s.root k := fun k hk => by rw [hroot, if_neg hk]
  have hbit0 := bit_pointerPte_low (s.poolPage s.ptPoolNext) (show 0 < 10 by decide)
  have habs : ∀ k, RootAbsent (s.linked i) k ↔ RootAbsent s k ∧ k ≠ i := by
    intro k
    by_cases hk : k = i
    · subst hk
      simp [RootAbsent, hself, hbit0]
    · simp [RootAbsent, hother k hk, hk]
  have hgiga : ∀ k, IsGiga (s.linked i) k ↔ IsGiga s k := by
    intro k
    by_cases hk : k = i
    · subst hk
      have hno : ¬ IsGiga s k := fun h => by
        rw [IsGiga, ha] at h
        exact Bool.noConfusion h.1
      simp [IsGiga, hself, isLeaf_pointerPte] at hno ⊢
      exact hno
    · rw [IsGiga, hother k hk, IsGiga]
  -- the pages that were handed out before are as they were
  have hpages : ∀ p l, p ≠ s.ptPool → (s.linked i).mem p l =
      if p = s.poolPage s.ptPoolNext then 0 else s.mem p l := by
    intro p l hp
    simp only [MmuState.linked, MmuState.write]
    rw [setWord_ne _ _ fun h => hp h.1, setPage]
    split <;> rfl
  have hnew : ppnToPa ((s.linked i).root i) = s.poolPage s.ptPoolNext := by
    rw [hself, ppnToPa_pointerPte hok.1 hok.2]
  have hword : ∀ k l, ¬ RootAbsent s k → ¬ IsGiga s k →
      (s.linked i).mem (ppnToPa (s.root k)) l = s.mem (ppnToPa (s.root k)) l := by
    intro k l hka hkg
    obtain ⟨n, hpos, hlt, hn, -, hpage⟩ := hwf.page hka hkg
    rw [hpage, hpages _ l (poolPage_ne_root hwf hpos hn), if_neg]
    intro h
    have := poolPage_inj hwf hn hroom h
    omega
  have hwordNew : ∀ l, (s.linked i).mem (ppnToPa ((s.linked i).root i)) l = 0 := by
    intro l
    rw [hnew, hpages _ l hnotRoot, if_pos rfl]
  have hold : ∀ k, ¬ RootAbsent (s.linked i) k → ¬ IsGiga (s.linked i) k → k ≠ i →
      ¬ RootAbsent s k ∧ ¬ IsGiga s k := by
    intro k hka hkg hk
    rw [habs] at hka
    rw [hgiga] at hkg
    exact ⟨fun h => hka ⟨h, hk⟩, hkg⟩
  refine ⟨⟨hwf.aligned, hwf.inMemory, ⟨Nat.le_add_left 1 _, hroom⟩, ?_, ?_, ?_⟩, ?_, habs, hgiga⟩
  · intro k hka hkg
    by_cases hk : k = i
    · subst hk
      exact ⟨s.ptPoolNext, hnext.1, Nat.lt_succ_self _, hself⟩
    · obtain ⟨ha', hg'⟩ := hold k hka hkg hk
      obtain ⟨n, hpos, hlt, hp⟩ := hwf.pointer k ha' hg'
      exact ⟨n, hpos, Nat.lt_succ_of_lt hlt, (hother k hk).trans hp⟩
  · -- a pointer to the new page is in slot `i` alone
    have hfresh : ∀ k, k ≠ i → ¬ RootAbsent (s.linked i) k → ¬ IsGiga (s.linked i) k →
        (s.linked i).root k ≠ (s.linked i).root i := by
      intro k hk hka hkg heq
      obtain ⟨ha', hg'⟩ := hold k hka hkg hk
      obtain ⟨n, -, hlt, hn, -, hpage⟩ := hwf.page ha' hg'
      rw [hother k hk] at heq
      rw [heq, hnew] at hpage
      have := poolPage_inj hwf hroom hn hpage
      omega
    intro k l hka hkg hla hlg heq
    by_cases hk : k = i
    · by_cases hl : l = i
      · rw [hk, hl]
      · exact absurd (by rw [← heq, hk]) (hfresh l hl hla hlg)
    · by_cases hl : l = i
      · exact absurd (by rw [heq, hl]) (hfresh k hk hka hkg)
      · obtain ⟨ha', hg'⟩ := hold k hka hkg hk
        obtain ⟨hla', hlg'⟩ := hold l hla hlg hl
        rw [hother k hk, hother l hl] at heq
        exact hwf.distinct k l ha' hg' hla' hlg' heq
  · intro k hka hkg l hbit
    by_cases hk : k = i
    · subst hk
      rw [hwordNew, bit_zero] at hbit
      cases hbit
    · obtain ⟨ha', hg'⟩ := hold k hka hkg hk
      rw [hother k hk, hword k l ha' hg'] at hbit ⊢
      exact hwf.words k ha' hg' l hbit
  · funext kl
    obtain ⟨k, l⟩ := kl
    by_cases hk : k = i
    · subst hk
      have hnota : ¬ RootAbsent (s.linked k) k := by simp [habs]
      have hnotg : ¬ IsGiga (s.linked k) k := by
        rw [IsGiga, hself, isLeaf_pointerPte]
        simp
      rw [cell_table hnota hnotg, hwordNew, cell_absent ha]
      simp
    · exact cell_congr (hother k hk) fun hka hkg => hword k l hka hkg

end Write

end AlJefra.Arch.Riscv64
