/- The aarch64 tables as cells of 2 MiB. -/
import AlJefra.Arch.Aarch64Mmu
import AlJefra.Arch.X86LoopTheorems
import AlJefra.Lib.Cells

namespace AlJefra.Arch.Aarch64

open AlJefra.Lib AlJefra.Hal List Option

/-! ## Descriptors -/

variable {desc p : UInt64} {d : Nat} {s : MmuState} {π : List (Fin 512)} {i j k : Fin 512}

theorem and_pteValid : desc &&& pteValid = 0 ↔ bit desc 0 = false := and_flag_eq_zero (by decide)

def pointerDesc (page : UInt64) : UInt64 := page ||| pteValid ||| pteTable
def PageOk (page : UInt64) : Prop := page.toNat % 2 ^ 12 = 0 ∧ page.toNat < 2 ^ 48

theorem bit_pointerDesc (page : UInt64) (k : Nat) :
    bit (pointerDesc page) k = (bit page k || decide (0 = k) || decide (1 = k)) := by
  have hvalid : bit pteValid k = decide (0 = k) := bit_flag (by decide) k
  have htable : bit pteTable k = decide (1 = k) := bit_flag (by decide) k
  rw [pointerDesc, bit_or, bit_or, hvalid, htable]

section Pointer

variable {page : UInt64} (h : PageOk page)

include h

theorem bit_pointerDesc_high {k : Nat} (hk : 48 ≤ k) : bit (pointerDesc page) k = false := by
  rw [bit_pointerDesc, bit_of_lt h.2 hk]
  simp [show ¬ 0 = k by omega, show ¬ 1 = k by omega]

theorem tableAddr_pointerDesc : tableAddr (pointerDesc page) = page := by
  have hmask : ∀ k < 64, bit 0x0000FFFFFFFFF000 k = (decide (12 ≤ k) && decide (k < 48)) := by
    decide
  refine word_ext fun k hk => ?_
  rw [tableAddr, bit_and, bit_pointerDesc, hmask k hk]
  by_cases hlow : k < 12
  · rw [bit_of_aligned h.1 hlow]
    simp [Nat.not_le.mpr hlow]
  · by_cases hhigh : k < 48
    · simp [hhigh, Nat.not_lt.mp hlow, show ¬ 0 = k by omega, show ¬ 1 = k by omega]
    · rw [bit_of_lt h.2 (Nat.not_lt.mp hhigh)]
      simp [hhigh]

theorem and_pointerDesc : pointerDesc page &&& ~~~0xFFF = page := by
  have hmask : ∀ k < 64, bit (~~~0xFFF) k = decide (12 ≤ k) := by decide
  refine word_ext fun k hk => ?_
  rw [bit_and, bit_pointerDesc, hmask k hk]
  by_cases hlow : k < 12
  · rw [bit_of_aligned h.1 hlow]
    simp [Nat.not_le.mpr hlow]
  · simp [Nat.not_lt.mp hlow, show ¬ 0 = k by omega, show ¬ 1 = k by omega]

theorem nextTable_pointerDesc {d : Nat} (hd : d ≤ 2) :
    nextTable d (pointerDesc page) = some page := by
  unfold nextTable
  rw [if_pos ⟨hd, by simp [bit_pointerDesc], by simp [bit_pointerDesc]⟩, tableAddr_pointerDesc h]

end Pointer

theorem nextTable_invalid (h : bit desc 0 = false) : nextTable d desc = none := by
  unfold nextTable
  rw [if_neg]
  rintro ⟨-, h0, -⟩
  rw [h] at h0
  cases h0

theorem nextTable_block (h : bit desc 1 = false) : nextTable d desc = none := by
  unfold nextTable
  rw [if_neg]
  rintro ⟨-, -, h1⟩
  rw [h] at h1
  cases h1

/-! ## Identity blocks -/

abbrev Key := Fin 512 × Fin 512 × Fin 512

def key (a : UInt64) : Key := (l0Index a, l1Index a, l2Index a)
def Key.number (k : Key) : Nat := (k.1.val * 512 + k.2.1.val) * 512 + k.2.2.val

theorem number_key (a : UInt64) : (key a).number = a.toNat / 2097152 % 2 ^ 27 := by
  have h0 : (l0Index a).val = a.toNat / 2 ^ 39 % 512 :=
    X86.tableIndex_val (show (39 : UInt64).toNat < 64 by decide) a
  have h1 : (l1Index a).val = a.toNat / 2 ^ 30 % 512 :=
    X86.tableIndex_val (show (30 : UInt64).toNat < 64 by decide) a
  have h2 : (l2Index a).val = a.toNat / 2 ^ 21 % 512 :=
    X86.tableIndex_val (show (21 : UInt64).toNat < 64 by decide) a
  simp only [Key.number, key, h0, h1, h2]
  omega

theorem number_inj {k l : Key} (h : k.number = l.number) : k = l := by
  obtain ⟨⟨i, hi⟩, ⟨j, hj⟩, ⟨m, hm⟩⟩ := k
  obtain ⟨⟨i', hi'⟩, ⟨j', hj'⟩, ⟨m', hm'⟩⟩ := l
  simp only [Key.number] at h
  simp only [Prod.mk.injEq, Fin.mk.injEq]
  omega

theorem key_eq_iff {a b : UInt64} :
    key a = key b ↔ a.toNat / 2097152 % 2 ^ 27 = b.toNat / 2097152 % 2 ^ 27 := by
  rw [← number_key, ← number_key]
  exact ⟨congrArg _, number_inj⟩

structure IsBlock (k : Key) (desc : UInt64) : Prop where
  block : bit desc 1 = false
  af : bit desc 10 = true
  output : field desc 21 27 = k.number

def AttrOk (attr : UInt64) : Prop := bit attr 1 = false ∧ ∀ k < 48, 21 ≤ k → bit attr k = false

instance (attr : UInt64) : Decidable (AttrOk attr) := inferInstanceAs (Decidable (_ ∧ _))

theorem attrOk_attrBits (perms : UInt32) (type : X86.HalMemType) :
    AttrOk (attrBits perms type) := by
  unfold attrBits
  cases type <;> simp only <;> split_ifs <;> decide

theorem bit_blockDesc (phys attr : UInt64) {k : Nat} (hk : k < 64) : bit (blockDesc phys attr) k =
    (bit phys k && decide (21 ≤ k) || decide (k = 0 ∨ k = 8 ∨ k = 9 ∨ k = 10) || bit attr k) := by
  have hmask : ∀ k < 64, bit (~~~0x1FFFFF) k = decide (21 ≤ k) := by decide
  have hflags : ∀ k < 64, (bit pteValid k || bit pteBlock k || bit pteAf k || bit pteShIsh k) =
      decide (k = 0 ∨ k = 8 ∨ k = 9 ∨ k = 10) := by decide
  simp only [blockDesc, bit_or, bit_and, hmask k hk, ← hflags k hk, Bool.or_assoc]

theorem bit_blockDesc_zero (phys attr : UInt64) : bit (blockDesc phys attr) 0 = true := by
  rw [bit_blockDesc phys attr (by decide)]
  simp

theorem isBlock_blockDesc (phys : UInt64) {attr : UInt64} (h : AttrOk attr) :
    IsBlock (key phys) (blockDesc phys attr) := by
  refine ⟨?_, ?_, ?_⟩
  · rw [bit_blockDesc phys attr (by decide), h.1]
    simp
  · rw [bit_blockDesc phys attr (by decide)]
    simp
  · have hfield : field (blockDesc phys attr) 21 27 = field phys 21 27 := by
      refine field_congr fun k h21 h48 => ?_
      rw [bit_blockDesc phys attr (by omega), h.2 k (by omega) h21]
      simp [h21, show ¬ (k = 0 ∨ k = 8 ∨ k = 9 ∨ k = 10) by omega]
    rw [hfield, number_key]
    rfl

/-! ## Well-formed tables -/

abbrev MmuState.Table (s : MmuState) (π : List (Fin 512)) (p : UInt64) : Prop :=
  Reaches nextTable s.mem s.ptPool π p

def Missing (s : MmuState) (π : List (Fin 512)) : Prop :=
  follow nextTable s.mem 0 s.ptPool π = none

instance (s : MmuState) (π : List (Fin 512)) : Decidable (Missing s π) :=
  inferInstanceAs (Decidable (_ = _))

theorem missing_iff : Missing s π ↔ ∀ p, ¬ s.Table π p := eq_none_iff_forall_ne_some

theorem missing_below (h : Missing s [i]) (j : Fin 512) : Missing s [i, j] := by
  unfold Missing at h ⊢
  rw [show [i, j] = [i] ++ [j] from rfl, follow_append, h]
  rfl

structure WellFormed (s : MmuState) : Prop where
  aligned : s.ptPool.toNat % 4096 = 0
  inMemory : s.ptPool.toNat + 262144 ≤ 2 ^ 48
  next : 1 ≤ s.ptPoolNext ∧ s.ptPoolNext ≤ 64
  tree : IsTree nextTable s.mem s.ptPool
  pages : ∀ π p, s.Table π p → π.length ≤ 2 ∧ ∃ n < s.ptPoolNext, p = s.poolPage n
  pointers : ∀ π p i, s.Table π p → π.length ≤ 1 → bit (s.mem p i) 0 = true →
    ∃ q, PageOk q ∧ s.mem p i = pointerDesc q
  blocks : ∀ i j k p, s.Table [i, j] p → bit (s.mem p k) 0 = true → IsBlock (i, j, k) (s.mem p k)

def cell (s : MmuState) (k : Key) : UInt64 :=
  match follow nextTable s.mem 0 s.ptPool [k.1, k.2.1] with
  | some p => s.mem p k.2.2
  | none => 0

theorem cell_missing (h : Missing s [i, j]) : cell s (i, j, k) = 0 := by
  unfold cell
  rw [h]

theorem cell_table (h : s.Table [i, j] p) : cell s (i, j, k) = s.mem p k := by
  unfold cell
  rw [h]

section Tables

variable {s : MmuState} (hwf : WellFormed s)

include hwf

variable {n : Nat} {p : UInt64}

theorem poolPage_toNat (hn : n < 64) : (s.poolPage n).toNat = s.ptPool.toNat + 4096 * n := by
  have hmem := hwf.inMemory
  have hcast : (n.toUInt64).toNat = n :=
    UInt64.toNat_ofNat_of_lt' (Nat.lt_of_lt_of_le hn (by decide))
  rw [MmuState.poolPage, UInt64.toNat_add, UInt64.toNat_mul, hcast,
    show (4096 : UInt64).toNat = 4096 from rfl]
  omega

theorem pageOk_poolPage (hn : n < 64) : PageOk (s.poolPage n) := by
  have h := poolPage_toNat hwf hn
  have halign := hwf.aligned
  have hmem := hwf.inMemory
  unfold PageOk
  omega

theorem WellFormed.fresh (hroom : s.ptPoolNext < 64) (π : List (Fin 512)) :
    ¬ s.Table π (s.poolPage s.ptPoolNext) := by
  intro h
  obtain ⟨-, n, hn, heq⟩ := hwf.pages π _ h
  have := congrArg UInt64.toNat heq
  rw [poolPage_toNat hwf hroom, poolPage_toNat hwf (show n < 64 by omega)] at this
  omega

theorem WellFormed.entry {π : List (Fin 512)} (hp : s.Table π p) (hπ : π.length ≤ 1) (i : Fin 512) :
    (bit (s.mem p i) 0 = false ∧ Missing s (π ++ [i])) ∨
      ∃ q, PageOk q ∧ s.mem p i = pointerDesc q ∧ s.Table (π ++ [i]) q := by
  by_cases h0 : bit (s.mem p i) 0 = true
  · obtain ⟨q, hq, hdesc⟩ := hwf.pointers π p i hp hπ h0
    refine .inr ⟨q, hq, hdesc, reaches_snoc.mpr ⟨p, hp, ?_⟩⟩
    rw [hdesc, nextTable_pointerDesc hq (by omega)]
  · have hinvalid : bit (s.mem p i) 0 = false := by simpa using h0
    refine .inl ⟨hinvalid, missing_iff.mpr fun q hq => ?_⟩
    obtain ⟨p', hp', hnext⟩ := reaches_snoc.mp hq
    obtain rfl := some.inj (hp'.symm.trans hp)
    rw [nextTable_invalid hinvalid] at hnext
    cases hnext

theorem WellFormed.nextTable_word {i j : Fin 512} (hp : s.Table [i, j] p) (k : Fin 512) :
    nextTable 2 (s.mem p k) = none := by
  by_cases h0 : bit (s.mem p k) 0 = true
  · exact nextTable_block (hwf.blocks i j k p hp h0).block
  · exact nextTable_invalid (by simpa using h0)

theorem translate_eq (va : UInt64) : translate s va =
    if va.toNat < 2 ^ 48 then throughBlock [] (cell s (key va)) 21 va else none := by
  unfold translate
  by_cases hva : va.toNat < 2 ^ 48
  · rw [if_pos hva, if_pos hva, path, key]
    rcases hwf.entry (π := []) (p := s.ptPool) rfl (by simp) (l0Index va) with
      ⟨h0, hmiss⟩ | ⟨l1, hl1, hd0, ht1⟩
    · -- no L1 table
      simp only [trace, nextTable_invalid h0, cell_missing (missing_below hmiss _)]
      rfl
    · rcases hwf.entry ht1 (by simp) (l1Index va) with ⟨h0, hmiss⟩ | ⟨l2, hl2, hd1, ht2⟩
      · -- no L2 table
        have hstep := nextTable_pointerDesc hl1 (d := 0) (by decide)
        rw [← hd0] at hstep
        have hcell := cell_missing (k := l2Index va)
          (show Missing s [l0Index va, l1Index va] from hmiss)
        simp only [trace, hstep, nextTable_invalid h0, hcell, readTrace, throughBlock, h0]
        simp
      · have hstep0 := nextTable_pointerDesc hl1 (d := 0) (by decide)
        have hstep1 := nextTable_pointerDesc hl2 (d := 1) (by decide)
        rw [← hd0] at hstep0
        rw [← hd1] at hstep1
        have ht : s.Table [l0Index va, l1Index va] l2 := ht2
        simp only [trace, hstep0, hstep1, hwf.nextTable_word ht, readTrace, cell_table ht]
        -- the pointers set no limits
        have hlimit : ∀ k, 48 ≤ k → ([s.mem s.ptPool (l0Index va), s.mem l1 (l1Index va)].any
            (bit · k)) = false := by
          intro k hk
          rw [hd0, hd1]
          simp [bit_pointerDesc_high hl1 hk, bit_pointerDesc_high hl2 hk]
        simp only [throughBlock, through, hlimit 62 (by decide), hlimit 61 (by decide),
          hlimit 60 (by decide), hlimit 59 (by decide), any_nil]
  · rw [if_neg hva, if_neg hva]

end Tables

/-! ## A word of an L2 table -/

theorem writeBlock_spec (hwf : WellFormed s) (hp : s.Table [i, j] p) (k : Fin 512) {v : UInt64}
    (hv : bit v 0 = true → IsBlock (i, j, k) v) :
    WellFormed (s.write p k v) ∧ (∀ ρ r, (s.write p k v).Table ρ r ↔ s.Table ρ r) ∧
      cell (s.write p k v) = Function.update (cell s) (i, j, k) v := by
  have hold : nextTable 2 (s.mem p k) = none := hwf.nextTable_word hp k
  have hnew : nextTable 2 v = none := by
    by_cases h0 : bit v 0 = true
    · exact nextTable_block (hv h0).block
    · exact nextTable_invalid (by simpa using h0)
  have hreach : ∀ ρ r, (s.write p k v).Table ρ r ↔ s.Table ρ r :=
    reaches_setWord hwf.tree hp hold hnew
  have hword : ∀ ρ r l, s.Table ρ r → ¬ (ρ = [i, j] ∧ l = k) →
      (s.write p k v).mem r l = s.mem r l := by
    intro ρ r l hr hne
    refine setWord_ne s.mem v ?_
    rintro ⟨rfl, rfl⟩
    exact hne ⟨hwf.tree ρ [i, j] r hr hp, rfl⟩
  have hself : (s.write p k v).mem p k = v := setWord_self s.mem p k v
  refine ⟨⟨hwf.aligned, hwf.inMemory, hwf.next, isTree_setWord hwf.tree hp hold hnew, ?_, ?_, ?_⟩,
    hreach, ?_⟩
  · intro ρ r hr
    exact hwf.pages ρ r ((hreach ρ r).mp hr)
  · intro ρ r l hr hρ h0
    have hr' := (hreach ρ r).mp hr
    rw [hword ρ r l hr' fun h => by rw [h.1] at hρ; exact absurd hρ (by simp)] at h0 ⊢
    exact hwf.pointers ρ r l hr' hρ h0
  · intro a b c r hr h0
    have hr' := (hreach _ r).mp hr
    by_cases hcell : [a, b] = [i, j] ∧ c = k
    · obtain ⟨hab, rfl⟩ := hcell
      obtain ⟨rfl, hb⟩ := cons.inj hab
      obtain ⟨rfl, -⟩ := cons.inj hb
      obtain rfl := some.inj (hr'.symm.trans hp)
      rw [hself] at h0 ⊢
      exact hv h0
    · rw [hword _ r c hr' hcell] at h0 ⊢
      exact hwf.blocks a b c r hr' h0
  · funext abc
    obtain ⟨a, b, c⟩ := abc
    by_cases hcell : (a, b, c) = (i, j, k)
    · obtain ⟨rfl, hbc⟩ := Prod.mk.inj hcell
      obtain ⟨rfl, rfl⟩ := Prod.mk.inj hbc
      rw [Function.update_self, cell_table ((hreach _ p).mpr hp), hself]
    · rw [Function.update_of_ne hcell]
      by_cases hmiss : Missing s [a, b]
      · rw [cell_missing hmiss, cell_missing]
        exact missing_iff.mpr fun r hr => missing_iff.mp hmiss r ((hreach _ r).mp hr)
      · obtain ⟨r, hr⟩ := ne_none_iff_exists'.mp hmiss
        have hr' : s.Table [a, b] r := hr
        rw [cell_table hr', cell_table ((hreach _ r).mpr hr'), hword _ r c hr']
        rintro ⟨hab, rfl⟩
        simp only [cons.injEq, and_true] at hab
        exact hcell (by rw [hab.1, hab.2])

/-! ## A table created -/

def MmuState.linked (s : MmuState) (p : UInt64) (i : Fin 512) : MmuState :=
  { s with
    mem := link s.mem (s.poolPage s.ptPoolNext) (fun _ => 0) p i
      (pointerDesc (s.poolPage s.ptPoolNext))
    ptPoolNext := s.ptPoolNext + 1 }

section Link

variable {s : MmuState} (hwf : WellFormed s) {π : List (Fin 512)} {p : UInt64} (hp : s.Table π p)
  (hroom : s.ptPoolNext < 64) {i : Fin 512}

include hwf hp hroom

theorem mem_linked {ρ : List (Fin 512)} {r : UInt64} (hr : s.Table ρ r) {l : Fin 512}
    (hne : ¬ (ρ = π ∧ l = i)) : (s.linked p i).mem r l = s.mem r l := by
  have hpage : r ≠ s.poolPage s.ptPoolNext := by
    rintro rfl
    exact hwf.fresh hroom ρ hr
  change link s.mem _ _ p i _ r l = _
  unfold link
  rw [setWord_ne _ _ ?_, setPage_ne s.mem _ hpage]
  rintro ⟨rfl, rfl⟩
  exact hne ⟨hwf.tree ρ π r hr hp, rfl⟩

theorem mem_linked_new (l : Fin 512) : (s.linked p i).mem (s.poolPage s.ptPoolNext) l = 0 := by
  change link s.mem _ _ p i _ _ l = _
  unfold link
  rw [setWord_ne _ _ fun h => fresh_ne hp (hwf.fresh hroom) h.1, setPage_self]

variable (hπ : π.length ≤ 1) (habs : bit (s.mem p i) 0 = false)

include hπ habs

theorem table_linked (ρ : List (Fin 512)) (r : UInt64) : (s.linked p i).Table ρ r ↔
    s.Table ρ r ∨ (ρ = π ++ [i] ∧ r = s.poolPage s.ptPoolNext) :=
  reaches_link hwf.tree hp (hwf.fresh hroom) (nextTable_invalid habs)
    (nextTable_pointerDesc (pageOk_poolPage hwf hroom) (by omega))
    (fun _ => nextTable_invalid (bit_zero 0)) ρ r

theorem missing_linked (ρ : List (Fin 512)) :
    Missing (s.linked p i) ρ ↔ Missing s ρ ∧ ρ ≠ π ++ [i] := by
  simp only [missing_iff, table_linked hwf hp hroom hπ habs, not_or, not_and]
  constructor
  · intro h
    exact ⟨fun r => (h r).1, fun hρ => (h _).2 hρ rfl⟩
  · rintro ⟨h, hρ⟩ r
    exact ⟨h r, fun hρ' => absurd hρ' hρ⟩

theorem wellFormed_linked : WellFormed (s.linked p i) := by
  have htable := table_linked hwf hp hroom hπ habs
  have hok := pageOk_poolPage hwf hroom
  refine ⟨hwf.aligned, hwf.inMemory, ⟨Nat.le_add_left 1 _, hroom⟩,
    isTree_link hwf.tree hp (hwf.fresh hroom) (nextTable_invalid habs)
      (nextTable_pointerDesc hok (by omega)) (fun _ => nextTable_invalid (bit_zero 0)), ?_, ?_, ?_⟩
  · intro ρ r hr
    rcases (htable ρ r).mp hr with h | ⟨rfl, rfl⟩
    · obtain ⟨hlen, n, hn, heq⟩ := hwf.pages ρ r h
      exact ⟨hlen, n, Nat.lt_succ_of_lt hn, heq⟩
    · exact ⟨by simp; omega, s.ptPoolNext, Nat.lt_succ_self _, rfl⟩
  · intro ρ r l hr hρ h0
    rcases (htable ρ r).mp hr with h | ⟨rfl, rfl⟩
    · by_cases hslot : ρ = π ∧ l = i
      · obtain ⟨rfl, rfl⟩ := hslot
        obtain rfl := some.inj (h.symm.trans hp)
        exact ⟨_, hok, setWord_self _ _ _ _⟩
      · rw [mem_linked hwf hp hroom h hslot] at h0 ⊢
        exact hwf.pointers ρ r l h hρ h0
    · rw [mem_linked_new hwf hp hroom, bit_zero] at h0
      cases h0
  · intro a b c r hr h0
    rcases (htable _ r).mp hr with h | ⟨hab, rfl⟩
    · rw [mem_linked hwf hp hroom h fun hs => by rw [← hs.1] at hπ; simp at hπ] at h0 ⊢
      exact hwf.blocks a b c r h h0
    · rw [mem_linked_new hwf hp hroom, bit_zero] at h0
      cases h0

theorem cell_linked : cell (s.linked p i) = cell s := by
  have htable := table_linked hwf hp hroom hπ habs
  funext abc
  obtain ⟨a, b, c⟩ := abc
  by_cases hmiss : Missing (s.linked p i) [a, b]
  · rw [cell_missing hmiss, cell_missing ((missing_linked hwf hp hroom hπ habs _).mp hmiss).1]
  · obtain ⟨r, hr⟩ := ne_none_iff_exists'.mp hmiss
    have hr' : (s.linked p i).Table [a, b] r := hr
    rw [cell_table hr']
    rcases (htable _ r).mp hr' with h | ⟨hab, rfl⟩
    · rw [cell_table h, mem_linked hwf hp hroom h fun hs => by rw [← hs.1] at hπ; simp at hπ]
    · -- a new L2 table has no blocks
      rw [mem_linked_new hwf hp hroom, cell_missing]
      rw [hab]
      rcases hwf.entry hp hπ i with ⟨-, hmiss'⟩ | ⟨q, -, hdesc, -⟩
      · exact hmiss'
      · rw [hdesc, bit_pointerDesc] at habs
        simp at habs

end Link

/-! ## ensureTable -/

structure Ensured (s t : MmuState) (π : List (Fin 512)) (q : UInt64) : Prop where
  wf : WellFormed t
  table : t.Table π q
  cells : cell t = cell s
  missing : ∀ ρ, Missing t ρ ↔ Missing s ρ ∧ ρ ≠ π
  next : t.ptPoolNext = s.ptPoolNext + if Missing s π then 1 else 0
  kept : ¬ Missing s π → t = s

theorem ensureTable_spec (hwf : WellFormed s) (hp : s.Table π p) (hπ : π.length ≤ 1) (i : Fin 512) :
    (ensureTable s p i = (none, s) ∧ Missing s (π ++ [i]) ∧ 64 ≤ s.ptPoolNext) ∨
      ∃ q t, ensureTable s p i = (some q, t) ∧ Ensured s t (π ++ [i]) q := by
  unfold ensureTable
  rcases hwf.entry hp hπ i with ⟨h0, hmiss⟩ | ⟨q, hq, hdesc, ht⟩
  · rw [if_pos (and_pteValid.mpr h0)]
    by_cases hroom : s.ptPoolNext < 64
    · right
      have halloc : ¬ s.ptPoolNext ≥ ptPoolPages := Nat.not_le.mpr hroom
      have hok := pageOk_poolPage hwf hroom
      simp only [allocPtPage, if_neg halloc]
      refine ⟨s.poolPage s.ptPoolNext, s.linked p i, ?_, ?_⟩
      · refine Prod.ext (congrArg some ?_) rfl
        change (setWord _ p i (pointerDesc (s.poolPage s.ptPoolNext))) p i &&& ~~~0xFFF = _
        rw [setWord_self, and_pointerDesc hok]
      · exact
          { wf := wellFormed_linked hwf hp hroom hπ h0
            table := (table_linked hwf hp hroom hπ h0 _ _).mpr (.inr ⟨rfl, rfl⟩)
            cells := cell_linked hwf hp hroom hπ h0
            missing := missing_linked hwf hp hroom hπ h0
            next := by rw [if_pos hmiss]; rfl
            kept := fun h => absurd hmiss h }
    · have hfull : s.ptPoolNext ≥ ptPoolPages := Nat.not_lt.mp hroom
      have halloc : allocPtPage s = (none, s) := if_pos hfull
      rw [halloc]
      exact .inl ⟨rfl, hmiss, hfull⟩
  · have hvalid : ¬ s.mem p i &&& pteValid = 0 := by
      rw [and_pteValid, hdesc, bit_pointerDesc]
      simp
    have hthere : ¬ Missing s (π ++ [i]) := fun h => missing_iff.mp h q ht
    rw [if_neg hvalid]
    refine .inr ⟨q, s, by rw [hdesc, and_pointerDesc hq], ?_⟩
    exact
      { wf := hwf
        table := ht
        cells := rfl
        missing := fun ρ => ⟨fun h => ⟨h, fun hρ => hthere (hρ ▸ h)⟩, fun h => h.1⟩
        next := by rw [if_neg hthere]; rfl
        kept := fun _ => rfl }

end AlJefra.Arch.Aarch64
