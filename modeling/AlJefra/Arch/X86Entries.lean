/- The entries of the x86-64 tables bit by bit, the pages of the pool and the path of an address. -/
import AlJefra.Arch.X86Mmu

namespace AlJefra.Arch.X86

open AlJefra.Lib AlJefra.Hal List UInt64

/-! ## Entries -/

variable {entry page : UInt64} {d i : Nat}

theorem frameAddr_or {flags : UInt64} (halign : page.toNat % 2 ^ 12 = 0) (hlt : page.toNat < 2 ^ 52)
    (hflags : flags.toNat < 2 ^ 12) : frameAddr (page ||| flags) = page := by
  have hmask : ∀ k < 64, bit 0x000FFFFFFFFFF000 k = (decide (12 ≤ k) && decide (k < 52)) := by
    decide
  refine word_ext fun k hk => ?_
  simp only [frameAddr, bit_and, bit_or, hmask k hk]
  by_cases hlow : k < 12
  · rw [bit_of_aligned halign hlow]
    simp [Nat.not_le.mpr hlow]
  · by_cases hhigh : k < 52
    · rw [bit_of_lt hflags (by omega)]
      simp [hhigh, Nat.not_lt.mp hlow]
    · rw [bit_of_lt hlt (by omega)]
      simp [hhigh]

theorem tableBase_eq_frameAddr (h : entry.toNat < 2 ^ 52) : tableBase entry = frameAddr entry := by
  have hmask : ∀ k < 64, bit 0x000FFFFFFFFFF000 k = (decide (12 ≤ k) && decide (k < 52)) := by
    decide
  have hbase : ∀ k < 64, bit (~~~0xFFF) k = decide (12 ≤ k) := by decide
  refine word_ext fun k hk => ?_
  simp only [tableBase, frameAddr, bit_and, hmask k hk, hbase k hk]
  by_cases hhigh : k < 52
  · simp [hhigh]
  · rw [bit_of_lt h (by omega)]
    simp

theorem and_pagePresent : entry &&& pagePresent = 0 ↔ bit entry 0 = false :=
  and_flag_eq_zero (by decide)

theorem and_pageHuge : entry &&& pageHuge = 0 ↔ bit entry 7 = false := and_flag_eq_zero (by decide)

theorem nextTable_eq_some (hd : d ≤ 2) (hp : bit entry 0 = true) (hh : d = 0 ∨ bit entry 7 = false)
    : nextTable d entry = some (frameAddr entry) := by
  unfold nextTable
  rw [if_pos]
  refine ⟨hd, hp, ?_⟩
  obtain h0 | h7 := hh
  · exact .inl h0
  · exact .inr (by rw [h7]; decide)

theorem nextTable_absent (hp : bit entry 0 = false) : nextTable d entry = none := by
  unfold nextTable
  rw [if_neg]
  rintro ⟨-, h, -⟩
  rw [hp] at h
  cases h

theorem nextTable_huge (hd : d ≠ 0) (hh : bit entry 7 = true) : nextTable d entry = none := by
  unfold nextTable
  rw [if_neg]
  rintro ⟨-, -, h⟩
  obtain h0 | h7 := h
  · exact hd h0
  · exact h7 hh

theorem nextTable_deep (hd : 2 < d) (entry : UInt64) : nextTable d entry = none := by
  unfold nextTable
  rw [if_neg]
  rintro ⟨h, -⟩
  omega

def tableEntry (page : UInt64) : UInt64 := page ||| pagePresent ||| pageWritable ||| pageUser

theorem tableEntry_eq (page : UInt64) : tableEntry page = page ||| 7 := by
  have h7 : (7 : UInt64) = pagePresent ||| (pageWritable ||| pageUser) := by decide
  rw [h7, tableEntry, UInt64.or_assoc, UInt64.or_assoc]

theorem tableEntry_lt (hlt : page.toNat < 2 ^ 52) : (tableEntry page).toNat < 2 ^ 52 := by
  rw [tableEntry_eq, UInt64.toNat_or]
  exact Nat.or_lt_two_pow hlt (by decide)

theorem bit_tableEntry (halign : page.toNat % 2 ^ 12 = 0) {k : Nat} (hk : k < 12) :
    bit (tableEntry page) k = decide (k < 3) := by
  have hflags : ∀ k < 12, bit 7 k = decide (k < 3) := by decide
  rw [tableEntry_eq, bit_or, bit_of_aligned halign hk, hflags k hk, Bool.false_or]

theorem nextTable_tableEntry (halign : page.toNat % 2 ^ 12 = 0) (hlt : page.toNat < 2 ^ 52)
    (hd : d ≤ 2) : nextTable d (tableEntry page) = some page := by
  have h0 : bit (tableEntry page) 0 = true := by rw [bit_tableEntry halign (by decide)]; rfl
  have h7 : bit (tableEntry page) 7 = false := by rw [bit_tableEntry halign (by decide)]; rfl
  rw [nextTable_eq_some hd h0 (.inr h7), tableEntry_eq, frameAddr_or halign hlt (by decide)]

/-! ## The page pool -/

theorem poolPage_toNat (hi : i < 4096) : (poolPage i).toNat = 16777216 + i * 4096 := by
  have hbase : pagePoolBase.toNat = 16777216 := by decide
  have hsize : pageSize4K.toNat = 4096 := by decide
  have hcast : (i.toUInt64).toNat = i := UInt64.toNat_ofNat_of_lt' (Nat.lt_trans hi (by decide))
  rw [poolPage, UInt64.toNat_add, UInt64.toNat_mul, hbase, hsize, hcast]
  omega

theorem poolPage_align (hi : i < 4096) : (poolPage i).toNat % 2 ^ 12 = 0 := by
  rw [poolPage_toNat hi]
  omega

theorem poolPage_lt (hi : i < 4096) : (poolPage i).toNat < 2 ^ 52 := by
  rw [poolPage_toNat hi]
  omega

theorem poolPage_ne_zero (hi : i < 4096) : poolPage i ≠ 0 := by
  intro h
  have := congrArg toNat h
  rw [poolPage_toNat hi, UInt64.toNat_zero] at this
  omega

theorem poolPage_inj {j : Nat} (hi : i < 4096) (hj : j < 4096) (h : poolPage i = poolPage j) :
    i = j := by
  have := congrArg toNat h
  rw [poolPage_toNat hi, poolPage_toNat hj] at this
  omega

theorem pageAllocOne_cases (s : MmuState) : pageAllocOne s = (0, s) ∨
    ∃ i, i < 4096 ∧ s.pageBitmap i = false ∧ pageAllocOne s = (poolPage i, { s with
        pageBitmap := fun j => if j = i then true else s.pageBitmap j
        mem := setPage s.mem (poolPage i) (fun _ => 0) }) := by
  unfold pageAllocOne
  cases hf : (range pagePoolPages).find? (fun i => !s.pageBitmap i) with
  | none => exact .inl rfl
  | some i =>
    have hmem := mem_range.mp (mem_of_find?_eq_some hf)
    have hfree := find?_some hf
    exact .inr ⟨i, hmem, by simpa using hfree, rfl⟩

/-! ## Page table entries -/

def requested (perms : UInt32) (type : HalMemType) : Attrs where
  writable := perms &&& halPageWrite ≠ 0
  user := perms &&& halPageUser ≠ 0
  noExecute := perms &&& halPageExec = 0
  pwt := type ≠ .normal
  pcd := type = .device
  pat := false

theorem bit_pteFlags (perms : UInt32) (type : HalMemType) (k : Nat) : bit (pteFlags perms type) k =
      (decide (0 = k) || (requested perms type).writable && decide (1 = k) ||
        (requested perms type).user && decide (2 = k) ||
        (requested perms type).noExecute && decide (63 = k) ||
        ((requested perms type).pcd && decide (4 = k) ||
          (requested perms type).pwt && decide (3 = k))) := by
  have h0 : bit pagePresent k = decide (0 = k) := bit_flag (by decide) k
  have h1 : bit pageWritable k = decide (1 = k) := bit_flag (by decide) k
  have h2 : bit pageUser k = decide (2 = k) := bit_flag (by decide) k
  have h3 : bit pagePwt k = decide (3 = k) := bit_flag (by decide) k
  have h4 : bit pagePcd k = decide (4 = k) := bit_flag (by decide) k
  have h63 : bit pageNx k = decide (63 = k) := bit_flag (by decide) k
  cases type with
  | normal => simp only [pteFlags, requested, bit_ite, h0, h1, h2, h63]; simp
  | device => simp only [pteFlags, requested, bit_ite, bit_or, h0, h1, h2, h3, h4, h63]; simp
  | wc => simp only [pteFlags, requested, bit_ite, bit_or, h0, h1, h2, h3, h63]; simp

variable {pa : UInt64}

theorem field_pte (perms : UInt32) (type : HalMemType) :
    field (pa ||| pteFlags perms type) 12 40 = pa.toNat / 4096 % 2 ^ 40 := by
  have h : field (pa ||| pteFlags perms type) 12 40 = field pa 12 40 := by
    refine field_congr fun k hk hk' => ?_
    have h0 : (0 : Nat) ≠ k := by omega
    have h1 : 1 ≠ k := by omega
    have h2 : 2 ≠ k := by omega
    have h3 : 3 ≠ k := by omega
    have h4 : 4 ≠ k := by omega
    have h63 : 63 ≠ k := by omega
    rw [bit_or, bit_pteFlags]
    simp [h0, h1, h2, h3, h4, h63]
  rw [h]
  rfl

theorem bits_pte (halign : pa.toNat % 2 ^ 12 = 0) (perms : UInt32) (type : HalMemType) :
    bit (pa ||| pteFlags perms type) 1 = (requested perms type).writable ∧
    bit (pa ||| pteFlags perms type) 2 = (requested perms type).user ∧
    bit (pa ||| pteFlags perms type) 3 = (requested perms type).pwt ∧
    bit (pa ||| pteFlags perms type) 4 = (requested perms type).pcd ∧
    bit (pa ||| pteFlags perms type) 7 = false ∧
    bit (pa ||| pteFlags perms type) 63 = (bit pa 63 || (requested perms type).noExecute) := by
  have hlow : ∀ k < 12, bit pa k = false := fun k hk => bit_of_aligned halign hk
  simp [bit_pteFlags, hlow]

theorem splitEntry_sum (e : UInt64) (j : Fin 512) :
    ((e &&& ~~~0x1FFFFF) + j.val.toUInt64 * pageSize4K).toNat =
      e.toNat / 2 ^ 21 * 2 ^ 21 + j.val * 4096 := by
  have hmask : ∀ k < 64, bit (~~~0x1FFFFF) k = decide (21 ≤ k) := by decide
  have hbase := toNat_and_high (w := e) hmask
  have hsize : pageSize4K.toNat = 4096 := by decide
  have hj : (j.val.toUInt64).toNat = j.val := toNat_ofNat_of_lt' (Nat.lt_trans j.isLt (by decide))
  have he := e.toNat_lt
  rw [UInt64.toNat_add, UInt64.toNat_mul, hbase, hsize, hj]
  omega

theorem bit_splitEntry (e : UInt64) (j : Fin 512) (k : Nat) : bit (splitEntry e j) k =
    (bit ((e &&& ~~~0x1FFFFF) + j.val.toUInt64 * pageSize4K) k || decide (0 = k) ||
      decide (1 = k)) := by
  have h0 : bit pagePresent k = decide (0 = k) := bit_flag (by decide) k
  have h1 : bit pageWritable k = decide (1 = k) := bit_flag (by decide) k
  rw [splitEntry, bit_or, bit_or, h0, h1]

theorem bits_splitEntry (e : UInt64) (j : Fin 512) :
    bit (splitEntry e j) 1 = true ∧ bit (splitEntry e j) 2 = false ∧
    bit (splitEntry e j) 3 = false ∧ bit (splitEntry e j) 4 = false ∧
    bit (splitEntry e j) 7 = false ∧ bit (splitEntry e j) 8 = false ∧
    bit (splitEntry e j) 63 = bit e 63 := by
  have hsum := splitEntry_sum e j
  have hlow : ∀ k < 12, bit ((e &&& ~~~0x1FFFFF) + j.val.toUInt64 * pageSize4K) k = false :=
    fun k hk => bit_of_aligned (n := 12) (by rw [hsum]; omega) hk
  have hhigh : bit ((e &&& ~~~0x1FFFFF) + j.val.toUInt64 * pageSize4K) 63 = bit e 63 := by
    rw [bit_eq_decide, bit_eq_decide, hsum]
    have hdiv : (e.toNat / 2 ^ 21 * 2 ^ 21 + j.val * 4096) / 2 ^ 63 = e.toNat / 2 ^ 63 := by omega
    rw [hdiv]
  simp [bit_splitEntry, hlow, hhigh]

theorem field_splitEntry (e : UInt64) (j : Fin 512) :
    field (splitEntry e j) 12 40 = field e 21 31 * 512 + j.val := by
  have h : field (splitEntry e j) 12 40 =
      field ((e &&& ~~~0x1FFFFF) + j.val.toUInt64 * pageSize4K) 12 40 := by
    refine field_congr fun k hk hk' => ?_
    have h0 : (0 : Nat) ≠ k := by omega
    have h1 : 1 ≠ k := by omega
    rw [bit_splitEntry]
    simp [h0, h1]
  rw [h, field, field, splitEntry_sum]
  omega

/-! ## Addresses and paths -/

theorem tableIndex_val {shift : UInt64} (h : shift.toNat < 64) (va : UInt64) :
    (tableIndex shift va).val = va.toNat / 2 ^ shift.toNat % 512 := by
  have hmask : (0x1FF : UInt64).toNat = 2 ^ 9 - 1 := by decide
  have hval : ((va >>> shift) &&& 0x1FF).toNat = va.toNat / 2 ^ shift.toNat % 512 := by
    rw [UInt64.toNat_and, UInt64.toNat_shiftRight, hmask, Nat.and_two_pow_sub_one_eq_mod,
      Nat.mod_eq_of_lt h, Nat.shiftRight_eq_div_pow]
  rw [tableIndex, hval]
  exact Nat.mod_eq_of_lt (Nat.mod_lt _ (by decide))

variable {x y : UInt64}

theorem path_eq_iff_page : path x = path y ↔ x.toNat / 4096 % 2 ^ 36 = y.toNat / 4096 % 2 ^ 36 := by
  have h39 : (39 : UInt64).toNat = 39 := rfl
  have h30 : (30 : UInt64).toNat = 30 := rfl
  have h21 : (21 : UInt64).toNat = 21 := rfl
  have h12 : (12 : UInt64).toNat = 12 := rfl
  simp only [path, pml4Index, pdptIndex, pdIndex, ptIndex, List.cons.injEq, and_true, Fin.ext_iff,
    tableIndex_val (show (39 : UInt64).toNat < 64 by decide),
    tableIndex_val (show (30 : UInt64).toNat < 64 by decide),
    tableIndex_val (show (21 : UInt64).toNat < 64 by decide),
    tableIndex_val (show (12 : UInt64).toNat < 64 by decide), h39, h30, h21, h12]
  omega

theorem same_page (hx : Canonical x) (hy : Canonical y) (h : path x = path y) :
    x.toNat / 4096 = y.toNat / 4096 := by
  rw [path_eq_iff_page] at h
  have hlx := x.toNat_lt
  have hly := y.toNat_lt
  unfold Canonical at hx hy
  omega

theorem page_path {va addr : UInt64} (h : va.toNat / 4096 = addr.toNat / 4096) :
    path va = path addr ∧ (Canonical va ↔ Canonical addr) := by
  have hpath : path va = path addr := by rw [path_eq_iff_page, h]
  refine ⟨hpath, ?_⟩
  unfold Canonical
  omega

end AlJefra.Arch.X86
