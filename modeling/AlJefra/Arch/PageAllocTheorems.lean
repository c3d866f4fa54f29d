/- What the outstanding results of the page allocators have in common. -/
import AlJefra.Arch.PageAlloc
import AlJefra.Arch.X86WalkTheorems

namespace AlJefra.Arch

open AlJefra.Lib List UInt64

variable {σ : Type}

/-! ## The contract -/

def byteRange (e : UInt64 × UInt32) : Range := ⟨e.1.toNat, 4096 * e.2.toNat⟩

structure Isolated (hal : PageHal σ) (r : PageRun σ) : Prop where
  aligned : ∀ e ∈ r.outstanding, e.1.toNat % 4096 = 0
  disjoint : r.outstanding.Pairwise fun a b => (byteRange a).Apart (byteRange b)
  unreserved : ∀ e ∈ r.outstanding, (byteRange e).Apart hal.reserved

def Contained (hal : PageHal σ) (max : UInt32) (r : PageRun σ) : Prop :=
  ∀ e ∈ r.outstanding, ∃ m ∈ hal.halMmuGetMemoryMap r.state max, m.type = 1 ∧
    m.base.toNat ≤ (byteRange e).start ∧ (byteRange e).stop ≤ m.base.toNat + m.size.toNat

/-! ## Allocators over a bitmap -/

structure Backed (hal : PageHal σ) (bitmap : σ → Nat → Bool) (Ok : σ → Prop)
    (origin lo hi : Nat) (resv : Range) : Prop where
  origin_aligned : origin % 4096 = 0
  reserved_eq : hal.reserved = ⟨origin + 4096 * resv.start, 4096 * resv.count⟩
  init : ∀ s, Ok (hal.halMmuInit s) ∧
    bitmap (hal.halMmuInit s) = mark true (fun _ => false) resv
  alloc : ∀ s count, Ok s → Ok (hal.halMmuAllocPages s count).2 ∧
    (((hal.halMmuAllocPages s count).1 = 0 ∧
        bitmap (hal.halMmuAllocPages s count).2 = bitmap s) ∨
      ∃ first, lo ≤ first ∧ first + count.toNat ≤ hi ∧
        (∀ p, Range.Mem ⟨first, count.toNat⟩ p → bitmap s p = false) ∧
        (hal.halMmuAllocPages s count).1.toNat = origin + 4096 * first ∧
        bitmap (hal.halMmuAllocPages s count).2 = mark true (bitmap s) ⟨first, count.toNat⟩)
  free : ∀ s phys count first, Ok s → phys.toNat = origin + 4096 * first → lo ≤ first →
    first + count.toNat ≤ hi → Ok (hal.halMmuFreePages s phys count) ∧
      bitmap (hal.halMmuFreePages s phys count) = mark false (bitmap s) ⟨first, count.toNat⟩

def pageRange (origin : Nat) (e : UInt64 × UInt32) : Range :=
  ⟨(e.1.toNat - origin) / 4096, e.2.toNat⟩

theorem pageRange_eq {origin first : Nat} {e : UInt64 × UInt32}
    (h : e.1.toNat = origin + 4096 * first) : pageRange origin e = ⟨first, e.2.toNat⟩ := by
  rw [pageRange, h, Nat.add_sub_cancel_left, Nat.mul_div_cancel_left _ (by decide)]

structure Sound (bitmap : σ → Nat → Bool) (Ok : σ → Prop) (origin lo hi : Nat) (resv : Range)
    (r : PageRun σ) : Prop where
  ok : Ok r.state
  address : ∀ e ∈ r.outstanding, e.1.toNat = origin + 4096 * (pageRange origin e).start
  owned : Owned lo hi (mark true (fun _ => false) resv) (bitmap r.state)
    (r.outstanding.map (pageRange origin))

section

variable {hal : PageHal σ} {bitmap : σ → Nat → Bool} {Ok : σ → Prop} {origin lo hi : Nat}
  {resv : Range}

theorem sound_start (hb : Backed hal bitmap Ok origin lo hi resv) (s : σ) :
    Sound bitmap Ok origin lo hi resv (hal.start s) where
  ok := (hb.init s).1
  address := by simp [PageHal.start]
  owned := by
    simp only [PageHal.start, map_nil]
    rw [(hb.init s).2]
    exact owned_nil

theorem sound_step (hb : Backed hal bitmap Ok origin lo hi resv) (r : PageRun σ) (op : PageOp)
    (h : Sound bitmap Ok origin lo hi resv r) (hop : PageHal.Proper r op) :
    Sound bitmap Ok origin lo hi resv (hal.step r op) := by
  cases op with
  | alloc count =>
    obtain ⟨hok, hcases⟩ := hb.alloc r.state count h.ok
    simp only [PageHal.step]
    rcases hcases with ⟨hzero, hmap⟩ | ⟨first, hlo, hhi, hfree, haddr, hmap⟩
    · rw [if_pos hzero]
      exact ⟨hok, h.address, hmap ▸ h.owned⟩
    · by_cases hzero : (hal.halMmuAllocPages r.state count).1 = 0
      · rw [if_pos hzero]
        exact ⟨hok, h.address, hmap ▸ h.owned.mark _⟩
      · rw [if_neg hzero]
        have hrange := pageRange_eq (e := ((hal.halMmuAllocPages r.state count).1, count)) haddr
        refine ⟨hok, ?_, ?_⟩
        · intro e he
          rcases mem_cons.mp he with rfl | he
          · rw [hrange, haddr]
          · exact h.address e he
        · rw [map_cons, hrange, hmap]
          exact h.owned.alloc ⟨hlo, hhi⟩ hfree
  | free phys count =>
    have hmem : (phys, count) ∈ r.outstanding := hop
    have haddr := h.address _ hmem
    obtain ⟨hlo, hhi⟩ := h.owned.inRange _ (mem_map_of_mem hmem)
    obtain ⟨hok, hmap⟩ := hb.free r.state phys count _ h.ok haddr hlo hhi
    refine ⟨hok, fun e he => h.address e (mem_of_mem_erase he), ?_⟩
    simp only [PageHal.step]
    rw [hmap]
    exact h.owned.free ((perm_cons_erase hmem).map (pageRange origin))

variable {r : PageRun σ}

theorem byteRange_eq (h : Sound bitmap Ok origin lo hi resv r) {e : UInt64 × UInt32}
    (he : e ∈ r.outstanding) :
    byteRange e = ⟨origin + 4096 * (pageRange origin e).start,
      4096 * (pageRange origin e).count⟩ := by
  rw [byteRange, h.address e he]
  rfl

theorem isolated_of_sound (hb : Backed hal bitmap Ok origin lo hi resv)
    (h : Sound bitmap Ok origin lo hi resv r) : Isolated hal r where
  aligned := by
    intro e he
    have := h.address e he
    have := hb.origin_aligned
    omega
  disjoint := by
    refine List.Pairwise.imp_of_mem ?_ (pairwise_map.mp h.owned.apart)
    intro a b ha hb' hab
    rw [byteRange_eq h ha, byteRange_eq h hb']
    exact hab.scale origin (by decide)
  unreserved := by
    intro e he
    have hclear := h.owned.clear _ (mem_map_of_mem he)
    have hapart : (pageRange origin e).Apart resv := by
      rintro p ⟨hp, hres⟩
      have := hclear p hp
      rw [mark_of_mem hres] at this
      contradiction
    rw [byteRange_eq h he, hb.reserved_eq]
    exact hapart.scale origin (by decide)

theorem sound_run (hb : Backed hal bitmap Ok origin lo hi resv) (s : σ) (ops : List PageOp)
    (hops : Steps hal.step PageHal.Proper (hal.start s) ops) :
    Sound bitmap Ok origin lo hi resv (run hal.step (hal.start s) ops) :=
  run_invariant_of_steps (sound_step hb) ops _ (sound_start hb s) hops

end

/-! ## x86-64 -/

namespace X86

theorem pageBitmap_pageFreeOne (s : MmuState) {i : Nat} (hi : i < 4096) {phys : UInt64}
    (hphys : phys.toNat = 16777216 + 4096 * i) :
    (pageFreeOne s phys).pageBitmap = fun p => if p = i then false else s.pageBitmap p := by
  obtain rfl : phys = poolPage i := UInt64.toNat_inj.mp (by rw [hphys, poolPage_toNat hi]; omega)
  have hin : ¬ (poolPage i < pagePoolBase ∨ poolPage i ≥ pagePoolBase + 0x1000000) := by
    rw [lt_iff_toNat_lt, ge_iff_le, le_iff_toNat_le, hphys,
      show pagePoolBase.toNat = 16777216 from rfl,
      show (pagePoolBase + 0x1000000).toNat = 33554432 from rfl]
    omega
  have hidx : ((poolPage i - pagePoolBase) / pageSize4K).toUInt32.toNat = i := by
    rw [toNat_toUInt32, UInt64.toNat_div, UInt64.toNat_sub_of_le _ _ (by
      rw [le_iff_toNat_le, hphys, show pagePoolBase.toNat = 16777216 from rfl]; omega),
      hphys, show pagePoolBase.toNat = 16777216 from rfl, show pageSize4K.toNat = 4096 from rfl]
    omega
  funext p
  simp only [pageFreeOne, if_neg hin, hidx, mark]
  split <;> split <;> first | rfl | omega

theorem pageBitmap_halMmuFreePages (s : MmuState) (phys : UInt64) {first : Nat}
    (hphys : phys.toNat = 16777216 + 4096 * first) : ∀ n, first + n ≤ 4096 →
    ((List.range n).foldl (fun s i => pageFreeOne s (phys + i.toUInt64 * pageSize4K)) s).pageBitmap
      = mark false s.pageBitmap ⟨first, n⟩ := by
  intro n
  induction n with
  | zero =>
    intro _
    funext p
    simp only [range_zero, foldl_nil, mark]
    rw [if_neg (by omega)]
  | succ n ih =>
    intro hn
    have haddr : (phys + n.toUInt64 * pageSize4K).toNat = 16777216 + 4096 * (first + n) := by
      have hcast : (n.toUInt64).toNat = n :=
        toNat_ofNat_of_lt' (Nat.lt_of_lt_of_le (by omega : n < 4097) (by decide))
      rw [UInt64.toNat_add, UInt64.toNat_mul, hphys, hcast, show pageSize4K.toNat = 4096 from rfl]
      omega
    rw [range_succ, foldl_append, foldl_cons, foldl_nil,
      pageBitmap_pageFreeOne _ (by omega) haddr, ih (by omega), mark_succ]

theorem backed (regions : List MemRegion) :
    Backed (pageHal regions) MmuState.pageBitmap (fun _ => True) 16777216 0 4096 ⟨0, 0⟩ where
  origin_aligned := by decide
  reserved_eq := rfl
  init s := by
    refine ⟨trivial, ?_⟩
    funext p
    simp only [pageHal, mark]
    rw [if_neg (by omega)]
  alloc s count _ := by
    refine ⟨trivial, ?_⟩
    simp only [pageHal, halMmuAllocPages]
    by_cases h0 : count = 0
    · simp [h0]
    rw [if_neg h0]
    by_cases h1 : count = 1
    · rw [if_pos h1, h1]
      rcases pageAllocOne_cases s with heq | ⟨i, hi, hfree, heq⟩
      · exact .inl (by simp [heq])
      · refine .inr ⟨i, Nat.zero_le i, hi, ?_, ?_, ?_⟩
        · rintro p ⟨hp1, hp2⟩
          obtain rfl : p = i := by
            simp only [Range.stop, show (1 : UInt32).toNat = 1 from rfl] at hp1 hp2
            omega
          exact hfree
        · rw [heq, poolPage_toNat hi]
          omega
        · rw [heq]
          funext p
          simp only [mark, show (1 : UInt32).toNat = 1 from rfl]
          split <;> split <;> first | rfl | omega
    · rw [if_neg h1]
      cases hrun : findRun s.pageBitmap count.toNat pagePoolPages 0 0 0 with
      | none => exact .inl ⟨rfl, rfl⟩
      | some first =>
        obtain ⟨hpos, -, hend, hfree⟩ := findRun_sound _ _ _ _ (Nat.le_refl 0) (by simp) hrun
        have hpages : pagePoolPages = 4096 := rfl
        refine .inr ⟨first, Nat.zero_le first, by omega, fun p hp => hfree p hp.1 hp.2, ?_, rfl⟩
        simp only
        rw [poolPage_toNat (by omega)]
        omega
  free s phys count first _ haddr _ hhi :=
    ⟨trivial, pageBitmap_halMmuFreePages s phys haddr count.toNat hhi⟩

end X86

/-! ## aarch64 and riscv64 -/

namespace FrameState

def Sized (s : FrameState) : Prop := (s.totalRamBytes / 4096).toNat = 65536

theorem address_toNat {first : Nat} (h : first < 1048576) :
    (first.toUInt64 * 4096).toNat = 4096 * first := by
  have hcast : (first.toUInt64).toNat = first :=
    toNat_ofNat_of_lt' (Nat.lt_of_lt_of_le h (by decide))
  rw [UInt64.toNat_mul, hcast, show (4096 : UInt64).toNat = 4096 from rfl]
  omega

theorem backed (hal : PageHal FrameState) {basePfn reservedPages : Nat}
    (hbase : basePfn + 65536 < 1048576)
    (hinit : hal.halMmuInit = halMmuInit basePfn reservedPages)
    (halloc : hal.halMmuAllocPages = halMmuAllocPages basePfn)
    (hfree : hal.halMmuFreePages = halMmuFreePages)
    (hres : hal.reserved = ⟨4096 * basePfn, 4096 * reservedPages⟩) :
    Backed hal FrameState.pageBitmap Sized 0 basePfn (basePfn + 65536)
      ⟨basePfn, reservedPages⟩ where
  origin_aligned := rfl
  reserved_eq := by rw [hres, zero_add]
  init s := by
    rw [hinit]
    exact ⟨by simp only [Sized, halMmuInit]; decide, rfl⟩
  alloc s count hs := by
    rw [halloc]
    simp only [halMmuAllocPages]
    cases hrun : findRun s.pageBitmap count.toNat (s.totalRamBytes / 4096).toNat basePfn 0 0 with
    | none => exact ⟨hs, .inl ⟨rfl, rfl⟩⟩
    | some first =>
      obtain ⟨hpos, hlo, hend, hrunFree⟩ := findRun_sound _ _ _ _ (Nat.le_refl _) (by simp) hrun
      rw [hs] at hend
      refine ⟨hs, .inr ⟨first, hlo, hend, fun p hp => hrunFree p hp.1 hp.2, ?_, rfl⟩⟩
      simp only
      rw [address_toNat (by omega), zero_add]
  free s phys count first hs haddr _ _ := by
    have hpfn : (phys / 4096).toNat = first := by
      rw [UInt64.toNat_div, haddr, show (4096 : UInt64).toNat = 4096 from rfl]
      omega
    rw [hfree]
    exact ⟨hs, by simp only [halMmuFreePages, hpfn]⟩

end FrameState

theorem Aarch64.backed : Backed Aarch64.pageHal FrameState.pageBitmap FrameState.Sized 0 0
    (0 + 65536) ⟨0, 8192⟩ :=
  FrameState.backed Aarch64.pageHal (by decide) rfl rfl rfl rfl

theorem Riscv64.backed : Backed Riscv64.pageHal FrameState.pageBitmap FrameState.Sized 0
    Riscv64.ramBasePfn (Riscv64.ramBasePfn + 65536) ⟨Riscv64.ramBasePfn, 32768⟩ :=
  FrameState.backed Riscv64.pageHal (by decide) rfl rfl rfl rfl

/-! ## The reported regions -/

theorem contained_of_sound {hal : PageHal σ} {bitmap : σ → Nat → Bool} {Ok : σ → Prop}
    {origin lo hi : Nat} {resv : Range} {r : PageRun σ} {max : UInt32}
    (h : Sound bitmap Ok origin lo hi resv r) {m : MemRegion}
    (hmem : m ∈ hal.halMmuGetMemoryMap r.state max) (htype : m.type = 1)
    (hbase : m.base.toNat ≤ origin + 4096 * lo)
    (hsize : origin + 4096 * hi ≤ m.base.toNat + m.size.toNat) : Contained hal max r := by
  intro e he
  obtain ⟨hlo, hhi⟩ := h.owned.inRange _ (mem_map_of_mem he)
  refine ⟨m, hmem, htype, ?_⟩
  rw [byteRange_eq h he]
  simp only [Range.stop]
  omega

namespace Aarch64

variable {r : PageRun FrameState}

theorem contained_iff {max : UInt32}
    (h : Sound FrameState.pageBitmap FrameState.Sized 0 0 (0 + 65536) ⟨0, 8192⟩ r) :
    Contained pageHal max r ↔ r.outstanding = [] := by
  constructor
  · intro hc
    rw [eq_nil_iff_forall_not_mem]
    intro e he
    obtain ⟨m, hm, htype, hbase, -⟩ := hc e he
    obtain ⟨-, hhi⟩ := h.owned.inRange _ (mem_map_of_mem he)
    rw [byteRange_eq h he] at hbase
    have hm' : m ∈ memoryMap := mem_of_mem_take hm
    have hram : m.base.toNat = 0x40000000 := by
      simp only [memoryMap, mem_cons, not_mem_nil, or_false] at hm'
      rcases hm' with rfl | rfl | rfl
      · rfl
      · exact absurd htype (by decide)
      · exact absurd htype (by decide)
    simp only at hbase
    omega
  · intro hnil e he
    rw [hnil] at he
    exact absurd he not_mem_nil

structure Idle (r : PageRun FrameState) : Prop where
  sized : r.state.Sized
  bitmap : r.state.pageBitmap = mark true (fun _ => false) ⟨0, 8192⟩
  outstanding : r.outstanding = []

theorem findRun_isSome_iff (count : Nat) :
    (findRun (mark true (fun _ => false) ⟨0, 8192⟩) count 65536 0 0 0).isSome ↔
      0 < count ∧ count ≤ 57344 := by
  constructor
  · intro h
    obtain ⟨first, hfirst⟩ := Option.isSome_iff_exists.mp h
    obtain ⟨hpos, -, hend, hfree⟩ :=
      findRun_sound 65536 0 0 0 (Nat.le_refl 0) (fun h0 => absurd rfl h0) hfirst
    have hstart : 8192 ≤ first := by
      by_contra hlt
      have := hfree first (Nat.le_refl first) (by omega)
      rw [mark_of_mem ⟨Nat.zero_le first, by simp only [Range.stop]; omega⟩] at this
      exact Bool.noConfusion this
    omega
  · rintro ⟨hpos, hle⟩
    refine findRun_complete (s := 8192) hpos ?_ 65536 0 0 0 hpos (by omega) (by omega)
    intro q h1 h2
    exact mark_of_not_mem fun hq => by
      have := hq.2
      simp only [Range.stop] at this
      omega

theorem idle_alloc (h : Idle r) (count : UInt32) : if 0 < count.toNat ∧ count.toNat ≤ 57344 then
      (pageHal.step r (.alloc count)).outstanding ≠ []
    else Idle (pageHal.step r (.alloc count)) := by
  have hsome := findRun_isSome_iff count.toNat
  have hsized : (r.state.totalRamBytes / 4096).toNat = 65536 := h.sized
  simp only [PageHal.step, pageHal, FrameState.halMmuAllocPages, h.bitmap, hsized]
  cases hrun : findRun (mark true (fun _ => false) ⟨0, 8192⟩) count.toNat 65536 0 0 0 with
  | none =>
    rw [hrun] at hsome
    rw [if_neg (by simpa using hsome)]
    exact ⟨h.sized, h.bitmap, by simpa using h.outstanding⟩
  | some first =>
    obtain ⟨-, -, hend, hfree⟩ :=
      findRun_sound 65536 0 0 0 (Nat.le_refl 0) (fun h0 => absurd rfl h0) hrun
    rw [hrun] at hsome
    have hfit : 0 < count.toNat ∧ count.toNat ≤ 57344 := hsome.mp rfl
    rw [if_pos hfit]
    -- address 0 stands for a failure, and frame 0 is reserved
    have hne : first.toUInt64 * 4096 ≠ 0 := by
      intro hzero
      have hnat := congrArg UInt64.toNat hzero
      rw [FrameState.address_toNat (by omega), show (0 : UInt64).toNat = 0 from rfl] at hnat
      have hused := hfree 0 (by omega) (by omega)
      exact Bool.noConfusion hused
    simp only [if_neg hne]
    exact cons_ne_nil _ _

theorem never_outstanding_iff : ∀ (ops : List PageOp) (r : PageRun FrameState), Idle r →
    Steps pageHal.step PageHal.Proper r ops →
    ((∀ k, (run pageHal.step r (ops.take k)).outstanding = []) ↔
      ∀ count, PageOp.alloc count ∈ ops → count = 0 ∨ 57344 < count.toNat) := by
  intro ops
  induction ops with
  | nil =>
    intro r hr _
    simp [hr.outstanding]
  | cons op ops ih =>
    intro r hr hops
    cases op with
    | free phys count =>
      have hmem : (phys, count) ∈ r.outstanding := hops.1
      rw [hr.outstanding] at hmem
      exact absurd hmem not_mem_nil
    | alloc count =>
      have hstep := idle_alloc hr count
      have hzero : count = 0 ↔ count.toNat = 0 := by
        rw [← UInt32.toNat_inj, show (0 : UInt32).toNat = 0 from rfl]
      by_cases hfit : 0 < count.toNat ∧ count.toNat ≤ 57344
      · rw [if_pos hfit] at hstep
        constructor
        · intro hall
          exact absurd (hall 1) hstep
        · intro hcond
          rcases hcond count mem_cons_self with h | h
          · have := hzero.mp h
            omega
          · omega
      · rw [if_neg hfit] at hstep
        have hrest := ih _ hstep hops.2
        constructor
        · intro hall c hc
          rcases mem_cons.mp hc with heq | hc
          · obtain rfl := PageOp.alloc.inj heq
            rw [hzero]
            omega
          · exact hrest.mp (fun k => hall (k + 1)) c hc
        · intro hcond k
          cases k with
          | zero => exact hr.outstanding
          | succ k => exact hrest.mpr (fun c hc => hcond c (mem_cons_of_mem _ hc)) k

end Aarch64

/-! ## Every sequence of calls -/

/-- Outstanding extents are isolated. They are usable on x86-64, if the boot map reports the pool,
on riscv64, and on aarch64 exactly if no call asks for between 1 and 57344 pages. -/
theorem halMmuAllocPages_contract (regions : List MemRegion) (max : UInt32) (s : X86.MmuState)
    (f : FrameState) (ops : List PageOp) :
    (Steps (X86.pageHal regions).step PageHal.Proper ((X86.pageHal regions).start s) ops →
      (∃ m ∈ regions.take max.toNat, m.type = 1 ∧ m.base.toNat ≤ 0x1000000 ∧
        0x2000000 ≤ m.base.toNat + m.size.toNat) →
      let r := run (X86.pageHal regions).step ((X86.pageHal regions).start s) ops
      Isolated (X86.pageHal regions) r ∧ Contained (X86.pageHal regions) max r) ∧
    (Steps Riscv64.pageHal.step PageHal.Proper (Riscv64.pageHal.start f) ops → 0 < max.toNat →
      let r := run Riscv64.pageHal.step (Riscv64.pageHal.start f) ops
      Isolated Riscv64.pageHal r ∧ Contained Riscv64.pageHal max r) ∧
    (Steps Aarch64.pageHal.step PageHal.Proper (Aarch64.pageHal.start f) ops →
      Isolated Aarch64.pageHal (run Aarch64.pageHal.step (Aarch64.pageHal.start f) ops) ∧
      ((∀ k, Contained Aarch64.pageHal max
          (run Aarch64.pageHal.step (Aarch64.pageHal.start f) (ops.take k))) ↔
        ∀ count, PageOp.alloc count ∈ ops → count = 0 ∨ 57344 < count.toNat)) := by
  refine ⟨?_, ?_, ?_⟩
  · rintro hops ⟨m, hm, htype, hbase, hsize⟩
    have hsound := sound_run (X86.backed regions) s ops hops
    exact ⟨isolated_of_sound (X86.backed regions) hsound,
      contained_of_sound hsound hm htype hbase hsize⟩
  · intro hops hmax
    have hsound := sound_run Riscv64.backed f ops hops
    have hram : (⟨0x80000000, 0x10000000, 1⟩ : MemRegion) ∈ Riscv64.memoryMap.take max.toNat := by
      obtain ⟨n, hn⟩ : ∃ n, max.toNat = n + 1 := ⟨max.toNat - 1, by omega⟩
      rw [hn, Riscv64.memoryMap, take_succ_cons]
      exact mem_cons_self
    exact ⟨isolated_of_sound Riscv64.backed hsound,
      contained_of_sound hsound hram rfl (by decide) (by decide)⟩
  · intro hops
    have hsound := sound_run Aarch64.backed f ops hops
    refine ⟨isolated_of_sound Aarch64.backed hsound, ?_⟩
    have hinit := Aarch64.backed.init f
    rw [← Aarch64.never_outstanding_iff ops (Aarch64.pageHal.start f) ⟨hinit.1, hinit.2, rfl⟩ hops]
    refine forall_congr' fun k => ?_
    exact Aarch64.contained_iff (sound_run Aarch64.backed f _ (steps_take ops _ k hops))

/-- On aarch64 the first page handed out is at 32 MiB; the usable region
begins at 1 GiB. -/
theorem halMmuAllocPages_not_usable :
    (run Aarch64.pageHal.step (Aarch64.pageHal.start ⟨fun _ => false, 0, 0⟩)
      [.alloc 1]).outstanding = [(0x2000000, 1)] ∧
    ¬ Contained Aarch64.pageHal 3
      (run Aarch64.pageHal.step (Aarch64.pageHal.start ⟨fun _ => false, 0, 0⟩) [.alloc 1]) := by
  have hout : (run Aarch64.pageHal.step (Aarch64.pageHal.start ⟨fun _ => false, 0, 0⟩)
      [.alloc 1]).outstanding = [(0x2000000, 1)] := by decide +kernel
  have hsound := sound_run Aarch64.backed ⟨fun _ => false, 0, 0⟩ [.alloc 1] ⟨trivial, trivial⟩
  refine ⟨hout, ?_⟩
  rw [Aarch64.contained_iff hsound, hout]
  exact cons_ne_nil _ _

end AlJefra.Arch
