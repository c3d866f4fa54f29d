/- The DMA allocator of `arch/x86_64/io.c`: one pointer that moves up. -/
import AlJefra.Lib.Word

namespace AlJefra.Arch.X86

open AlJefra.Lib

def dmaRegionBase : UInt64 := 0x00800000
def dmaRegionEnd : UInt64 := 0x01000000
def dmaAlign : UInt64 := 4096
def alignUp (val align : UInt64) : UInt64 := (val + align - 1) &&& ~~~(align - 1)

structure DmaState where
  dmaBumpPtr : UInt64 := dmaRegionBase
  deriving DecidableEq, Repr

@[irreducible] def halDmaAlloc (s : DmaState) (size : UInt64) : Option UInt64 × DmaState :=
  if size = 0 then (none, s)
  else
    let aligned := alignUp s.dmaBumpPtr dmaAlign
    let allocSize := alignUp size dmaAlign
    if aligned + allocSize > dmaRegionEnd then (none, s)
    else (some aligned, { dmaBumpPtr := aligned + allocSize })

def halDmaFree (s : DmaState) (_virt _size : UInt64) : DmaState := s

/-! ## What an allocation does -/

theorem alignUp_toNat {val : UInt64} (h : val.toNat + 4095 < 2 ^ 64) :
    (alignUp val dmaAlign).toNat = (val.toNat + 4095) / 4096 * 4096 := by
  have hmask : ∀ k < 64, bit (~~~(dmaAlign - 1)) k = decide (12 ≤ k) := by decide
  have halign : dmaAlign.toNat = 4096 := rfl
  have hsum : (val + dmaAlign - 1).toNat = val.toNat + 4095 := by
    rw [UInt64.toNat_sub, UInt64.toNat_add, halign, UInt64.toNat_one]
    omega
  rw [alignUp, toNat_and_high hmask, hsum]
  rfl

structure DmaState.InRegion (s : DmaState) : Prop where
  aligned : s.dmaBumpPtr.toNat % 4096 = 0
  base : dmaRegionBase.toNat ≤ s.dmaBumpPtr.toNat
  fits : s.dmaBumpPtr.toNat ≤ dmaRegionEnd.toNat

theorem DmaState.inRegion_start : InRegion {} := ⟨rfl, Nat.le_refl _, by decide⟩

variable {s : DmaState} {size : UInt64}

theorem halDmaAlloc_cases (h : s.InRegion) (hpos : size ≠ 0) (hsize : size.toNat < 2 ^ 32) :
    (s.dmaBumpPtr.toNat + (size.toNat + 4095) / 4096 * 4096 ≤ dmaRegionEnd.toNat ∧
      ∃ s', halDmaAlloc s size = (some s.dmaBumpPtr, s') ∧ s'.InRegion ∧
        s'.dmaBumpPtr.toNat = s.dmaBumpPtr.toNat + (size.toNat + 4095) / 4096 * 4096) ∨
    (dmaRegionEnd.toNat < s.dmaBumpPtr.toNat + (size.toNat + 4095) / 4096 * 4096 ∧
      halDmaAlloc s size = (none, s)) := by
  have hend : dmaRegionEnd.toNat = 0x1000000 := rfl
  obtain ⟨haligned, hbase, hfits⟩ := h
  have hptr : alignUp s.dmaBumpPtr dmaAlign = s.dmaBumpPtr := by
    refine UInt64.toNat_inj.mp ?_
    rw [alignUp_toNat (by omega)]
    omega
  have hround : (alignUp size dmaAlign).toNat = (size.toNat + 4095) / 4096 * 4096 :=
    alignUp_toNat (by omega)
  have hsum : (s.dmaBumpPtr + alignUp size dmaAlign).toNat =
      s.dmaBumpPtr.toNat + (size.toNat + 4095) / 4096 * 4096 := by
    rw [UInt64.toNat_add, hround]
    omega
  unfold halDmaAlloc
  simp only [hpos, if_false, hptr, gt_iff_lt, UInt64.lt_iff_toNat_lt, hsum]
  by_cases hfull : dmaRegionEnd.toNat < s.dmaBumpPtr.toNat + (size.toNat + 4095) / 4096 * 4096
  · exact .inr ⟨hfull, by rw [if_pos hfull]⟩
  · refine .inl ⟨by omega, _, by rw [if_neg hfull], ⟨?_, ?_, ?_⟩, hsum⟩
    · simp only [hsum]
      omega
    · simp only [hsum]
      omega
    · simp only [hsum]
      omega

theorem halDmaAlloc_inRegion (h : s.InRegion) (hsize : size.toNat < 2 ^ 32) :
    (halDmaAlloc s size).2.InRegion := by
  by_cases hpos : size = 0
  · rw [halDmaAlloc, if_pos hpos]
    exact h
  · obtain ⟨-, s', hret, hregion, -⟩ | ⟨-, hret⟩ := halDmaAlloc_cases h hpos hsize
    · rw [hret]
      exact hregion
    · rw [hret]
      exact h

end AlJefra.Arch.X86
