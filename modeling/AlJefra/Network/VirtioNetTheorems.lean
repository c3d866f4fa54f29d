/- How long a VirtIO network device can send. -/
import AlJefra.Network.VirtioNet

namespace AlJefra.Network.VirtioNet

open AlJefra.Hal AlJefra.Arch.X86 List

/-! ## Descriptors -/

structure Linked (q : VnetQueue) : Prop where
  head : q.freeHead < q.size
  next : ∀ i < q.size, (q.desc i).next < q.size

variable {q : VnetQueue} {dev : VirtioNetDev} {dma : DmaState}

theorem Linked.pos (h : Linked q) : 0 < q.size := by
  have := h.head
  rw [UInt16.lt_iff_toNat_lt] at this ⊢
  exact Nat.zero_lt_of_lt this

theorem Linked.alloc (h : Linked q) : ∃ i < q.size, ∃ q',
    vnetAllocDesc q = (some i, q') ∧ q'.size = q.size ∧ Linked q' := by
  refine ⟨q.freeHead, h.head, { q with freeHead := (q.desc q.freeHead).next }, ?_, rfl, ?_⟩
  · rw [vnetAllocDesc, if_neg (UInt16.not_le.mpr h.head)]
  · exact ⟨h.next _ h.head, h.next⟩

theorem Linked.setDesc (h : Linked q) (i : UInt16) {d : VnetDesc} (hd : d.next < q.size) :
    Linked (q.setDesc i d) := by
  refine ⟨h.head, fun j hj => ?_⟩
  simp only [VnetQueue.setDesc]
  split
  · exact hd
  · exact h.next j hj

theorem Linked.free (h : Linked q) {i : UInt16} (hi : i < q.size) : Linked (vnetFreeDesc q i) :=
  ⟨hi, (h.setDesc i h.head).next⟩

@[simp] theorem size_setDesc (q : VnetQueue) (i : UInt16) (d : VnetDesc) :
    (q.setDesc i d).size = q.size := rfl

@[simp] theorem size_post (q : VnetQueue) (i : UInt16) : (q.post i).size = q.size := rfl

@[simp] theorem size_poll (q : VnetQueue) (completed : Bool) :
    (q.poll completed).size = q.size := by
  cases completed <;> rfl

@[simp] theorem size_vnetFreeDesc (q : VnetQueue) (i : UInt16) :
    (vnetFreeDesc q i).size = q.size := rfl

theorem Linked.post (h : Linked q) (i : UInt16) : Linked (q.post i) := ⟨h.head, h.next⟩

theorem Linked.poll (h : Linked q) (completed : Bool) : Linked (q.poll completed) := by
  cases completed with
  | false => exact h
  | true => exact ⟨h.head, h.next⟩

theorem linked_freshDesc {size : UInt16} (h : 0 < size) :
    Linked { size := size, desc := freshDesc size } := by
  refine ⟨h, fun i _ => ?_⟩
  simp only [freshDesc]
  split
  · assumption
  · exact h

/-! ## One frame -/

structure Ready (dev : VirtioNetDev) (dma : DmaState) : Prop where
  initialized : dev.initialized = true
  linked : Linked dev.txq
  region : dma.InRegion

theorem virtioNetSend_cases (h : Ready dev dma) {frame : List UInt8} (hlen : frame.length ≤ 1514)
    (completed : Bool) :
    ((frame ≠ [] ∧ dma.dmaBumpPtr.toNat + 4096 ≤ dmaRegionEnd.toNat) ∧
      ∃ dev' dma', virtioNetSend dev dma frame completed = (.ok, dev', dma') ∧ Ready dev' dma' ∧
        dma'.dmaBumpPtr.toNat = dma.dmaBumpPtr.toNat + 4096) ∨
    (¬ (frame ≠ [] ∧ dma.dmaBumpPtr.toNat + 4096 ≤ dmaRegionEnd.toNat) ∧
      ∃ dev', virtioNetSend dev dma frame completed = (.noMemory, dev', dma)) := by
  have hsmall : (UInt16.ofNat frame.length).toNat = frame.length :=
    UInt16.toNat_ofNat_of_lt' (by change _ < 2 ^ 16; omega)
  have hfits : ¬ (UInt16.ofNat frame.length).toUInt32 > vnetRxBufSize - virtioNetHdrSize := by
    have hmax : (vnetRxBufSize - virtioNetHdrSize).toNat = 2038 := by decide
    rw [gt_iff_lt, UInt32.lt_iff_toNat_lt, UInt16.toNat_toUInt32, hsmall, hmax]
    omega
  have hlen64 : (UInt16.ofNat frame.length).toUInt64.toNat = frame.length := by
    rw [UInt16.toNat_toUInt64, hsmall]
  obtain ⟨i, hi, q, halloc, hsize, hq⟩ := h.linked.alloc
  obtain ⟨j, hj, q', halloc', hsize', hq'⟩ := hq.alloc
  unfold virtioNetSend
  simp only [h.initialized, Bool.not_true, Bool.false_eq_true, if_false, hfits, halloc, halloc']
  by_cases hempty : frame = []
  · refine .inr ⟨fun hne => hne.1 hempty, ?_⟩
    simp [hempty, halDmaAlloc]
  · have hpos : 0 < frame.length := length_pos_iff.mpr hempty
    have hne : (UInt16.ofNat frame.length).toUInt64 ≠ 0 := by
      intro h0
      have := congrArg UInt64.toNat h0
      rw [UInt64.toNat_zero] at this
      omega
    have hpage : (frame.length + 4095) / 4096 * 4096 = 4096 := by omega
    have hcases := halDmaAlloc_cases h.region hne (by omega)
    rw [hlen64, hpage] at hcases
    obtain ⟨hroom, dma', hdma, hregion, hptr⟩ | ⟨hfull, hdma⟩ := hcases
    · refine .inl ⟨⟨hempty, hroom⟩, ?_⟩
      simp only [hdma, halDmaFree]
      refine ⟨_, _, rfl, ⟨rfl, ?_, hregion⟩, hptr⟩
      -- the two descriptors are filled in, posted and put back
      have hdata : j < q'.size := hsize'.symm ▸ hj
      have hhdr : i < q'.size := by rw [hsize', hsize]; exact hi
      refine Linked.free (Linked.free (Linked.poll (Linked.post
        (Linked.setDesc (Linked.setDesc hq' i ?_) j ?_) i) completed) ?_) ?_
      · exact hdata
      · exact hq'.pos
      · simpa using hdata
      · simpa using hhdr
    · refine .inr ⟨fun hroom => by omega, ?_⟩
      simp [hdma]

/-! ## Any number of frames -/

def sendAll : VirtioNetDev → DmaState → List (List UInt8 × Bool) → List HalStatus
  | _, _, [] => []
  | dev, dma, (frame, completed) :: sends =>
    let (st, dev, dma) := virtioNetSend dev dma frame completed
    st :: sendAll dev dma sends

theorem noMemory_sendAll_iff (sends : List (List UInt8 × Bool)) :
    ∀ {dev : VirtioNetDev} {dma : DmaState}, Ready dev dma →
    (∀ send ∈ sends, send.1.length ≤ 1514) →
    (.noMemory ∉ sendAll dev dma sends ↔ (∀ send ∈ sends, send.1 ≠ []) ∧
        dma.dmaBumpPtr.toNat + 4096 * sends.length ≤ dmaRegionEnd.toNat) := by
  induction sends with
  | nil =>
    intro dev dma h _
    have := h.region.fits
    simp [sendAll, this]
  | cons send sends ih =>
    intro dev dma h hlen
    obtain ⟨frame, completed⟩ := send
    have hframe : frame.length ≤ 1514 := hlen _ mem_cons_self
    obtain ⟨⟨hne, hroom⟩, dev', dma', hsend, hready, hptr⟩ | ⟨hnot, dev', hsend⟩ :=
      virtioNetSend_cases h hframe completed
    · have hrest := ih hready fun send hs => hlen send (mem_cons_of_mem _ hs)
      have hcons : sendAll dev dma ((frame, completed) :: sends) =
          .ok :: sendAll dev' dma' sends := by simp [sendAll, hsend]
      have hok : HalStatus.noMemory ≠ .ok := by simp
      rw [hcons, mem_cons, not_or, forall_mem_cons, length_cons, hrest, hptr,
        show dma.dmaBumpPtr.toNat + 4096 * (sends.length + 1) =
          dma.dmaBumpPtr.toNat + 4096 + 4096 * sends.length by omega]
      simp [hok, hne]
    · have hcons : sendAll dev dma ((frame, completed) :: sends) =
          .noMemory :: sendAll dev' dma sends := by simp [sendAll, hsend]
      rw [hcons, forall_mem_cons, length_cons]
      simp only [mem_cons, true_or, not_true_eq_false, false_iff]
      rintro ⟨⟨hne, -⟩, hptr⟩
      have hfirst : 4096 ≤ 4096 * (sends.length + 1) := Nat.le_mul_of_pos_right _ (by omega)
      exact hnot ⟨hne, Nat.le_trans (Nat.add_le_add_left hfirst _) hptr⟩

/-! ## From initialisation on -/

theorem vnetSetupQueue_spec (h : dma.InRegion) (reported : UInt16) {maxSize : UInt16}
    (hmax : 0 < maxSize) :
    (vnetSetupQueue reported maxSize dma).2.2.InRegion ∧
      ((vnetSetupQueue reported maxSize dma).1 = .ok →
        Linked (vnetSetupQueue reported maxSize dma).2.1) := by
  unfold vnetSetupQueue
  by_cases hzero : reported = 0
  · simp [hzero, h]
  · simp only [hzero, if_false]
    generalize hqsize : (if reported > maxSize then maxSize else reported) = qsize
    have hpos : 0 < qsize := by
      rw [← hqsize]
      split
      · exact hmax
      · exact UInt16.pos_iff_ne_zero.mpr hzero
    have hq := qsize.toNat_lt
    have h16 : (16 : UInt64).toNat = 16 := rfl
    have h8 : (8 : UInt64).toNat = 8 := rfl
    have h6 : (6 : UInt64).toNat = 6 := rfl
    have h2 : (2 : UInt64).toNat = 2 := rfl
    have hdesc : (qsize.toUInt64 * 16).toNat < 2 ^ 32 := by
      rw [UInt64.toNat_mul, UInt16.toNat_toUInt64, h16]
      omega
    have havail : (6 + 2 * qsize.toUInt64).toNat < 2 ^ 32 := by
      rw [UInt64.toNat_add, UInt64.toNat_mul, UInt16.toNat_toUInt64, h6, h2]
      omega
    have hused : (6 + 8 * qsize.toUInt64).toNat < 2 ^ 32 := by
      rw [UInt64.toNat_add, UInt64.toNat_mul, UInt16.toNat_toUInt64, h6, h8]
      omega
    have hregion := halDmaAlloc_inRegion h hdesc
    cases hd : halDmaAlloc dma (qsize.toUInt64 * 16) with
    | mk table dma₁ =>
      rw [hd] at hregion
      have hregion₁ := halDmaAlloc_inRegion hregion havail
      cases table with
      | none => exact ⟨hregion, by simp⟩
      | some _ =>
        cases ha : halDmaAlloc dma₁ (6 + 2 * qsize.toUInt64) with
        | mk ring dma₂ =>
          rw [ha] at hregion₁
          have hregion₂ := halDmaAlloc_inRegion hregion₁ hused
          cases ring with
          | none => simp [ha, hregion₁]
          | some _ =>
            cases hu : halDmaAlloc dma₂ (6 + 8 * qsize.toUInt64) with
            | mk used dma₃ =>
              rw [hu] at hregion₂
              cases used with
              | none => simp [ha, hu, hregion₂]
              | some _ => simp [ha, hu, hregion₂, linked_freshDesc hpos]

theorem toUInt64_lt (n : UInt32) : n.toUInt64.toNat < 2 ^ 32 := by
  exact n.toNat_lt

theorem allocTxHdrs_inRegion (n : Nat) : ∀ {dma : DmaState} (i : UInt16) (phys : UInt16 → UInt64),
    dma.InRegion → (allocTxHdrs n i phys dma).2.InRegion := by
  induction n with
  | zero => intro dma i phys h; exact h
  | succ n ih =>
    intro dma i phys h
    have hregion := halDmaAlloc_inRegion h (toUInt64_lt virtioNetHdrSize)
    rw [allocTxHdrs]
    generalize halDmaAlloc dma virtioNetHdrSize.toUInt64 = r at hregion ⊢
    obtain ⟨addr, dma'⟩ := r
    cases addr with
    | none => exact hregion
    | some addr => exact ih (i + 1) _ hregion

theorem vnetPopulateRx_spec (n : Nat) : ∀ {dev : VirtioNetDev} {dma : DmaState} (i : UInt16)
    (count : Nat), dma.InRegion →
    (vnetPopulateRx n i dev dma count).1.txq = dev.txq ∧
      (vnetPopulateRx n i dev dma count).2.1.InRegion := by
  induction n with
  | zero => intro dev dma i count h; exact ⟨rfl, h⟩
  | succ n ih =>
    intro dev dma i count h
    have hregion := halDmaAlloc_inRegion h (toUInt64_lt vnetRxBufSize)
    rw [vnetPopulateRx]
    generalize halDmaAlloc dma vnetRxBufSize.toUInt64 = r at hregion ⊢
    obtain ⟨addr, dma'⟩ := r
    cases addr with
    | none => exact ⟨rfl, hregion⟩
    | some addr =>
      dsimp only
      generalize vnetAllocDesc dev.rxq = r
      obtain ⟨idx, q⟩ := r
      cases idx with
      | none => exact ⟨rfl, hregion⟩
      | some idx => exact ih (i + 1) (count + 1) hregion

theorem ready_virtioNetInit {rxReported txReported : UInt16} {dma' : DmaState} (h : dma.InRegion)
    (hinit : virtioNetInit rxReported txReported dma = (.ok, dev, dma')) : Ready dev dma' := by
  have hrx := vnetSetupQueue_spec h rxReported (show 0 < vnetRxQueueSize by decide)
  unfold virtioNetInit at hinit
  cases hr : vnetSetupQueue rxReported vnetRxQueueSize dma with
  | mk st rest =>
    obtain ⟨rxq, dma₁⟩ := rest
    rw [hr] at hrx
    have htx := vnetSetupQueue_spec hrx.1 txReported (show 0 < vnetTxQueueSize by decide)
    cases ht : vnetSetupQueue txReported vnetTxQueueSize dma₁ with
    | mk st' rest =>
      obtain ⟨txq, dma₂⟩ := rest
      rw [ht] at htx
      have hhdrs := allocTxHdrs_inRegion txq.size.toNat 0 (fun _ => 0) htx.1
      simp only [hr, ht] at hinit
      split at hinit
      · rename_i hst
        exact absurd (Prod.mk.inj hinit).1 hst
      · split at hinit
        · rename_i hst
          exact absurd (Prod.mk.inj hinit).1 hst
        · rename_i hst
          have hlinked := htx.2 (not_not.mp hst)
          cases ha : allocTxHdrs txq.size.toNat 0 (fun _ => 0) dma₂ with
          | mk phys dma₃ =>
            rw [ha] at hhdrs
            cases phys with
            | none => simp [ha] at hinit
            | some phys =>
              have hpop := @vnetPopulateRx_spec rxq.size.toNat
                { rxq := rxq, txq := txq, txHdrsPhys := phys } dma₃ 0 0 hhdrs
              simp only [ha] at hinit
              split at hinit
              · simp at hinit
              · obtain ⟨-, hdev⟩ := Prod.mk.inj hinit
                obtain ⟨rfl, rfl⟩ := Prod.mk.inj hdev
                exact ⟨rfl, hpop.1 ▸ hlinked, hpop.2⟩

/-- After initialisation, frames of at most 1514 bytes are sent without `HAL_NO_MEMORY` exactly if
none is empty and the DMA region has a page for each. -/
theorem virtioNetSend_sustained_iff (rxReported txReported : UInt16) (dma dma' : DmaState)
    (dev : VirtioNetDev) (hdma : dma.InRegion)
    (hinit : virtioNetInit rxReported txReported dma = (.ok, dev, dma'))
    (sends : List (List UInt8 × Bool)) (hlen : ∀ send ∈ sends, send.1.length ≤ 1514) :
    .noMemory ∉ sendAll dev dma' sends ↔
      (∀ send ∈ sends, send.1 ≠ []) ∧
        dma'.dmaBumpPtr.toNat + 4096 * sends.length ≤ dmaRegionEnd.toNat :=
  noMemory_sendAll_iff sends (ready_virtioNetInit hdma hinit) hlen

theorem virtioNetInit_default : (virtioNetInit 64 64 {}).1 = .ok ∧
    (virtioNetInit 64 64 {}).2.2.dmaBumpPtr = 0x886000 := by
  decide +kernel

theorem virtioNetInit_default_eq : virtioNetInit 64 64 {} =
    (.ok, (virtioNetInit 64 64 {}).2.1, (virtioNetInit 64 64 {}).2.2) :=
  Prod.ext virtioNetInit_default.1 rfl

theorem virtioNetSend_sustained_thousand :
    .noMemory ∉ sendAll (virtioNetInit 64 64 {}).2.1 (virtioNetInit 64 64 {}).2.2
      (List.replicate 1000 ([0], true)) := by
  refine (virtioNetSend_sustained_iff 64 64 {} _ _ DmaState.inRegion_start
    virtioNetInit_default_eq _ ?_).mpr ⟨?_, ?_⟩
  · intro send hs
    rw [eq_of_mem_replicate hs]
    decide
  · intro send hs
    rw [eq_of_mem_replicate hs]
    decide
  · rw [virtioNetInit_default.2, length_replicate]
    decide

/-- Frame 1915 is refused, though the device has completed all before it. -/
theorem virtioNetSend_noMemory :
    .noMemory ∈ sendAll (virtioNetInit 64 64 {}).2.1 (virtioNetInit 64 64 {}).2.2
      (List.replicate 1915 ([0], true)) := by
  have hready := ready_virtioNetInit DmaState.inRegion_start virtioNetInit_default_eq
  have hframe : ∀ send ∈ List.replicate 1915 (([0], true) : List UInt8 × Bool),
      send.1.length ≤ 1514 := by
    intro send hs
    rw [eq_of_mem_replicate hs]
    decide
  by_contra hnot
  obtain ⟨-, hroom⟩ := (noMemory_sendAll_iff _ hready hframe).mp hnot
  rw [virtioNetInit_default.2, length_replicate] at hroom
  exact absurd hroom (by decide)

end AlJefra.Network.VirtioNet
