/- Which frames the `net_rx` contract covers. -/
import AlJefra.Network.NetRx

namespace AlJefra.Network

open AlJefra.Hal List UInt32

/-! ## The contract -/

structure RxContract (maxLen : UInt64) (f : List UInt8) (o : RxOutcome) : Prop where
  confined : o.written.length ≤ maxLen.toNat
  bounded : o.ret ≤ maxLen.toNat
  complete : f.length ≤ maxLen.toNat → o.ret = f.length ∧ o.written = f

theorem rxContract_frame (maxLen : UInt64) (f : List UInt8) :
    RxContract maxLen f ⟨f.length, f⟩ ↔ f.length ≤ maxLen.toNat := by
  constructor
  · intro h
    exact h.confined
  · intro h
    exact ⟨h, by simpa using h, fun _ => ⟨rfl, rfl⟩⟩

theorem rxContract_none (maxLen : UInt64) (f : List UInt8) :
    RxContract maxLen f ⟨-1, []⟩ ↔ maxLen.toNat < f.length := by
  constructor
  · intro h
    by_contra hle
    have hret := (h.complete (by omega)).1
    simp only at hret
    omega
  · intro h
    refine ⟨by simp, by simp only; omega, fun hle => ?_⟩
    omega

/-! ## A frame is ready -/

namespace E1000

structure Delivers (nic : Dev) (f : List UInt8) : Prop where
  initialized : nic.initialized = true
  dd : (nic.rxRing nic.rxTail).status &&& rxdStatDd ≠ 0
  eop : (nic.rxRing nic.rxTail).status &&& rxdStatEop ≠ 0
  length : (nic.rxRing nic.rxTail).length.toNat = f.length
  fits : f.length ≤ rxBufSize.toNat
  bytes : (nic.rxBufs nic.rxTail).bytes 0 f.length = f

theorem drvRx_of_delivers {nic : Dev} {f : List UInt8} (h : Delivers nic f) (maxLen : UInt64) :
    (e1000DrvRx nic maxLen).1 = ⟨f.length, f⟩ := by
  have hclip : ¬ (nic.rxRing nic.rxTail).length > rxBufSize := by
    have := h.length
    have := h.fits
    rw [gt_iff_lt, UInt16.lt_iff_toNat_lt]
    omega
  simp [e1000DrvRx, e1000Recv, ringDrvRx, h.initialized, h.dd, h.eop, hclip, h.length, h.bytes]

end E1000

namespace VirtioNet

def VirtioNetDev.used (dev : VirtioNetDev) : UInt32 × UInt32 :=
  dev.rxq.usedRing (dev.rxq.lastUsedIdx % dev.rxq.size)

structure Delivers (dev : VirtioNetDev) (f : List UInt8) : Prop where
  initialized : dev.initialized = true
  used : dev.rxq.usedIdx ≠ dev.rxq.lastUsedIdx
  length : dev.used.2.toNat = virtioNetHdrSize.toNat + f.length
  fits : virtioNetHdrSize.toNat + f.length ≤ vnetRxBufSize.toNat
  bytes : (dev.rxBufs (dev.used.1 % vnetRxQueueSize.toUInt32).toUInt16).bytes
    virtioNetHdrSize.toNat f.length = f

variable {dev : VirtioNetDev} {f : List UInt8}

theorem payload_of_delivers (h : Delivers dev f) :
    ¬ dev.used.2 - virtioNetHdrSize > vnetRxBufSize - virtioNetHdrSize ∧
      (dev.used.2 - virtioNetHdrSize).toNat = f.length ∧
      (dev.used.2 ≤ virtioNetHdrSize ↔ f = []) := by
  have hlen := h.length
  have hfits := h.fits
  have hle : virtioNetHdrSize ≤ dev.used.2 := by rw [le_iff_toNat_le]; omega
  have hsub := UInt32.toNat_sub_of_le _ _ hle
  refine ⟨?_, by omega, ?_⟩
  · have hcap : (vnetRxBufSize - virtioNetHdrSize).toNat =
        vnetRxBufSize.toNat - virtioNetHdrSize.toNat := by decide
    rw [gt_iff_lt, lt_iff_toNat_lt]
    omega
  · rw [le_iff_toNat_le, ← length_eq_zero_iff]
    omega

theorem drvRx_of_delivers (h : Delivers dev f) (maxLen : UInt64) :
    (virtioNetDrvRx dev maxLen).1 = ⟨f.length, f⟩ := by
  obtain ⟨hclip, hpayload, hempty⟩ := payload_of_delivers h
  have hbytes := h.bytes
  have hfits := h.fits
  have hused := h.used
  have hlen16 : (dev.used.2 - virtioNetHdrSize).toUInt16.toNat = f.length := by
    have : vnetRxBufSize.toNat = 2048 := by decide
    rw [toNat_toUInt16, hpayload]
    omega
  simp only [VirtioNetDev.used] at hclip hpayload hempty hbytes hlen16
  by_cases hf : f = []
  · simp [virtioNetDrvRx, virtioNetRecv, ringDrvRx, h.initialized, hused, hempty.mpr hf, hf]
  · have hsome := mt hempty.mp hf
    simp only [virtioNetDrvRx, virtioNetRecv, ringDrvRx, h.initialized, hused, hsome, hclip,
      hpayload, hlen16, hbytes, Bool.not_true, Bool.false_eq_true, ne_eq, not_true_eq_false,
      if_false]

end VirtioNet

namespace Rtl8169

structure Delivers (nic : Dev) (f : List UInt8) : Prop where
  initialized : nic.initialized = true
  own : nic.rxRing nic.rxTail &&& rxdOwn = 0
  res : nic.rxRing nic.rxTail &&& rxdRes = 0
  fs : nic.rxRing nic.rxTail &&& rxdFs ≠ 0
  ls : nic.rxRing nic.rxTail &&& rxdLs ≠ 0
  length : (nic.rxRing nic.rxTail &&& rxdLenMask).toNat = f.length + 4
  fits : f.length + 4 ≤ rxBufSize.toNat
  bytes : (nic.rxBufs nic.rxTail).bytes 0 f.length = f

theorem drvRx_of_delivers {nic : Dev} {f : List UInt8} (h : Delivers nic f) (maxLen : UInt64) :
    (rtl8169DrvRx nic maxLen).1 = if f.length < 14 then ⟨-1, []⟩ else ⟨f.length, f⟩ := by
  have hfits := h.fits
  have hbuf : rxBufSize.toNat = 2048 := by decide
  have hlen : (nic.rxRing nic.rxTail &&& rxdLenMask).toUInt16.toNat = f.length + 4 := by
    rw [toNat_toUInt16, h.length]
    omega
  have hclip : ¬ (nic.rxRing nic.rxTail &&& rxdLenMask).toUInt16 > rxBufSize := by
    rw [gt_iff_lt, UInt16.lt_iff_toNat_lt]
    omega
  have hmin : (nic.rxRing nic.rxTail &&& rxdLenMask).toUInt16 < 18 ↔ f.length < 14 := by
    rw [UInt16.lt_iff_toNat_lt, hlen, show (18 : UInt16).toNat = 18 from rfl]
    omega
  by_cases hshort : f.length < 14
  · simp only [rtl8169DrvRx, rtl8169Recv, ringDrvRx, h.initialized, h.own, h.res, h.fs, h.ls,
      hclip, hmin.mpr hshort, hshort, Bool.not_true, Bool.false_eq_true, ne_eq, not_true_eq_false,
      not_false_eq_true, and_self, if_true, if_false, reduceCtorEq]
  · have hcrc : ((nic.rxRing nic.rxTail &&& rxdLenMask).toUInt16 - 4).toNat = f.length := by
      rw [UInt16.toNat_sub_of_le _ _ (by
        rw [UInt16.le_iff_toNat_le, hlen, show (4 : UInt16).toNat = 4 from rfl]; omega), hlen,
        show (4 : UInt16).toNat = 4 from rfl]
      omega
    simp only [rtl8169DrvRx, rtl8169Recv, ringDrvRx, h.initialized, h.own, h.res, h.fs, h.ls,
      hclip, mt hmin.mp hshort, hshort, hcrc, h.bytes, Bool.not_true, Bool.false_eq_true, ne_eq,
      not_true_eq_false, not_false_eq_true, and_self, if_false]

end Rtl8169

namespace UsbNet

structure Delivers (found : Bool) (dev : Dev) (t : Transfer) (f : List UInt8) : Prop where
  found : found = true
  initialized : dev.initialized = true
  linkUp : dev.linkUp = true
  slot : dev.slot.slotId ≠ 0 ∧ dev.slot.slotId ≤ dev.slot.maxSlots
  active : dev.slot.active = true
  bulkInRing : dev.slot.bulkInRing = true
  allocated : t.allocated = true
  poll : t.poll = .ok
  cc : (t.status >>> 24).toUInt8 = xhciCcSuccess ∨ (t.status >>> 24).toUInt8 = xhciCcShortPkt
  residual : (t.status &&& 0xFFFFFF).toNat + f.length = usbNetRxBufSize.toNat
  bytes : t.data.bytes 0 f.length = f

theorem drvRx_of_delivers {found : Bool} {dev : Dev} {t : Transfer} {f : List UInt8}
    (h : Delivers found dev t f) (maxLen : UInt64) :
    usbNetDrvRx found dev t maxLen =
      if maxLen.toNat < usbNetRxBufSize.toNat then ⟨-1, []⟩ else ⟨f.length, f⟩ := by
  have hres := h.residual
  have hbuf : usbNetRxBufSize.toNat = 2048 := by decide
  have hword : (t.status &&& 0xFFFFFF).toUInt16.toNat = (t.status &&& 0xFFFFFF).toNat := by
    rw [toNat_toUInt16]
    omega
  have hactual : (usbNetRxBufSize - (t.status &&& 0xFFFFFF).toUInt16).toNat = f.length := by
    rw [UInt16.toNat_sub_of_le _ _ (by rw [UInt16.le_iff_toNat_le]; omega)]
    omega
  have hslot : ¬ (dev.slot.slotId = 0 ∨ dev.slot.slotId > dev.slot.maxSlots) := by
    have hmax := UInt8.le_iff_toNat_le.mp h.slot.2
    rw [gt_iff_lt, UInt8.lt_iff_toNat_lt]
    rintro (h0 | hlt)
    · exact h.slot.1 h0
    · omega
  have hmin : maxLen < usbNetRxBufSize.toUInt64 ↔ maxLen.toNat < usbNetRxBufSize.toNat := by
    rw [UInt64.lt_iff_toNat_lt, UInt16.toNat_toUInt64]
  by_cases hsmall : maxLen.toNat < usbNetRxBufSize.toNat
  · simp [usbNetDrvRx, hmin, hsmall]
  · simp only [usbNetDrvRx, usbNetRecv, xhciBulkRecv, hmin, hsmall, h.found, h.initialized,
      h.linkUp, h.active, h.bulkInRing, h.allocated, h.poll, hslot, h.cc, hactual, h.bytes,
      Bool.not_true, Bool.or_self, Bool.false_eq_true, decide_false, ne_eq, not_true_eq_false,
      if_true, if_false]

end UsbNet

/-! ## Every driver -/

def Nic.Delivers (f : List UInt8) : Nic → Prop
  | .e1000 nic => E1000.Delivers nic f
  | .virtioNet dev => VirtioNet.Delivers dev f
  | .rtl8169 nic => Rtl8169.Delivers nic f
  | .usbNet found dev t => UsbNet.Delivers found dev t f

def Nic.Serves (len maxLen : Nat) : Nic → Prop
  | .e1000 _ => len ≤ maxLen
  | .virtioNet _ => len ≤ maxLen
  | .rtl8169 _ => (14 ≤ len ∧ len ≤ maxLen) ∨ (len < 14 ∧ maxLen < len)
  | .usbNet .. => 2048 ≤ maxLen ∨ maxLen < len

theorem netRx_contract_iff (n : Nic) (f : List UInt8) (maxLen : UInt64) (h : n.Delivers f) :
    RxContract maxLen f (netRx n maxLen) ↔ n.Serves f.length maxLen.toNat := by
  cases n with
  | e1000 nic =>
    rw [netRx, E1000.drvRx_of_delivers h, rxContract_frame, Nic.Serves]
  | virtioNet dev =>
    rw [netRx, VirtioNet.drvRx_of_delivers h, rxContract_frame, Nic.Serves]
  | rtl8169 nic =>
    rw [netRx, Rtl8169.drvRx_of_delivers h, Nic.Serves]
    split
    · rw [rxContract_none]
      omega
    · rw [rxContract_frame]
      omega
  | usbNet found dev t =>
    have hbuf : UsbNet.usbNetRxBufSize.toNat = 2048 := by decide
    have hres := UsbNet.Delivers.residual h
    rw [netRx, UsbNet.drvRx_of_delivers h, Nic.Serves, hbuf]
    split
    · rw [rxContract_none]
      omega
    · rw [rxContract_frame]
      omega

/-! ## Devices with a given frame -/

def E1000.ready (f : List UInt8) : E1000.Dev where
  rxRing := fun _ => ⟨UInt16.ofNat f.length, rxdStatDd ||| rxdStatEop⟩
  rxBufs := fun _ => pointerTo f
  rxTail := 0
  initialized := true

theorem E1000.ready_delivers (f : List UInt8) (h : f.length ≤ 2048) :
    E1000.Delivers (E1000.ready f) f where
  initialized := rfl
  dd := by simp only [ready]; decide
  eop := by simp only [ready]; decide
  length := by
    simp only [ready, UInt16.toNat_ofNat']
    omega
  fits := h
  bytes := bytes_pointerTo f

def VirtioNet.ready (f : List UInt8) : VirtioNet.VirtioNetDev where
  rxq := { size := 64, desc := fun _ => ⟨0, 0, 0, 0⟩, usedIdx := 1
           usedRing := fun _ => (0, UInt32.ofNat (10 + f.length)) }
  txq := { size := 64, desc := fun _ => ⟨0, 0, 0, 0⟩ }
  rxBufs := fun _ => pointerTo (List.replicate 10 0 ++ f)
  initialized := true

theorem VirtioNet.ready_delivers (f : List UInt8) (h : f.length ≤ 2038) :
    VirtioNet.Delivers (VirtioNet.ready f) f where
  initialized := rfl
  used := by simp only [ready]; decide
  length := by
    simp only [ready, VirtioNetDev.used, toNat_ofNat']
    rw [show virtioNetHdrSize.toNat = 10 from rfl]
    omega
  fits := by
    rw [show virtioNetHdrSize.toNat = 10 from rfl, show vnetRxBufSize.toNat = 2048 from rfl]
    omega
  bytes := by
    refine ext_getElem (by simp [Pointer.length_bytes]) fun i h1 h2 => ?_
    simp only [Pointer.bytes, ready, pointerTo, getElem_map, getElem_range,
      show virtioNetHdrSize.toNat = 10 from rfl]
    rw [getD_eq_getElem?_getD, getElem?_append_right (by simp)]
    simp [h2]

def Rtl8169.ready (f : List UInt8) : Rtl8169.Dev where
  rxRing := fun _ => rxdFs ||| rxdLs ||| UInt32.ofNat (f.length + 4)
  rxBufs := fun _ => pointerTo f
  rxTail := 0
  initialized := true

theorem Rtl8169.ready_delivers (f : List UInt8) (h : f.length = 60 ∨ f.length = 1518) :
    Rtl8169.Delivers (Rtl8169.ready f) f := by
  have hbytes := bytes_pointerTo f
  rcases h with h | h <;>
    exact ⟨rfl, by simp only [ready, h]; decide, by simp only [ready, h]; decide,
      by simp only [ready, h]; decide, by simp only [ready, h]; decide,
      by simp only [ready, h]; decide, by simp only [h]; decide, hbytes⟩

def UsbNet.readyDev : UsbNet.Dev := ⟨true, true, ⟨1, 8, true, true⟩⟩

def UsbNet.ready (f : List UInt8) : UsbNet.Transfer where
  allocated := true
  poll := .ok
  status := (13 : UInt32) <<< 24 ||| UInt32.ofNat (2048 - f.length)
  data := pointerTo f

theorem UsbNet.ready_delivers (f : List UInt8) (h : f.length = 60) :
    UsbNet.Delivers true UsbNet.readyDev (UsbNet.ready f) f where
  found := rfl
  initialized := rfl
  linkUp := rfl
  slot := by decide
  active := rfl
  bulkInRing := rfl
  allocated := rfl
  poll := rfl
  cc := by simp only [ready, h]; decide
  residual := by simp only [ready, h]; decide
  bytes := bytes_pointerTo f

def shortFrame : List UInt8 := List.replicate 60 0xFF
def longFrame : List UInt8 := List.replicate 1518 0xFF

theorem length_shortFrame : shortFrame.length = 60 := length_replicate
theorem length_longFrame : longFrame.length = 1518 := length_replicate

/-- A short frame reaches 1514 bytes, or 2048 through the USB driver. -/
theorem netRx_contract_short :
    RxContract 1514 shortFrame (netRx (.e1000 (E1000.ready shortFrame)) 1514) ∧
    RxContract 1514 shortFrame (netRx (.virtioNet (VirtioNet.ready shortFrame)) 1514) ∧
    RxContract 1514 shortFrame (netRx (.rtl8169 (Rtl8169.ready shortFrame)) 1514) ∧
    RxContract 2048 shortFrame
      (netRx (.usbNet true UsbNet.readyDev (UsbNet.ready shortFrame)) 2048) := by
  have hlen := length_shortFrame
  have he := E1000.ready_delivers shortFrame (by omega)
  have hv := VirtioNet.ready_delivers shortFrame (by omega)
  have hr := Rtl8169.ready_delivers shortFrame (.inl hlen)
  have hu := UsbNet.ready_delivers shortFrame hlen
  refine ⟨(netRx_contract_iff (.e1000 _) _ _ he).mpr ?_,
    (netRx_contract_iff (.virtioNet _) _ _ hv).mpr ?_,
    (netRx_contract_iff (.rtl8169 _) _ _ hr).mpr ?_,
    (netRx_contract_iff (.usbNet ..) _ _ hu).mpr ?_⟩ <;>
    simp only [Nic.Serves, hlen] <;> decide

/-- A ring driver stores 1518 bytes in 1514; the USB driver never fills a 1514-byte buffer. -/
theorem netRx_contract_broken :
    (E1000.Delivers (E1000.ready longFrame) longFrame ∧
      (netRx (.e1000 (E1000.ready longFrame)) 1514).written.length = 1518 ∧
      ¬ RxContract 1514 longFrame (netRx (.e1000 (E1000.ready longFrame)) 1514)) ∧
    (VirtioNet.Delivers (VirtioNet.ready longFrame) longFrame ∧
      (netRx (.virtioNet (VirtioNet.ready longFrame)) 1514).written.length = 1518 ∧
      ¬ RxContract 1514 longFrame (netRx (.virtioNet (VirtioNet.ready longFrame)) 1514)) ∧
    (Rtl8169.Delivers (Rtl8169.ready longFrame) longFrame ∧
      (netRx (.rtl8169 (Rtl8169.ready longFrame)) 1514).written.length = 1518 ∧
      ¬ RxContract 1514 longFrame (netRx (.rtl8169 (Rtl8169.ready longFrame)) 1514)) ∧
    UsbNet.Delivers true UsbNet.readyDev (UsbNet.ready shortFrame) shortFrame ∧
    ∀ maxLen ∈ [(1500 : UInt64), 1514],
      (netRx (.usbNet true UsbNet.readyDev (UsbNet.ready shortFrame)) maxLen).ret = -1 ∧
      ¬ RxContract maxLen shortFrame
        (netRx (.usbNet true UsbNet.readyDev (UsbNet.ready shortFrame)) maxLen) := by
  have hlen := length_longFrame
  have he := E1000.ready_delivers longFrame (by omega)
  have hv := VirtioNet.ready_delivers longFrame (by omega)
  have hr := Rtl8169.ready_delivers longFrame (.inr hlen)
  have hu := UsbNet.ready_delivers shortFrame length_shortFrame
  have hover : ¬ RxContract 1514 longFrame ⟨longFrame.length, longFrame⟩ := by
    rw [rxContract_frame, hlen]
    decide
  refine ⟨⟨he, ?_⟩, ⟨hv, ?_⟩, ⟨hr, ?_⟩, hu, fun maxLen hmem => ?_⟩
  · rw [netRx, E1000.drvRx_of_delivers he]
    exact ⟨hlen, hover⟩
  · rw [netRx, VirtioNet.drvRx_of_delivers hv]
    exact ⟨hlen, hover⟩
  · rw [netRx, Rtl8169.drvRx_of_delivers hr, if_neg (by omega)]
    exact ⟨hlen, hover⟩
  · have hlt : shortFrame.length ≤ maxLen.toNat ∧ maxLen.toNat < UsbNet.usbNetRxBufSize.toNat := by
      rcases mem_cons.mp hmem with rfl | hmem
      · decide
      · obtain rfl := mem_singleton.mp hmem
        decide
    rw [netRx, UsbNet.drvRx_of_delivers hu, if_pos hlt.2, rxContract_none]
    exact ⟨rfl, by omega⟩

end AlJefra.Network
