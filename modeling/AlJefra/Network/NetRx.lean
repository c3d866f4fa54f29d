/-
The `net_rx` entry of the Ethernet drivers (`e1000.c`, `rtl8169.c`, `virtio_net.c`, `usb_net.c`
and the bulk transfer of `xhci.c`).
-/
import AlJefra.Network.VirtioNet

namespace AlJefra.Network

open AlJefra.Hal

structure RxOutcome where
  ret : Int
  written : List UInt8

def ringDrvRx (status : HalStatus) (written : List UInt8) (length : UInt16) : RxOutcome where
  ret := if status ≠ .ok then -1 else length.toNat
  written := written

/-! ## e1000 -/

namespace E1000

def numRxDesc : UInt16 := 32
def rxBufSize : UInt16 := 2048
def rxdStatDd : UInt8 := (1 : UInt8) <<< 0
def rxdStatEop : UInt8 := (1 : UInt8) <<< 1

structure RxDesc where
  length : UInt16
  status : UInt8

structure Dev where
  rxRing : UInt16 → RxDesc
  rxBufs : UInt16 → Pointer
  rxTail : UInt16
  initialized : Bool

def Dev.recycle (nic : Dev) : Dev :=
  { nic with
    rxRing := fun j => if j = nic.rxTail then { nic.rxRing j with status := 0 } else nic.rxRing j
    rxTail := (nic.rxTail + 1) % numRxDesc }

def e1000Recv (nic : Dev) : HalStatus × List UInt8 × UInt16 × Dev :=
  if !nic.initialized then (.error, [], 0, nic)
  else
    let desc := nic.rxRing nic.rxTail
    if desc.status &&& rxdStatDd = 0 then (.noDevice, [], 0, nic)
    else if desc.status &&& rxdStatEop = 0 then (.error, [], 0, nic.recycle)
    else
      let len := if desc.length > rxBufSize then rxBufSize else desc.length
      (.ok, (nic.rxBufs nic.rxTail).bytes 0 len.toNat, len, nic.recycle)

def e1000DrvRx (nic : Dev) (_maxLen : UInt64) : RxOutcome × Dev :=
  let (status, written, length, nic) := e1000Recv nic
  (ringDrvRx status written length, nic)

end E1000

/-! ## VirtIO -/

def virtioNetDrvRx (dev : VirtioNet.VirtioNetDev) (_maxLen : UInt64) :
    RxOutcome × VirtioNet.VirtioNetDev :=
  let (status, written, length, dev) := VirtioNet.virtioNetRecv dev
  (ringDrvRx status written length, dev)

/-! ## RTL8169 -/

namespace Rtl8169

def numRxDesc : UInt16 := 256
def rxBufSize : UInt16 := 2048
def rxdOwn : UInt32 := (1 : UInt32) <<< 31
def rxdEor : UInt32 := (1 : UInt32) <<< 30
def rxdFs : UInt32 := (1 : UInt32) <<< 29
def rxdLs : UInt32 := (1 : UInt32) <<< 28
def rxdRes : UInt32 := (1 : UInt32) <<< 21
def rxdLenMask : UInt32 := 0x00003FFF

structure Dev where
  /-- `opts1` of the descriptors. -/
  rxRing : UInt16 → UInt32
  rxBufs : UInt16 → Pointer
  rxTail : UInt16
  initialized : Bool

def Dev.recycle (nic : Dev) : Dev :=
  let eor := if nic.rxTail = numRxDesc - 1 then rxdEor else 0
  { nic with
    rxRing := fun j =>
      if j = nic.rxTail then rxdOwn ||| eor ||| rxBufSize.toUInt32 else nic.rxRing j
    rxTail := (nic.rxTail + 1) % numRxDesc }

def rtl8169Recv (nic : Dev) : HalStatus × List UInt8 × UInt16 × Dev :=
  if !nic.initialized then (.error, [], 0, nic)
  else
    let opts1 := nic.rxRing nic.rxTail
    if opts1 &&& rxdOwn ≠ 0 then (.noDevice, [], 0, nic)
    else if opts1 &&& rxdRes ≠ 0 then (.error, [], 0, nic.recycle)
    else if ¬ (opts1 &&& rxdFs ≠ 0 ∧ opts1 &&& rxdLs ≠ 0) then (.error, [], 0, nic.recycle)
    else
      let len := (opts1 &&& rxdLenMask).toUInt16
      let len := if len > rxBufSize then rxBufSize else len
      if len < 18 then (.error, [], 0, nic.recycle)
      else
        let len := len - 4
        (.ok, (nic.rxBufs nic.rxTail).bytes 0 len.toNat, len, nic.recycle)

def rtl8169DrvRx (nic : Dev) (_maxLen : UInt64) : RxOutcome × Dev :=
  let (status, written, length, nic) := rtl8169Recv nic
  (ringDrvRx status written length, nic)

end Rtl8169

/-! ## USB -/

namespace UsbNet

def usbNetRxBufSize : UInt16 := 2048
def xhciCcSuccess : UInt8 := 1
def xhciCcShortPkt : UInt8 := 13

structure Slot where
  slotId : UInt8
  maxSlots : UInt8
  active : Bool
  bulkInRing : Bool

structure Dev where
  initialized : Bool
  linkUp : Bool
  slot : Slot

structure Transfer where
  allocated : Bool
  poll : HalStatus
  status : UInt32
  data : Pointer

def xhciBulkRecv (slot : Slot) (bufLen : UInt16) (t : Transfer) :
    HalStatus × List UInt8 × UInt16 :=
  if slot.slotId = 0 ∨ slot.slotId > slot.maxSlots then (.error, [], 0)
  else if !slot.active || !slot.bulkInRing then (.error, [], 0)
  else if !t.allocated then (.noMemory, [], 0)
  else if t.poll ≠ .ok then (t.poll, [], 0)
  else
    let cc := (t.status >>> 24).toUInt8
    let residual := (t.status &&& 0xFFFFFF).toUInt16
    let actual := bufLen - residual
    if cc = xhciCcSuccess ∨ cc = xhciCcShortPkt then (.ok, t.data.bytes 0 actual.toNat, actual)
    else (.error, [], 0)

def usbNetRecv (dev : Dev) (t : Transfer) : HalStatus × List UInt8 × UInt16 :=
  if !dev.initialized || !dev.linkUp then (.error, [], 0)
  else xhciBulkRecv dev.slot usbNetRxBufSize t

def usbNetDrvRx (found : Bool) (dev : Dev) (t : Transfer) (maxLen : UInt64) : RxOutcome :=
  if !found || maxLen < usbNetRxBufSize.toUInt64 then ⟨-1, []⟩
  else
    let (status, written, length) := usbNetRecv dev t
    ⟨if status = .ok then length.toNat else -1, written⟩

end UsbNet

/-! ## The `net_rx` of the driver table -/

inductive Nic where
  | e1000 (nic : E1000.Dev)
  | virtioNet (dev : VirtioNet.VirtioNetDev)
  | rtl8169 (nic : Rtl8169.Dev)
  | usbNet (found : Bool) (dev : UsbNet.Dev) (transfer : UsbNet.Transfer)

def netRx (n : Nic) (maxLen : UInt64) : RxOutcome :=
  match n with
  | .e1000 nic => (E1000.e1000DrvRx nic maxLen).1
  | .virtioNet dev => (virtioNetDrvRx dev maxLen).1
  | .rtl8169 nic => (Rtl8169.rtl8169DrvRx nic maxLen).1
  | .usbNet found dev t => UsbNet.usbNetDrvRx found dev t maxLen

end AlJefra.Network
