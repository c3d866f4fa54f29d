/- The virtqueues of `src/drivers/network/virtio_net.c`. -/
import AlJefra.Arch.X86Io
import AlJefra.Hal.Memory

namespace AlJefra.Network.VirtioNet

open AlJefra.Hal AlJefra.Arch.X86

/-! ## Queues -/

structure VnetDesc where
  addr : UInt64 := 0
  len : UInt32 := 0
  flags : UInt16 := 0
  next : UInt16 := 0
  deriving DecidableEq, Repr

def vnetDescFNext : UInt16 := 1
def vnetDescFWrite : UInt16 := 2
def vnetRxQueueSize : UInt16 := 64
def vnetTxQueueSize : UInt16 := 64
def vnetRxBufSize : UInt32 := 2048
def virtioNetHdrSize : UInt32 := 10

structure VnetQueue where
  size : UInt16
  desc : UInt16 → VnetDesc
  freeHead : UInt16 := 0
  lastUsedIdx : UInt16 := 0
  availIdx : UInt16 := 0
  availRing : UInt16 → UInt16 := fun _ => 0
  usedIdx : UInt16 := 0
  /-- The `id` and `len` of the used elements. -/
  usedRing : UInt16 → UInt32 × UInt32 := fun _ => (0, 0)

def VnetQueue.setDesc (q : VnetQueue) (i : UInt16) (d : VnetDesc) : VnetQueue :=
  { q with desc := fun j => if j = i then d else q.desc j }

def vnetAllocDesc (q : VnetQueue) : Option UInt16 × VnetQueue :=
  if q.freeHead ≥ q.size then (none, q)
  else (some q.freeHead, { q with freeHead := (q.desc q.freeHead).next })

def vnetFreeDesc (q : VnetQueue) (idx : UInt16) : VnetQueue :=
  { q.setDesc idx { q.desc idx with next := q.freeHead, flags := vnetDescFNext } with
    freeHead := idx }

def VnetQueue.post (q : VnetQueue) (idx : UInt16) : VnetQueue :=
  { q with
    availRing := fun j => if j = q.availIdx % q.size then idx else q.availRing j
    availIdx := q.availIdx + 1 }

def VnetQueue.poll (q : VnetQueue) (completed : Bool) : VnetQueue :=
  if completed then { q with usedIdx := q.usedIdx + 1, lastUsedIdx := q.lastUsedIdx + 1 } else q

def freshDesc (size : UInt16) (i : UInt16) : VnetDesc :=
  if i + 1 < size then { next := i + 1, flags := vnetDescFNext } else {}

def vnetSetupQueue (reported maxSize : UInt16) (dma : DmaState) :
    HalStatus × VnetQueue × DmaState :=
  let empty : VnetQueue := { size := 0, desc := fun _ => {} }
  if reported = 0 then (.error, empty, dma)
  else
    let qsize := if reported > maxSize then maxSize else reported
    match halDmaAlloc dma (qsize.toUInt64 * 16) with
    | (none, dma) => (.noMemory, empty, dma)
    | (some _, dma) =>
      match halDmaAlloc dma (6 + 2 * qsize.toUInt64) with
      | (none, dma) => (.noMemory, empty, dma)
      | (some _, dma) =>
        match halDmaAlloc dma (6 + 8 * qsize.toUInt64) with
        | (none, dma) => (.noMemory, empty, dma)
        | (some _, dma) => (.ok, { size := qsize, desc := freshDesc qsize }, dma)

/-! ## The device -/

structure VirtioNetDev where
  rxq : VnetQueue
  txq : VnetQueue
  rxBufs : UInt16 → Pointer := fun _ _ => 0
  rxBufsPhys : UInt16 → UInt64 := fun _ => 0
  txHdrsPhys : UInt16 → UInt64 := fun _ => 0
  initialized : Bool := false
  sent : List (List UInt8) := []

def allocTxHdrs : Nat → UInt16 → (UInt16 → UInt64) → DmaState →
    Option (UInt16 → UInt64) × DmaState
  | 0, _, phys, dma => (some phys, dma)
  | n + 1, i, phys, dma =>
    match halDmaAlloc dma virtioNetHdrSize.toUInt64 with
    | (none, dma) => (none, dma)
    | (some addr, dma) => allocTxHdrs n (i + 1) (fun j => if j = i then addr else phys j) dma

def vnetPopulateRx : Nat → UInt16 → VirtioNetDev → DmaState → Nat → VirtioNetDev × DmaState × Nat
  | 0, _, dev, dma, count => (dev, dma, count)
  | n + 1, i, dev, dma, count =>
    match halDmaAlloc dma vnetRxBufSize.toUInt64 with
    | (none, dma) => (dev, dma, count)
    | (some addr, dma) =>
      let dev := { dev with
        rxBufs := fun j => if j = i then fun _ => 0 else dev.rxBufs j
        rxBufsPhys := fun j => if j = i then addr else dev.rxBufsPhys j }
      match vnetAllocDesc dev.rxq with
      | (none, q) => ({ dev with rxq := q }, dma, count)
      | (some descIdx, q) =>
        let q := q.setDesc descIdx
          { addr := addr, len := vnetRxBufSize, flags := vnetDescFWrite, next := 0 }
        vnetPopulateRx n (i + 1) { dev with rxq := q.post descIdx } dma (count + 1)

def virtioNetInit (rxReported txReported : UInt16) (dma : DmaState) :
    HalStatus × VirtioNetDev × DmaState :=
  let (st, rxq, dma) := vnetSetupQueue rxReported vnetRxQueueSize dma
  let (st', txq, dma') := vnetSetupQueue txReported vnetTxQueueSize dma
  let dev : VirtioNetDev := { rxq := rxq, txq := txq }
  if st ≠ .ok then (st, dev, dma)
  else if st' ≠ .ok then (st', dev, dma')
  else
    match allocTxHdrs txq.size.toNat 0 (fun _ => 0) dma' with
    | (none, dma) => (.noMemory, dev, dma)
    | (some phys, dma) =>
      let (dev, dma, count) :=
        vnetPopulateRx rxq.size.toNat 0 { dev with txHdrsPhys := phys } dma 0
      if count = 0 then (.noMemory, dev, dma) else (.ok, { dev with initialized := true }, dma)

/-! ## Sending -/

def virtioNetSend (dev : VirtioNetDev) (dma : DmaState) (frame : List UInt8) (completed : Bool) :
    HalStatus × VirtioNetDev × DmaState :=
  let length := UInt16.ofNat frame.length
  if !dev.initialized then (.error, dev, dma)
  else if length.toUInt32 > vnetRxBufSize - virtioNetHdrSize then (.error, dev, dma)
  else
    match vnetAllocDesc dev.txq with
    | (none, q) => (.busy, { dev with txq := (vnetAllocDesc q).2 }, dma)
    | (some dHdr, q) =>
      match vnetAllocDesc q with
      | (none, q) => (.busy, { dev with txq := vnetFreeDesc q dHdr }, dma)
      | (some dData, q) =>
        match halDmaAlloc dma length.toUInt64 with
        | (none, dma) =>
          (.noMemory, { dev with txq := vnetFreeDesc (vnetFreeDesc q dHdr) dData }, dma)
        | (some framePhys, dma) =>
          let hdrSlot := dHdr % vnetTxQueueSize
          let q := q.setDesc dHdr
            { addr := dev.txHdrsPhys hdrSlot, len := virtioNetHdrSize,
              flags := vnetDescFNext, next := dData }
          let q := q.setDesc dData
            { addr := framePhys, len := length.toUInt32, flags := 0, next := 0 }
          let q := (q.post dHdr).poll completed
          let q := vnetFreeDesc (vnetFreeDesc q dData) dHdr
          (.ok, { dev with txq := q, sent := dev.sent ++ [frame] },
            halDmaFree dma framePhys length.toUInt64)

/-! ## Receiving -/

def virtioNetRecv (dev : VirtioNetDev) : HalStatus × List UInt8 × UInt16 × VirtioNetDev :=
  if !dev.initialized then (.error, [], 0, dev)
  else
    let q := dev.rxq
    if q.usedIdx = q.lastUsedIdx then (.noDevice, [], 0, dev)
    else
      let (descIdx, totalLen) := q.usedRing (q.lastUsedIdx % q.size)
      let bufIdx := (descIdx % vnetRxQueueSize.toUInt32).toUInt16
      let payloadLen := totalLen - virtioNetHdrSize
      let payloadLen :=
        if payloadLen > vnetRxBufSize - virtioNetHdrSize then vnetRxBufSize - virtioNetHdrSize
        else payloadLen
      let copied := if totalLen ≤ virtioNetHdrSize then []
        else (dev.rxBufs bufIdx).bytes virtioNetHdrSize.toNat payloadLen.toNat
      let length := if totalLen ≤ virtioNetHdrSize then 0 else payloadLen.toUInt16
      let q := { q with lastUsedIdx := q.lastUsedIdx + 1 }
      let q := q.setDesc descIdx.toUInt16
        { addr := dev.rxBufsPhys bufIdx, len := vnetRxBufSize, flags := vnetDescFWrite, next := 0 }
      let dev := { dev with
        rxq := q.post descIdx.toUInt16
        rxBufs := fun j => if j = bufIdx then fun _ => 0 else dev.rxBufs j }
      (.ok, copied, length, dev)

end AlJefra.Network.VirtioNet
