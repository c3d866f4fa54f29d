/-
Transfers of the xHCI driver (`drivers/input/xhci.c`) and the controller that carries them out.
The controller is the environment: at any time it ends one of the queued transfers or reports a
port or a command, and it waits while the event ring is full.
-/
import AlJefra.Hal.Memory
import AlJefra.Lib.PhaseRing
import AlJefra.Lib.Run

namespace AlJefra.Input.Xhci

open AlJefra.Hal
open AlJefra.Lib

/-! ## TRBs -/

structure Trb where
  param : UInt64
  status : UInt32
  control : UInt32
  deriving DecidableEq, Repr

def xhciTrbNormal : Nat := 1
def xhciTrbSetup : Nat := 2
def xhciTrbData : Nat := 3
def xhciTrbStatus : Nat := 4
def xhciTrbLink : Nat := 6
def xhciTrbEnableSlot : Nat := 9
def xhciTrbAddressDevice : Nat := 11
def xhciTrbConfigEp : Nat := 12
def xhciTrbTransferEvent : Nat := 32
def xhciTrbCmdComplete : Nat := 33
def xhciTrbPortStatus : Nat := 34
def xhciTrbIoc : Nat := 2 ^ 5
def xhciTrbIdt : Nat := 2 ^ 6
def xhciTrbDirIn : Nat := 2 ^ 16
def xhciCcSuccess : Nat := 1
def xhciCcShortPkt : Nat := 13
def trbType (type : Nat) : Nat := type % 64 * 2 ^ 10
def Trb.cycle (trb : Trb) : Bool := trb.control.toNat % 2 == 1
def Trb.type (trb : Trb) : Nat := trb.control.toNat / 2 ^ 10 % 64
def Trb.cc (trb : Trb) : Nat := trb.status.toNat / 2 ^ 24
def Trb.residual (trb : Trb) : UInt16 := UInt16.ofNat (trb.status.toNat % 2 ^ 24)
def Trb.succeeded (trb : Trb) : Bool := trb.cc == xhciCcSuccess || trb.cc == xhciCcShortPkt

def Trb.withCycle (trb : Trb) (cycle : Bool) : Trb :=
  { trb with control := UInt32.ofNat (trb.control.toNat / 2 * 2 + cycle.toNat) }

/-! ## Transfer rings -/

def xhciXferRingSize : Nat := 32
def xhciCmdRingSize : Nat := 32
def xhciEvtRingSize : Nat := 64

structure XferRing where
  phys : UInt64
  trbs : Nat → Trb
  enqueue : Nat
  cycle : Bool

def XferRing.fresh (phys : Nat) : XferRing := ⟨UInt64.ofNat phys, fun _ => ⟨0, 0, 0⟩, 0, true⟩
def XferRing.pointer (r : XferRing) : UInt64 := r.phys + UInt64.ofNat (r.enqueue * 16)

def xhciXferEnqueue (r : XferRing) (trb : Trb) (ringSize : Nat) : XferRing :=
  let trbs := setCell r.trbs r.enqueue (trb.withCycle r.cycle)
  let enqueue := r.enqueue + 1
  if ringSize - 1 ≤ enqueue then
    let link : Trb := ⟨r.phys, 0, UInt32.ofNat (trbType xhciTrbLink + 2 + r.cycle.toNat)⟩
    { r with trbs := setCell trbs enqueue link, enqueue := 0, cycle := !r.cycle }
  else { r with trbs := trbs, enqueue := enqueue }

def xhciCmdRingEnqueue (r : XferRing) (trb : Trb) : XferRing :=
  xhciXferEnqueue r trb xhciCmdRingSize

def enqueueAll : XferRing → List Trb → List UInt64 × XferRing
  | r, [] => ([], r)
  | r, trb :: trbs =>
    let rest := enqueueAll (xhciXferEnqueue r trb xhciXferRingSize) trbs
    (r.pointer :: rest.1, rest.2)

inductive Pipe where
  | interrupt
  | bulkIn
  | bulkOut
  deriving DecidableEq, Repr

structure Endpoint where
  ring : XferRing
  dci : Nat

structure Slot where
  active : Bool
  port : Nat
  speed : Nat
  ep0 : XferRing
  endpoints : Pipe → Option Endpoint

def Slot.setEndpoint (slot : Slot) (pipe : Pipe) (ep : Option Endpoint) : Slot :=
  { slot with endpoints := fun p => if p = pipe then ep else slot.endpoints p }

/-! ## The controller -/

structure Transfer where
  id : Nat
  slotId : Nat
  dci : Nat
  trb : UInt64
  moreTrbs : List UInt64
  addr : Nat
  len : Nat
  deviceWrites : Bool
  deriving DecidableEq, Repr

def Transfer.trbs (t : Transfer) : List UInt64 := t.trb :: t.moreTrbs

structure Event where
  trb : Trb
  transfer : Option (Nat × List UInt8)
  deriving DecidableEq, Repr

structure EventRing where
  cells : Nat → Event
  enqueue : Nat
  phase : Bool
  evtDequeue : Nat
  evtCycle : Bool
  posted : List Event
  taken : Nat

inductive CtlrEvent where
  /-- It ends a transfer at one of its TRBs. -/
  | transfer (pos stage : Nat) (cc : UInt8) (data : List UInt8)
  | portStatus (port cc : UInt8)
  | cmdComplete (trb : UInt64) (cc slotId : UInt8)
  deriving DecidableEq, Repr

def Transfer.event (t : Transfer) (stage : Nat) (cc : UInt8) (data : List UInt8) : Event where
  trb :=
    { param := t.trbs.getD stage t.trb
      status := UInt32.ofNat (cc.toNat * 2 ^ 24 + (t.len - data.length) % 2 ^ 24)
      control := UInt32.ofNat (trbType xhciTrbTransferEvent + t.dci % 32 * 2 ^ 16 +
        t.slotId % 256 * 2 ^ 24) }
  transfer := some (t.id, data)

def portStatusEvent (port cc : UInt8) : Event where
  trb := ⟨UInt64.ofNat (port.toNat * 2 ^ 24), UInt32.ofNat (cc.toNat * 2 ^ 24),
    UInt32.ofNat (trbType xhciTrbPortStatus)⟩
  transfer := none

def cmdCompleteEvent (trb : UInt64) (cc slotId : UInt8) : Event where
  trb := ⟨trb, UInt32.ofNat (cc.toNat * 2 ^ 24),
    UInt32.ofNat (trbType xhciTrbCmdComplete + slotId.toNat * 2 ^ 24)⟩
  transfer := none

def EventRing.full (r : EventRing) : Prop := (r.enqueue + 1) % xhciEvtRingSize = r.evtDequeue

instance (r : EventRing) : Decidable r.full := inferInstanceAs (Decidable (_ = _))

def EventRing.post (r : EventRing) (e : Event) : EventRing :=
  let e := { e with trb := e.trb.withCycle r.phase }
  let enqueue := (r.enqueue + 1) % xhciEvtRingSize
  { r with
    cells := setCell r.cells r.enqueue e
    enqueue := enqueue
    phase := if enqueue = 0 then !r.phase else r.phase
    posted := r.posted ++ [e] }

def EventRing.look (r : EventRing) : Option Event × EventRing :=
  let e := r.cells r.evtDequeue
  if e.trb.cycle = r.evtCycle then
    let evtDequeue := r.evtDequeue + 1
    if xhciEvtRingSize ≤ evtDequeue then
      (some e, { r with evtDequeue := 0, evtCycle := !r.evtCycle, taken := r.taken + 1 })
    else (some e, { r with evtDequeue := evtDequeue, taken := r.taken + 1 })
  else (none, r)

/-! ## The state -/

structure Return where
  interrupt : Bool
  status : HalStatus
  trbs : List UInt64
  event : Option Event
  bytes : Option (List UInt8)
  length : Option UInt16
  deriving DecidableEq, Repr

structure XhciState (δ : Type) where
  maxSlots : Nat
  slots : Nat → Slot
  cmdRing : XferRing
  dma : δ
  mem : Pointer
  evt : EventRing
  pending : List Transfer
  nextId : Nat
  log : List Return

variable {δ : Type}

def XhciState.act (s : XhciState δ) (e : CtlrEvent) : XhciState δ :=
  if s.evt.full then s
  else
    match e with
    | .transfer pos stage cc data =>
      match s.pending[pos]? with
      | none => s
      | some t =>
        let data := data.take t.len
        { s with
          evt := s.evt.post (t.event stage cc data)
          pending := s.pending.eraseIdx pos
          mem := if t.deviceWrites then s.mem.write t.addr data else s.mem }
    | .portStatus port cc => { s with evt := s.evt.post (portStatusEvent port cc) }
    | .cmdComplete trb cc slotId => { s with evt := s.evt.post (cmdCompleteEvent trb cc slotId) }

def xhciPollEvent (s : XhciState δ) : List (List CtlrEvent) → Option Event × XhciState δ
  | [] => (none, s)
  | events :: rounds =>
    let s := run XhciState.act s events
    let seen := s.evt.look
    match seen.1 with
    | some e => (some e, { s with evt := seen.2 })
    | none => xhciPollEvent s rounds

def XhciState.queue (s : XhciState δ) (slotId dci : Nat) (trbs : List UInt64) (addr len : Nat)
    (deviceWrites : Bool) : XhciState δ :=
  { s with
    pending := s.pending ++
      [⟨s.nextId, slotId, dci, trbs.headD 0, trbs.tail, addr, len, deviceWrites⟩]
    nextId := s.nextId + 1 }

def XhciState.setSlot (s : XhciState δ) (slotId : Nat) (slot : Slot) : XhciState δ :=
  { s with slots := setCell s.slots slotId slot }

def XhciState.record (s : XhciState δ) (r : Return) : XhciState δ := { s with log := s.log ++ [r] }

/-! ## Commands -/

def awaitCommand (s : XhciState δ) :
    List (List (List CtlrEvent)) → (HalStatus × Option Trb) × XhciState δ
  | [] => ((.timeout, none), s)
  | rounds :: polls =>
    match xhciPollEvent s rounds with
    | (none, s) => ((.timeout, none), s)
    | (some e, s) =>
      if e.trb.type = xhciTrbCmdComplete then
        if e.trb.cc ≠ xhciCcSuccess then ((.error, some e.trb), s) else ((.ok, some e.trb), s)
      else awaitCommand s polls

def xhciSendCommand (s : XhciState δ) (cmd : Trb) (polls : List (List (List CtlrEvent))) :
    (HalStatus × Option Trb) × XhciState δ :=
  awaitCommand { s with cmdRing := xhciCmdRingEnqueue s.cmdRing cmd } polls

/-! ## Control transfers -/

structure Request where
  bmRequestType : UInt8
  bRequest : UInt8
  wValue : UInt16
  wIndex : UInt16
  wLength : UInt16
  deriving DecidableEq, Repr

def Request.isIn (q : Request) : Bool := 128 ≤ q.bmRequestType.toNat

def Request.setupTrb (q : Request) : Trb where
  param := UInt64.ofNat (q.bmRequestType.toNat + q.bRequest.toNat * 2 ^ 8 +
    q.wValue.toNat * 2 ^ 16 + q.wIndex.toNat * 2 ^ 32 + q.wLength.toNat * 2 ^ 48)
  status := 8
  control := UInt32.ofNat (trbType xhciTrbSetup + xhciTrbIdt +
    if q.wLength = 0 then 0 else if q.isIn then 3 * 2 ^ 16 else 2 * 2 ^ 16)

def Request.dataTrb (q : Request) (dataPhys : Nat) : Trb where
  param := UInt64.ofNat dataPhys
  status := UInt32.ofNat q.wLength.toNat
  control := UInt32.ofNat (trbType xhciTrbData + if q.isIn then xhciTrbDirIn else 0)

def Request.statusTrb (q : Request) : Trb where
  param := 0
  status := 0
  control := UInt32.ofNat (trbType xhciTrbStatus + xhciTrbIoc +
    if q.wLength = 0 || !q.isIn then xhciTrbDirIn else 0)

def Request.hasData (q : Request) (dataPhys : Nat) : Bool := q.wLength != 0 && dataPhys != 0

def Request.trbs (q : Request) (dataPhys : Nat) : List Trb :=
  q.setupTrb :: ((if q.hasData dataPhys then [q.dataTrb dataPhys] else []) ++ [q.statusTrb])

def xhciDoControl (s : XhciState δ) (slotId : Nat) (q : Request) (dataPhys : Nat)
    (rounds : List (List CtlrEvent)) : HalStatus × XhciState δ :=
  let slot := s.slots slotId
  if !slot.active then (.error, s)
  else
    let put := enqueueAll slot.ep0 (q.trbs dataPhys)
    let s := s.setSlot slotId { slot with ep0 := put.2 }
    let s := s.queue slotId 1 put.1 dataPhys (if q.hasData dataPhys then q.wLength.toNat else 0)
      (q.hasData dataPhys && q.isIn)
    match xhciPollEvent s rounds with
    | (none, s) => (.timeout, s.record ⟨false, .timeout, put.1, none, none, none⟩)
    | (some e, s) =>
      let st : HalStatus := if e.trb.succeeded then .ok else .error
      (st, s.record ⟨false, st, put.1, some e, none, none⟩)

def xhciControlTransfer (D : Dma δ) (s : XhciState δ) (slotId : Nat) (q : Request)
    (data : Option Pointer) (rounds : List (List CtlrEvent)) :
    (HalStatus × Option (List UInt8)) × XhciState δ :=
  if q.wLength = 0 then
    let r := xhciDoControl s slotId q 0 rounds
    ((r.1, none), r.2)
  else
    let len := q.wLength.toNat
    match D.alloc s.dma len with
    | (none, dma) => ((.noMemory, none), { s with dma := dma })
    | (some phys, dma) =>
      let zeros := List.replicate len 0
      let filled := if q.isIn then zeros else (data.map fun p => p.bytes 0 len).getD zeros
      let r := xhciDoControl { s with dma := dma, mem := s.mem.write phys filled } slotId q phys
        rounds
      let copied := if r.1 = .ok && q.isIn && data.isSome then some (r.2.mem.bytes phys len)
        else none
      ((r.1, copied), { r.2 with dma := D.free r.2.dma phys len })

/-! ## Interrupt and bulk transfers -/

structure CallEnv where
  rounds : List (List CtlrEvent)
  beforeCopy : List CtlrEvent
  deriving DecidableEq, Repr

def normalTrb (phys len : Nat) : Trb :=
  ⟨UInt64.ofNat phys, UInt32.ofNat len, UInt32.ofNat (trbType xhciTrbNormal + xhciTrbIoc)⟩

def XhciState.putNormal (s : XhciState δ) (slotId : Nat) (pipe : Pipe) (ep : Endpoint)
    (phys len : Nat) : XhciState δ :=
  s.setSlot slotId ((s.slots slotId).setEndpoint pipe
    (some { ep with ring := xhciXferEnqueue ep.ring (normalTrb phys len) xhciXferRingSize }))

def collect (D : Dma δ) (s : XhciState δ) (phys : Nat) (bufLen : UInt16) (trbs : List UInt64)
    (late : HalStatus) (buf length : Bool) (env : CallEnv) : Return × XhciState δ :=
  match xhciPollEvent s env.rounds with
  | (none, s) =>
    (⟨true, late, trbs, none, none, none⟩, { s with dma := D.free s.dma phys bufLen.toNat })
  | (some e, s) =>
    let actual := bufLen - e.trb.residual
    let s := run XhciState.act s env.beforeCopy
    let freed := { s with dma := D.free s.dma phys bufLen.toNat }
    if e.trb.succeeded then
      (⟨true, .ok, trbs, some e,
        if actual ≠ 0 ∧ buf then some (s.mem.bytes phys actual.toNat) else none,
        if length then some actual else none⟩, freed)
    else (⟨true, .error, trbs, some e, none, none⟩, freed)

def receive (D : Dma δ) (s : XhciState δ) (slotId : Nat) (pipe : Pipe) (bufLen : UInt16)
    (late : HalStatus) (buf length : Bool) (env : CallEnv) : Return × XhciState δ :=
  let failed (st : HalStatus) : Return := ⟨true, st, [], none, none, none⟩
  if slotId = 0 ∨ s.maxSlots < slotId then (failed .error, s)
  else if !(s.slots slotId).active then (failed .error, s)
  else
    match (s.slots slotId).endpoints pipe with
    | none => (failed .error, s)
    | some ep =>
      match D.alloc s.dma bufLen.toNat with
      | (none, dma) => (failed .noMemory, { s with dma := dma })
      | (some phys, dma) =>
        let s := { s with dma := dma, mem := s.mem.write phys (List.replicate bufLen.toNat 0) }
        let s := s.putNormal slotId pipe ep phys bufLen.toNat
        let s := s.queue slotId ep.dci [ep.ring.pointer] phys bufLen.toNat true
        collect D s phys bufLen [ep.ring.pointer] late buf length env

def xhciPollInterrupt (D : Dma δ) (s : XhciState δ) (slotId : Nat) (buf length : Bool)
    (env : CallEnv) : Return × XhciState δ :=
  let r := receive D s slotId .interrupt 64 .noDevice buf length env
  (r.1, r.2.record r.1)

def xhciBulkRecv (D : Dma δ) (s : XhciState δ) (slotId : Nat) (bufLen : UInt16)
    (buf length : Bool) (env : CallEnv) : Return × XhciState δ :=
  receive D s slotId .bulkIn bufLen .timeout buf length env

def xhciBulkSend (D : Dma δ) (s : XhciState δ) (slotId : Nat) (data : Pointer)
    (length : UInt16) (rounds : List (List CtlrEvent)) : HalStatus × XhciState δ :=
  if slotId = 0 ∨ s.maxSlots < slotId then (.error, s)
  else if !(s.slots slotId).active then (.error, s)
  else
    match (s.slots slotId).endpoints .bulkOut with
    | none => (.error, s)
    | some ep =>
      match D.alloc s.dma length.toNat with
      | (none, dma) => (.noMemory, { s with dma := dma })
      | (some phys, dma) =>
        let trbs := [ep.ring.pointer]
        let s := { s with dma := dma, mem := s.mem.write phys (data.bytes 0 length.toNat) }
        let s := s.putNormal slotId .bulkOut ep phys length.toNat
        let s := s.queue slotId ep.dci trbs phys length.toNat false
        let polled := xhciPollEvent s rounds
        let s := { polled.2 with dma := D.free polled.2.dma phys length.toNat }
        match polled.1 with
        | none => (.timeout, s)
        | some e => (if e.trb.succeeded then .ok else .error, s)

/-! ## Slots and endpoints -/

def xhciPortReset (D : Dma δ) (s : XhciState δ) (port speed : Nat)
    (polls : List (List (List CtlrEvent))) : Nat × XhciState δ :=
  match xhciSendCommand s ⟨0, 0, UInt32.ofNat (trbType xhciTrbEnableSlot)⟩ polls with
  | ((.ok, some result), s) =>
    let slotId := result.control.toNat / 2 ^ 24
    if slotId = 0 ∨ s.maxSlots < slotId then (0, s)
    else
      let slot := { s.slots slotId with port := port, speed := speed }
      match D.alloc s.dma (xhciXferRingSize * 16) with
      | (none, dma) => (0, { s.setSlot slotId { slot with active := false } with dma := dma })
      | (some phys, dma) =>
        (slotId, { s.setSlot slotId { slot with active := true, ep0 := .fresh phys } with
          dma := dma })
  | (_, s) => (0, s)

def sendContext (D : Dma δ) (s : XhciState δ) (type slotId ictx : Nat)
    (polls : List (List (List CtlrEvent))) : HalStatus × XhciState δ :=
  let sent := xhciSendCommand s
    ⟨UInt64.ofNat ictx, 0, UInt32.ofNat (trbType type + slotId * 2 ^ 24)⟩ polls
  (sent.1.1, { sent.2 with dma := D.free sent.2.dma ictx 4096 })

def xhciAddressDevice (D : Dma δ) (s : XhciState δ) (slotId : Nat)
    (polls : List (List (List CtlrEvent))) : HalStatus × XhciState δ :=
  if slotId = 0 ∨ s.maxSlots < slotId then (.error, s)
  else if !(s.slots slotId).active then (.error, s)
  else
    match D.alloc s.dma 4096 with
    | (none, dma) => (.noMemory, { s with dma := dma })
    | (some ictx, dma) =>
      match D.alloc dma 4096 with
      | (none, dma) => (.noMemory, { s with dma := D.free dma ictx 4096 })
      | (some _, dma) => sendContext D { s with dma := dma } xhciTrbAddressDevice slotId ictx polls

def configureEp (D : Dma δ) (s : XhciState δ) (slotId : Nat)
    (polls : List (List (List CtlrEvent))) : HalStatus × XhciState δ :=
  match D.alloc s.dma 4096 with
  | (none, dma) => (.noMemory, { s with dma := dma })
  | (some ictx, dma) => sendContext D { s with dma := dma } xhciTrbConfigEp slotId ictx polls

def xhciConfigureInterruptEp (D : Dma δ) (s : XhciState δ) (slotId epNum : Nat)
    (polls : List (List (List CtlrEvent))) : HalStatus × XhciState δ :=
  if slotId = 0 ∨ s.maxSlots < slotId then (.error, s)
  else if !(s.slots slotId).active then (.error, s)
  else
    match D.alloc s.dma (xhciXferRingSize * 16) with
    | (none, dma) =>
      (.noMemory, { s.setSlot slotId ((s.slots slotId).setEndpoint .interrupt none) with
        dma := dma })
    | (some phys, dma) =>
      let ep : Endpoint := ⟨.fresh phys, epNum * 2 + 1⟩
      let s := { s.setSlot slotId ((s.slots slotId).setEndpoint .interrupt (some ep)) with
        dma := dma }
      configureEp D s slotId polls

def xhciConfigureBulkEps (D : Dma δ) (s : XhciState δ) (slotId inEpNum outEpNum : Nat)
    (polls : List (List (List CtlrEvent))) : HalStatus × XhciState δ :=
  if slotId = 0 ∨ s.maxSlots < slotId then (.error, s)
  else if !(s.slots slotId).active then (.error, s)
  else
    match D.alloc s.dma (xhciXferRingSize * 16) with
    | (none, dma) =>
      (.noMemory, { s.setSlot slotId ((s.slots slotId).setEndpoint .bulkIn none) with dma := dma })
    | (some inPhys, dma) =>
      let ep : Endpoint := ⟨.fresh inPhys, inEpNum * 2 + 1⟩
      let s := { s.setSlot slotId ((s.slots slotId).setEndpoint .bulkIn (some ep)) with
        dma := dma }
      match D.alloc s.dma (xhciXferRingSize * 16) with
      | (none, dma) =>
        (.noMemory, { s.setSlot slotId ((s.slots slotId).setEndpoint .bulkOut none) with
          dma := dma })
      | (some outPhys, dma) =>
        let ep : Endpoint := ⟨.fresh outPhys, outEpNum * 2⟩
        let s := { s.setSlot slotId ((s.slots slotId).setEndpoint .bulkOut (some ep)) with
          dma := dma }
        configureEp D s slotId polls

/-! ## Runs -/

inductive XhciOp where
  | doControl (slotId : Nat) (q : Request) (dataPhys : Nat) (rounds : List (List CtlrEvent))
  | controlTransfer (slotId : Nat) (q : Request) (data : Option Pointer)
      (rounds : List (List CtlrEvent))
  | pollInterrupt (slotId : Nat) (buf length : Bool) (env : CallEnv)
  | bulkRecv (slotId : Nat) (bufLen : UInt16) (buf length : Bool) (env : CallEnv)
  | bulkSend (slotId : Nat) (data : Pointer) (length : UInt16) (rounds : List (List CtlrEvent))
  | sendCommand (cmd : Trb) (polls : List (List (List CtlrEvent)))
  | portReset (port speed : Nat) (polls : List (List (List CtlrEvent)))
  | addressDevice (slotId : Nat) (polls : List (List (List CtlrEvent)))
  | configureInterruptEp (slotId epNum : Nat) (polls : List (List (List CtlrEvent)))
  | configureBulkEps (slotId inEpNum outEpNum : Nat) (polls : List (List (List CtlrEvent)))
  | controller (events : List CtlrEvent)

def XhciState.step (D : Dma δ) (s : XhciState δ) : XhciOp → XhciState δ
  | .doControl slotId q dataPhys rounds => (xhciDoControl s slotId q dataPhys rounds).2
  | .controlTransfer slotId q data rounds => (xhciControlTransfer D s slotId q data rounds).2
  | .pollInterrupt slotId buf length env => (xhciPollInterrupt D s slotId buf length env).2
  | .bulkRecv slotId bufLen buf length env => (xhciBulkRecv D s slotId bufLen buf length env).2
  | .bulkSend slotId data length rounds => (xhciBulkSend D s slotId data length rounds).2
  | .sendCommand cmd polls => (xhciSendCommand s cmd polls).2
  | .portReset port speed polls => (xhciPortReset D s port speed polls).2
  | .addressDevice slotId polls => (xhciAddressDevice D s slotId polls).2
  | .configureInterruptEp slotId epNum polls =>
    (xhciConfigureInterruptEp D s slotId epNum polls).2
  | .configureBulkEps slotId inEpNum outEpNum polls =>
    (xhciConfigureBulkEps D s slotId inEpNum outEpNum polls).2
  | .controller events => run XhciState.act s events

def EventRing.fresh : EventRing := ⟨fun _ => ⟨⟨0, 0, 0⟩, none⟩, 0, true, 0, true, [], 0⟩

def XhciState.boot (maxSlots : Nat) (slots : Nat → Slot) (cmdRing : XferRing) (dma : δ)
    (mem : Pointer) : XhciState δ :=
  ⟨maxSlots, slots, cmdRing, dma, mem, .fresh, [], 0, []⟩

end AlJefra.Input.Xhci
