/-
The virtqueue of `drivers/storage/virtio_blk.c`, and what `vblk_do_io` does with a request. The
device is the environment: it completes requests at any time, in a call or between calls.
-/
import AlJefra.Arch.Aarch64Io
import AlJefra.Lib.Ring
import AlJefra.Lib.Run
import AlJefra.Storage.VirtioBlk

namespace AlJefra.Storage.VirtioBlk

open AlJefra.Hal
open AlJefra.Lib

/-! ## Descriptors -/

structure VirtqDesc where
  addr : Nat
  len : Nat
  flags : Nat
  next : Nat
  deriving DecidableEq, Repr

def vringDescFNext : Nat := 1
def vringDescFWrite : Nat := 2
def VirtqDesc.hasNext (d : VirtqDesc) : Bool := decide (d.flags % 2 = 1)

structure Virtqueue where
  size : Nat
  desc : Nat → VirtqDesc
  freeHead : Nat
  lastUsedIdx : UInt16
  availIdx : UInt16
  availRing : Nat → Nat

def virtioBlkQueueSize : Nat := 128

def freshDesc (size i : Nat) : VirtqDesc :=
  if i + 1 < size then ⟨0, 0, vringDescFNext, i + 1⟩ else ⟨0, 0, 0, 0⟩

def vblkSetupVq (qsize : UInt16) : Option Virtqueue :=
  if qsize = 0 then none
  else
    let size := if qsize.toNat > virtioBlkQueueSize then virtioBlkQueueSize else qsize.toNat
    some ⟨size, freshDesc size, 0, 0, 0, fun _ => 0⟩

def vblkAllocDesc (vq : Virtqueue) : Option Nat × Virtqueue :=
  if vq.freeHead ≥ vq.size then (none, vq)
  else (some vq.freeHead, { vq with freeHead := (vq.desc vq.freeHead).next })

def Virtqueue.setDesc (vq : Virtqueue) (i : Nat) (d : VirtqDesc) : Virtqueue :=
  { vq with desc := setCell vq.desc i d }

def Virtqueue.pushFree (vq : Virtqueue) (i : Nat) : Virtqueue :=
  { vq.setDesc i { vq.desc i with next := vq.freeHead, flags := vringDescFNext } with
    freeHead := i }

def vblkFreeDescChain : Nat → Virtqueue → Nat → Virtqueue
  | 0, vq, idx => vq.pushFree idx
  | n + 1, vq, idx =>
    if (vq.desc idx).hasNext then vblkFreeDescChain n (vq.pushFree idx) (vq.desc idx).next
    else vq.pushFree idx

/-! ## Requests and the device -/

structure Pending where
  id : Nat
  req : Request
  descs : List Nat
  statusAddr : Nat
  deriving DecidableEq, Repr

structure Submission where
  descs : List Nat
  owned : List Nat
  deriving DecidableEq, Repr

structure VblkState (δ : Type) where
  vq : Virtqueue
  dma : δ
  status : Nat → UInt8
  usedIdx : UInt16
  pending : List Pending
  nextId : Nat
  submissions : List Submission
  completed : List (Nat × UInt8)

variable {δ : Type}

def VblkState.owned (s : VblkState δ) : List Nat := s.pending.flatMap Pending.descs

structure Completion where
  pos : Nat
  status : UInt8
  deriving DecidableEq, Repr

def VblkState.complete (s : VblkState δ) (e : Completion) : VblkState δ :=
  match s.pending[e.pos]? with
  | none => s
  | some r =>
    { s with
      pending := s.pending.eraseIdx e.pos
      status := setCell s.status r.statusAddr e.status
      usedIdx := s.usedIdx + 1
      completed := s.completed ++ [(r.id, e.status)] }

/-- What the device does while a call waits; the call gives up after the last look. -/
structure CallEnv where
  rounds : List (List Completion)
  beforeCheck : List Completion
  beforeStatus : List Completion

/-! ## `vblk_do_io` -/

def chainDescs (vq : Virtqueue) (dHdr dData dStatus hdrPhys statusPhys : Nat) (req : Request) :
    Virtqueue :=
  let vq := vq.setDesc dHdr ⟨hdrPhys, 16, vringDescFNext, dData⟩
  let vq := vq.setDesc dData ⟨req.addr, req.len,
    if req.deviceWrites then vringDescFNext + vringDescFWrite else vringDescFNext, dStatus⟩
  vq.setDesc dStatus ⟨statusPhys, 1, vringDescFWrite, 0⟩

def submit (s : VblkState δ) (dHdr dData dStatus hdrPhys statusPhys : Nat) (req : Request) :
    VblkState δ :=
  let vq := chainDescs s.vq dHdr dData dStatus hdrPhys statusPhys req
  { s with
    vq := { vq with
      availRing := setCell vq.availRing (vq.availIdx.toNat % vq.size) dHdr
      availIdx := vq.availIdx + 1 }
    status := setCell s.status statusPhys 0xFF
    pending := s.pending ++ [⟨s.nextId, req, [dHdr, dData, dStatus], statusPhys⟩]
    nextId := s.nextId + 1
    submissions := s.submissions ++ [⟨[dHdr, dData, dStatus], s.owned⟩] }

def poll : VblkState δ → List (List Completion) → VblkState δ
  | s, [] => s
  | s, events :: rounds =>
    let s := run VblkState.complete s events
    if s.usedIdx ≠ s.vq.lastUsedIdx then
      { s with vq := { s.vq with lastUsedIdx := s.vq.lastUsedIdx + 1 } }
    else poll s rounds

def release (D : Dma δ) (s : VblkState δ) (dHdr hdrPhys statusPhys : Nat) : VblkState δ :=
  { s with
    vq := vblkFreeDescChain 2 s.vq dHdr
    dma := D.free (D.free s.dma hdrPhys 16) statusPhys 1 }

def finish (D : Dma δ) (env : CallEnv) (s : VblkState δ) (dHdr hdrPhys statusPhys : Nat) :
    VblkState δ × HalStatus :=
  let s := run VblkState.complete (poll s env.rounds) env.beforeCheck
  if s.usedIdx = s.vq.lastUsedIdx - 1 then (release D s dHdr hdrPhys statusPhys, .timeout)
  else
    let s := run VblkState.complete s env.beforeStatus
    let ioStatus := s.status statusPhys
    (release D s dHdr hdrPhys statusPhys, if ioStatus = 0 then .ok else .error)

def vblkRequest (D : Dma δ) (env : CallEnv) (s : VblkState δ) (req : Request) :
    VblkState δ × HalStatus :=
  let a := vblkAllocDesc s.vq
  let b := vblkAllocDesc a.2
  let c := vblkAllocDesc b.2
  let s := { s with vq := c.2 }
  match a.1, b.1, c.1 with
  | some dHdr, some dData, some dStatus =>
    let hdr := D.alloc s.dma 16
    match hdr.1 with
    | none => ({ s with dma := hdr.2 }, .noMemory)
    | some hdrPhys =>
      let stat := D.alloc hdr.2 1
      match stat.1 with
      | none => ({ s with dma := D.free stat.2 hdrPhys 16 }, .noMemory)
      | some statusPhys =>
        finish D env (submit { s with dma := stat.2 } dHdr dData dStatus hdrPhys statusPhys req)
          dHdr hdrPhys statusPhys
  | _, _, _ => (s, .busy)

/-! ## Runs -/

inductive VblkOp where
  | io (op : Op) (sector : UInt64) (count : UInt32) (bufPhys : UInt64) (env : CallEnv)
  | device (events : List Completion)

def VblkState.step (dev : VirtioBlkDev) (D : Dma δ) (s : VblkState δ) : VblkOp → VblkState δ
  | .io op sector count bufPhys env =>
    (vblkDoIo dev (vblkRequest D env) op s sector count bufPhys).1
  | .device events => run VblkState.complete s events

def VblkState.boot (vq : Virtqueue) (dma : δ) : VblkState δ where
  vq := vq
  dma := dma
  status := fun _ => 0
  usedIdx := 0
  pending := []
  nextId := 0
  submissions := []
  completed := []

end AlJefra.Storage.VirtioBlk
