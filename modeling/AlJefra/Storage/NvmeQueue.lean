/-
A queue pair of the NVMe driver and the controller that posts its completions
(`drivers/storage/nvme.c`). When the controller posts, and what, is up to the environment, and
so is the moment a poll runs out of time; a `Tick` is one test of the deadline.
-/
import AlJefra.Lib.PhaseRing
import AlJefra.Storage.Nvme

namespace AlJefra.Storage

open AlJefra.Hal
open AlJefra.Lib

/-! ## The controller's side -/

structure CqEntry where
  cdw0 : UInt32
  cid : UInt16
  status : UInt16
  deriving DecidableEq, Repr

def CqEntry.phase (cqe : CqEntry) : Bool := cqe.status.toNat % 2 == 1
def CqEntry.statusCode (cqe : CqEntry) : Nat := cqe.status.toNat / 2

structure Completion where
  cdw0 : UInt32
  cid : UInt16
  statusCode : Fin (2 ^ 15)

def Completion.entry (c : Completion) (phase : Bool) : CqEntry :=
  ⟨c.cdw0, c.cid, UInt16.ofNat (2 * c.statusCode.val + phase.toNat)⟩

structure CqDevice where
  size : Nat
  cq : Nat → CqEntry
  tail : Nat
  phase : Bool
  headDoorbell : Nat
  posted : List CqEntry

def CqDevice.full (dev : CqDevice) : Bool := (dev.tail + 1) % dev.size == dev.headDoorbell

def CqDevice.post (dev : CqDevice) (c : Completion) : CqDevice :=
  if dev.full then dev
  else
    let tail := (dev.tail + 1) % dev.size
    { dev with
      cq := setCell dev.cq dev.tail (c.entry dev.phase)
      tail := tail
      phase := if tail = 0 then !dev.phase else dev.phase
      posted := dev.posted ++ [c.entry dev.phase] }

/-! ## The driver's side -/

structure NvmeQueue where
  sq : Nat → SqEntry × UInt16
  sqDoorbell : Nat
  sqTail : Nat
  cqHead : Nat
  depth : Nat
  cqPhase : Bool
  cidCounter : UInt16

structure QueuePair where
  q : NvmeQueue
  dev : CqDevice

inductive QueueKind where
  | admin
  | io
  deriving DecidableEq, Repr

def QueueKind.maxDepth : QueueKind → Nat
  | .admin => 32
  | .io => 64

def queueDepth (kind : QueueKind) (mqes : UInt16) : Nat := min (mqes + 1).toNat kind.maxDepth

def nvmeAllocQueue (depth : Nat) (sqMem cqMem : Bool) : Except HalStatus QueuePair :=
  if !sqMem then .error .noMemory
  else if !cqMem then .error .noMemory
  else .ok
    { q := ⟨fun _ => (⟨0, 0, 0, 0, 0, 0, 0⟩, 0), 0, 0, 0, depth, true, 0⟩
      dev := ⟨depth, fun _ => ⟨0, 0, 0⟩, 0, true, 0, []⟩ }

def nvmeSubmitCmd (p : QueuePair) (cmd : SqEntry) : Option (QueuePair × UInt16) :=
  let cid := p.q.cidCounter
  if p.q.depth = 0 then none
  else
    let tail := (p.q.sqTail + 1) % p.q.depth
    some ({ p with q := { p.q with
              sq := setCell p.q.sq p.q.sqTail (cmd, cid)
              sqTail := tail
              sqDoorbell := tail
              cidCounter := cid + 1 } }, cid)

def pollRound (p : QueuePair) : Option (QueuePair × Option CqEntry) :=
  let cqe := p.dev.cq p.q.cqHead
  if cqe.phase = p.q.cqPhase then
    if p.q.depth = 0 then none
    else
      let head := (p.q.cqHead + 1) % p.q.depth
      some ({ q := { p.q with
                cqHead := head
                cqPhase := if head = 0 then !p.q.cqPhase else p.q.cqPhase }
              dev := { p.dev with headDoorbell := head } }, some cqe)
  else some (p, none)

structure Tick where
  completions : List Completion
  expired : Bool

def QueuePair.postAll (p : QueuePair) (completions : List Completion) : QueuePair :=
  { p with dev := completions.foldl CqDevice.post p.dev }

structure PollResult where
  status : HalStatus
  consumed : List CqEntry

def nvmePollCompletion (cid : UInt16) : QueuePair → List Tick → Option (QueuePair × PollResult)
  | p, [] => some (p, ⟨.timeout, []⟩)
  | p, tick :: ticks =>
    let p := p.postAll tick.completions
    if tick.expired then some (p, ⟨.timeout, []⟩)
    else
      match pollRound p with
      | none => none
      | some (p, none) => nvmePollCompletion cid p ticks
      | some (p, some cqe) =>
        if cqe.cid = cid then
          some (p, ⟨if cqe.statusCode = 0 then .ok else .error, [cqe]⟩)
        else
          (nvmePollCompletion cid p ticks).map fun r => (r.1, ⟨r.2.status, cqe :: r.2.consumed⟩)

structure CommandResult where
  cid : UInt16
  status : HalStatus
  consumed : List CqEntry

def nvmeCmd (p : QueuePair) (cmd : SqEntry) (ticks : List Tick) :
    Option (QueuePair × CommandResult) :=
  (nvmeSubmitCmd p cmd).bind fun submitted =>
    (nvmePollCompletion submitted.2 submitted.1 ticks).map fun polled =>
      (polled.1, ⟨submitted.2, polled.2.status, polled.2.consumed⟩)

def nvmeCmds : QueuePair → List (SqEntry × List Tick) → Option (QueuePair × List CommandResult)
  | p, [] => some (p, [])
  | p, op :: ops =>
    (nvmeCmd p op.1 op.2).bind fun first =>
      (nvmeCmds first.1 ops).map fun rest => (rest.1, first.2 :: rest.2)

end AlJefra.Storage
