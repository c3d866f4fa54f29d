/- The task pool of `kernel/sched.c`. -/
import AlJefra.Lib.Run
import Mathlib.Data.Fintype.Basic

namespace AlJefra.Kernel.Sched

abbrev schedMaxTasks : Nat := 64
def taskStackBase : UInt64 := 0x800000

inductive TaskState where
  | ready
  | running
  | blocked
  | dead
  deriving DecidableEq, Repr

structure Task where
  state : TaskState
  coreAffinity : UInt32
  stackBase : UInt64
  stackSize : UInt64
  rsp : UInt64
  entry : UInt64
  arg : UInt64
  deriving DecidableEq

structure SchedState where
  tasks : Fin schedMaxTasks → Task
  taskCount : Nat
  currentTask : Fin schedMaxTasks

namespace SchedState

def setTask (s : SchedState) (i : Fin schedMaxTasks) (t : Task) : SchedState :=
  { s with tasks := fun j => if j = i then t else s.tasks j }

def setState (s : SchedState) (i : Fin schedMaxTasks) (st : TaskState) : SchedState :=
  s.setTask i { s.tasks i with state := st }

end SchedState

def schedInit : SchedState where
  tasks := fun i => ⟨if i = 0 then .running else .dead, 0, 0, 0, 0, 0, 0⟩
  taskCount := 1
  currentTask := 0

def freeSlot (s : SchedState) : Option (Fin schedMaxTasks) :=
  (List.finRange schedMaxTasks).find? fun i => i ≠ 0 ∧ (s.tasks i).state = .dead

def stackSizeOf (stackSize : UInt64) : UInt64 := if stackSize = 0 then 65536 else stackSize

def newTask (slot : Fin schedMaxTasks) (entry arg stackSize : UInt64) : Task where
  state := .ready
  coreAffinity := 0xFFFFFFFF
  stackBase := taskStackBase + UInt64.ofNat slot * stackSize
  stackSize := stackSize
  rsp := taskStackBase + UInt64.ofNat slot * stackSize + stackSize - 8
  entry := entry
  arg := arg

def schedCreate (entry arg stackSize : UInt64) (s : SchedState) :
    Option (Fin schedMaxTasks) × SchedState :=
  match freeSlot s with
  | none => (none, s)
  | some slot =>
    (some slot, { s.setTask slot (newTask slot entry arg (stackSizeOf stackSize)) with
      taskCount := s.taskCount + 1 })

def scanReady (tasks : Fin schedMaxTasks → Task) :
    Nat → Fin schedMaxTasks → Option (Fin schedMaxTasks)
  | 0, _ => none
  | fuel + 1, next =>
    if (tasks (next + 1)).state = .ready then some (next + 1)
    else scanReady tasks fuel (next + 1)

def schedYield (s : SchedState) : SchedState :=
  if s.taskCount ≤ 1 then s
  else
    -- whatever state the current task is in, it becomes ready
    let s := s.setState s.currentTask .ready
    match scanReady s.tasks schedMaxTasks s.currentTask with
    | none => s
    | some next => { s.setState next .running with currentTask := next }

def schedBlock (s : SchedState) : SchedState := schedYield (s.setState s.currentTask .blocked)

def schedUnblock (taskId : UInt32) (s : SchedState) : SchedState :=
  if h : taskId.toNat < schedMaxTasks then
    if (s.tasks ⟨taskId.toNat, h⟩).state = .blocked then s.setState ⟨taskId.toNat, h⟩ .ready
    else s
  else s

/-! ## Runs -/

inductive SchedCall where
  | create (entry arg stackSize : UInt64)
  | yield
  | tick
  | block
  | unblock (taskId : UInt32)
  deriving DecidableEq

def schedStep (s : SchedState) : SchedCall → SchedState
  | .create entry arg stackSize => (schedCreate entry arg stackSize s).2
  | .yield => schedYield s
  | .tick => schedYield s
  | .block => schedBlock s
  | .unblock taskId => schedUnblock taskId s

def behind (cur : Fin schedMaxTasks) : List (Fin schedMaxTasks) :=
  (List.range' (cur.val + 1) schedMaxTasks).map (Fin.ofNat schedMaxTasks)

end AlJefra.Kernel.Sched
