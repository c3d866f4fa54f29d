/-
The pool is a round robin. The pool therefore refines a small machine, `RoundRobin`: a task that
blocks is just sent to the end of the line (`turns`).
-/
import AlJefra.Kernel.Sched
import Mathlib.Order.CompletePartialOrder
import Mathlib.Order.Interval.Set.Disjoint
import Mathlib.Data.Fintype.Fin
import Mathlib.Data.List.TakeWhile

namespace AlJefra.Kernel.Sched

open AlJefra.Lib List

/-! ## The abstract scheduler -/

structure RoundRobin where
  count : Nat
  current : Nat
  own : TaskState
  count_le : count ≤ schedMaxTasks
  current_lt : current < count
  own_live : own ≠ .dead

namespace RoundRobin

def start : RoundRobin := ⟨1, 0, .running, by decide, by decide, by decide⟩

@[simps] def setOwn (r : RoundRobin) (st : TaskState) (h : st ≠ .dead) : RoundRobin :=
  { r with own := st, own_live := h }

def create (r : RoundRobin) : RoundRobin :=
  if h : r.count < schedMaxTasks then
    { r with count := r.count + 1, count_le := h, current_lt := Nat.lt_succ_of_lt r.current_lt }
  else r

def advance (r : RoundRobin) : RoundRobin :=
  if r.count ≤ 1 then r
  else
    { r with
      current := (r.current + 1) % r.count
      own := .running
      current_lt := Nat.mod_lt _ (Nat.zero_lt_of_lt r.current_lt)
      own_live := by decide }

def block (r : RoundRobin) : RoundRobin :=
  if r.count ≤ 1 then r.setOwn .blocked (by decide) else r.advance

def unblock (taskId : Nat) (r : RoundRobin) : RoundRobin :=
  if taskId = r.current ∧ r.own = .blocked then r.setOwn .ready (by decide) else r

def step (r : RoundRobin) : SchedCall → RoundRobin
  | .create _ _ _ => r.create
  | .yield => r.advance
  | .tick => r.advance
  | .block => r.block
  | .unblock taskId => r.unblock taskId.toNat

def stateOf (r : RoundRobin) (i : Nat) : TaskState :=
  if i = r.current then r.own else if i < r.count then .ready else .dead

end RoundRobin

structure Implements (s : SchedState) (r : RoundRobin) : Prop where
  count : s.taskCount = r.count
  current : s.currentTask.val = r.current
  states : ∀ i, (s.tasks i).state = r.stateOf i

/-! ## The pool implements it -/

@[simp] theorem tasks_setState (s : SchedState) (i j : Fin schedMaxTasks) (st : TaskState) :
    ((s.setState i st).tasks j).state = if j = i then st else (s.tasks j).state := by
  simp only [SchedState.setState, SchedState.setTask]
  split <;> rfl

theorem implements_init : Implements schedInit RoundRobin.start where
  count := rfl
  current := rfl
  states := by decide

section Simulation

variable {s : SchedState} {r : RoundRobin} (h : Implements s r)
include h

theorem Implements.eq_current_iff (i : Fin schedMaxTasks) :
    i = s.currentTask ↔ i.val = r.current := by
  rw [← h.current, Fin.ext_iff]

theorem Implements.freeSlot_eq :
    freeSlot s = if h : r.count < schedMaxTasks then some ⟨r.count, h⟩ else none := by
  have hcur := r.current_lt
  have hdead : ∀ i : Fin schedMaxTasks, (s.tasks i).state = .dead ↔ r.count ≤ i.val := by
    intro i
    rw [h.states, RoundRobin.stateOf]
    split
    · simp only [r.own_live, false_iff]
      omega
    · split
      · simp only [reduceCtorEq, false_iff]
        omega
      · simp only [true_iff]
        omega
  unfold freeSlot
  split
  · next hlt =>
    rw [find?_eq_some_iff_getElem]
    refine ⟨?_, r.count, by simpa using hlt, by simp, ?_⟩
    · simp only [hdead, decide_eq_true_eq]
      exact ⟨by simp only [ne_eq, Fin.ext_iff]; simp; omega, le_refl _⟩
    · intro j hj
      simp only [getElem_finRange, hdead, Bool.not_eq_true', decide_eq_false_iff_not]
      rintro ⟨-, hle⟩
      exact absurd hj (Nat.not_lt.mpr hle)
  · next hfull =>
    rw [find?_eq_none]
    intro i _
    simp only [hdead, decide_eq_true_eq]
    rintro ⟨-, hle⟩
    exact absurd i.isLt (by omega)

theorem Implements.create (entry arg stackSize : UInt64) :
    Implements (schedCreate entry arg stackSize s).2 r.create := by
  have hcur := r.current_lt
  rw [schedCreate, h.freeSlot_eq, RoundRobin.create]
  by_cases hlt : r.count < schedMaxTasks
  · rw [dif_pos hlt, dif_pos hlt]
    refine ⟨congrArg (· + 1) h.count, h.current, ?_⟩
    intro i
    have hi := h.states i
    simp only [SchedState.setTask, RoundRobin.stateOf, Fin.ext_iff] at hi ⊢
    by_cases hslot : i.val = r.count
    · simp [hslot, newTask, ne_of_gt hcur]
    · have hsucc : i.val < r.count + 1 ↔ i.val < r.count := by omega
      simp only [hslot, if_false, hsucc, hi]
  · rw [dif_neg hlt, dif_neg hlt]
    exact h

end Simulation

/-! ## The scan -/

theorem val_add_one {i : Fin schedMaxTasks} (h : i.val + 1 < schedMaxTasks) :
    (i + 1).val = i.val + 1 := Fin.val_add_one_of_lt' h

theorem scanReady_wrap {tasks : Fin schedMaxTasks → Task} (h0 : (tasks 0).state = .ready)
    (fuel : Nat) : ∀ next : Fin schedMaxTasks, schedMaxTasks ≤ fuel + next.val →
      (∀ i : Fin schedMaxTasks, next < i → (tasks i).state ≠ .ready) →
      scanReady tasks fuel next = some 0 := by
  induction fuel with
  | zero =>
    intro next hfuel _
    exact absurd next.isLt (by omega)
  | succ fuel ih =>
    intro next hfuel hbehind
    unfold scanReady
    by_cases hlast : next.val + 1 < schedMaxTasks
    · have hval := val_add_one hlast
      have hlt : next < next + 1 := by
        rw [Fin.lt_def, hval]
        exact Nat.lt_succ_self _
      rw [if_neg (hbehind _ hlt)]
      refine ih (next + 1) (by omega) ?_
      intro i hi
      exact hbehind i (lt_trans hlt hi)
    · have hzero : next + 1 = 0 := by
        ext
        have hnext : next.val = 63 := by
          have hlt : next.val < 64 := next.isLt
          have hge : ¬ next.val + 1 < 64 := hlast
          omega
        simp [Fin.val_add, hnext]
      rw [hzero, if_pos h0]

section Simulation

variable {s : SchedState} {r : RoundRobin}

theorem scanReady_next {tasks : Fin schedMaxTasks → Task} (hle : r.count ≤ schedMaxTasks)
    (hlive : ∀ i : Fin schedMaxTasks, (tasks i).state = if i.val < r.count then .ready else .dead)
    {cur : Fin schedMaxTasks} (hcur : cur.val = r.current) :
    ∃ next, scanReady tasks schedMaxTasks cur = some next ∧
      next.val = (r.current + 1) % r.count := by
  have hlt := r.current_lt
  by_cases hend : r.current + 1 < r.count
  · have hval : (cur + 1).val = r.current + 1 := by
      rw [val_add_one (by omega), hcur]
    refine ⟨cur + 1, ?_, ?_⟩
    · unfold scanReady
      rw [hlive, hval, if_pos hend, if_pos rfl]
    · rw [hval, Nat.mod_eq_of_lt hend]
  · have hlast : r.current + 1 = r.count := by omega
    refine ⟨0, scanReady_wrap ?_ _ _ (Nat.le_add_right _ _) ?_, ?_⟩
    · rw [hlive, if_pos (by simp; omega)]
    · intro i hi
      rw [hlive, if_neg (by rw [Fin.lt_def] at hi; omega)]
      decide
    · rw [hlast, Nat.mod_self]
      rfl

theorem Implements.yield (h : Implements s r) : Implements (schedYield s) r.advance := by
  rw [schedYield, RoundRobin.advance, h.count]
  split
  · exact h
  · have hlt := r.current_lt
    have hlive : ∀ i : Fin schedMaxTasks, ((s.setState s.currentTask .ready).tasks i).state
        = if i.val < r.count then .ready else .dead := by
      intro i
      simp only [tasks_setState, h.states, RoundRobin.stateOf, h.eq_current_iff]
      split
      · rw [if_pos (by omega)]
      · rfl
    obtain ⟨next, hscan, hnext⟩ := scanReady_next r.count_le hlive h.current
    dsimp only
    rw [show (s.setState s.currentTask .ready).currentTask = s.currentTask from rfl, hscan]
    refine ⟨h.count, hnext, ?_⟩
    intro i
    have hi := tasks_setState (s.setState s.currentTask .ready) next i .running
    rw [hlive] at hi
    simp only [RoundRobin.stateOf, Fin.ext_iff, hnext] at hi ⊢
    exact hi

theorem Implements.setOwn (h : Implements s r) {st : TaskState} (hst : st ≠ .dead) :
    Implements (s.setState s.currentTask st) (r.setOwn st hst) := by
  refine ⟨h.count, h.current, ?_⟩
  intro i
  have hi := h.states i
  rw [tasks_setState]
  by_cases hcur : i.val = r.current
  · rw [if_pos ((h.eq_current_iff i).mpr hcur)]
    simp [RoundRobin.stateOf, hcur]
  · rw [if_neg (fun hc => hcur ((h.eq_current_iff i).mp hc)), hi]
    simp [RoundRobin.stateOf, hcur]

theorem Implements.block (h : Implements s r) : Implements (schedBlock s) r.block := by
  have hown := (h.setOwn (by decide : TaskState.blocked ≠ .dead)).yield
  unfold schedBlock RoundRobin.block
  unfold RoundRobin.advance at hown ⊢
  simp only [RoundRobin.setOwn] at hown ⊢
  by_cases hone : r.count ≤ 1
  · simpa only [hone, if_true] using hown
  · simpa only [hone, if_false] using hown

theorem Implements.unblock (h : Implements s r) (taskId : UInt32) :
    Implements (schedUnblock taskId s) (r.unblock taskId.toNat) := by
  have hlt := r.current_lt
  have hle := r.count_le
  unfold schedUnblock RoundRobin.unblock
  by_cases hid : taskId.toNat < schedMaxTasks
  · have hstate := h.states ⟨taskId.toNat, hid⟩
    simp only [RoundRobin.stateOf] at hstate
    rw [dif_pos hid, hstate]
    by_cases hcur : taskId.toNat = r.current
    · have hself : (⟨taskId.toNat, hid⟩ : Fin schedMaxTasks) = s.currentTask :=
        (h.eq_current_iff _).mpr hcur
      by_cases hown : r.own = .blocked
      · rw [if_pos (by simp [hcur, hown]), if_pos ⟨hcur, hown⟩, hself]
        exact h.setOwn (by decide)
      · rw [if_neg (by simp [hcur, hown]), if_neg (fun hc => hown hc.2)]
        exact h
    · rw [if_neg (by simp only [hcur, if_false]; split <;> decide), if_neg (fun hc => hcur hc.1)]
      exact h
  · rw [dif_neg hid, if_neg (fun hc => absurd hc.1 (by omega))]
    exact h

end Simulation

variable {s : SchedState} {r : RoundRobin} {c : SchedCall} {sizes : List UInt64} {size : UInt64}

theorem implements_step (h : Implements s r) (c : SchedCall) :
    Implements (schedStep s c) (r.step c) := by
  cases c with
  | create entry arg stackSize => exact h.create entry arg stackSize
  | yield | tick => exact h.yield
  | block => exact h.block
  | unblock taskId => exact h.unblock taskId

theorem implements_run (h : Implements s r) (calls : List SchedCall) :
    Implements (run schedStep s calls) (run RoundRobin.step r calls) := by
  induction calls generalizing s r with
  | nil => exact h
  | cons c calls ih => exact ih (implements_step h c)

/-! ## One running task -/

def SingleRunner (s : SchedState) : Prop :=
  (s.tasks s.currentTask).state = .running ∧
    (∀ i, (s.tasks i).state = .running → i = s.currentTask) ∧
    s.taskCount = (Finset.univ.filter fun i => (s.tasks i).state ≠ .dead).card

theorem RoundRobin.stateOf_ne_dead_iff (r : RoundRobin) (i : Nat) :
    r.stateOf i ≠ .dead ↔ i < r.count := by
  have hlt := r.current_lt
  unfold stateOf
  split
  · simp only [ne_eq, r.own_live, not_false_eq_true, true_iff]
    omega
  · split <;> next hi => simp [hi]

/-- In every reachable state the live tasks fill the first slots, and only the current one can be
blocked: `sched_unblock` changes nothing for any other task. -/
theorem live_and_unblock_run (calls : List SchedCall) :
    let s := run schedStep schedInit calls
    (∀ i, (s.tasks i).state ≠ .dead ↔ i.val < s.taskCount) ∧
      ∀ taskId, taskId.toNat = s.currentTask.val ∨ schedUnblock taskId s = s := by
  intro s
  have h : Implements s _ := implements_run implements_init calls
  refine ⟨fun i => ?_, fun taskId => ?_⟩
  · rw [h.states, h.count]
    exact RoundRobin.stateOf_ne_dead_iff _ _
  · rw [or_iff_not_imp_left, h.current]
    intro hne
    rw [schedUnblock]
    split
    · rw [if_neg]
      rw [h.states, RoundRobin.stateOf, if_neg hne]
      split <;> decide
    · rfl

theorem Implements.count_eq_card (h : Implements s r) :
    s.taskCount = (Finset.univ.filter fun i => (s.tasks i).state ≠ .dead).card := by
  have hle := r.count_le
  simp only [h.states, r.stateOf_ne_dead_iff, h.count]
  rw [Fin.card_filter_val_lt]
  omega

theorem Implements.singleRunner_iff (h : Implements s r) : SingleRunner s ↔ r.own = .running := by
  have hcur : (s.tasks s.currentTask).state = r.own := by
    rw [h.states, h.current, RoundRobin.stateOf, if_pos rfl]
  constructor
  · intro hs
    rw [← hcur]
    exact hs.1
  · intro hown
    refine ⟨hcur.trans hown, ?_, h.count_eq_card⟩
    intro i hi
    rw [h.states, RoundRobin.stateOf] at hi
    rw [h.eq_current_iff]
    by_contra hne
    rw [if_neg hne] at hi
    split at hi <;> cases hi

theorem RoundRobin.own_step (h2 : 2 ≤ r.count) (hown : r.own = .running) (c : SchedCall) :
    2 ≤ (r.step c).count ∧ (r.step c).own = .running := by
  have hne : ¬ r.count ≤ 1 := by omega
  cases c with
  | create entry arg stackSize =>
    simp only [step, create]
    split
    · exact ⟨Nat.le_succ_of_le h2, hown⟩
    · exact ⟨h2, hown⟩
  | yield | tick => simp [step, advance, hne, h2]
  | block => simp [step, block, advance, hne, h2]
  | unblock taskId => simp [step, unblock, hown, h2]

theorem RoundRobin.own_run (h2 : 2 ≤ r.count) (hown : r.own = .running) (calls : List SchedCall) :
    (run step r calls).own = .running :=
  (run_invariant (P := fun r => 2 ≤ r.count ∧ r.own = .running)
    (fun _ c h => own_step h.1 h.2 c) calls r ⟨h2, hown⟩).2

def blocksAlone : List SchedCall → Bool
  | [] => false
  | .block :: _ => true
  | .create _ _ _ :: _ => false
  | _ :: rest => blocksAlone rest

theorem RoundRobin.own_take_iff (h1 : r.count = 1) (hown : r.own = .running)
    (calls : List SchedCall) :
    (∀ n, (run step r (calls.take n)).own = .running) ↔ blocksAlone calls = false := by
  have hone : r.count ≤ 1 := by omega
  have hkeep : ∀ (c : SchedCall) (rest : List SchedCall), r.step c = r →
      ((∀ n, (run step r ((c :: rest).take n)).own = .running) ↔
        ∀ n, (run step r (rest.take n)).own = .running) := by
    intro c rest hc
    constructor
    · intro h n
      have := h (n + 1)
      rwa [take_succ_cons, run_cons, hc] at this
    · intro h n
      cases n with
      | zero => exact hown
      | succ n =>
        rw [take_succ_cons, run_cons, hc]
        exact h n
  induction calls with
  | nil => simp [blocksAlone, hown]
  | cons c rest ih =>
    cases c with
    | create entry arg stackSize =>
      simp only [blocksAlone, iff_true]
      intro n
      cases n with
      | zero => exact hown
      | succ n =>
        have h2 : r.count < schedMaxTasks := by rw [h1]; decide
        have hcreate : r.create.count = 2 ∧ r.create.own = .running := by
          rw [create, dif_pos h2]
          exact ⟨congrArg (· + 1) h1, hown⟩
        exact own_run hcreate.1.ge hcreate.2 _
    | yield => exact (hkeep .yield rest (by simp [step, advance, hone])).trans ih
    | tick => exact (hkeep .tick rest (by simp [step, advance, hone])).trans ih
    | block =>
      simp only [blocksAlone, Bool.true_eq_false, iff_false, not_forall]
      refine ⟨1, ?_⟩
      simp [step, block, hone]
    | unblock taskId =>
      exact (hkeep (.unblock taskId) rest (by simp [step, unblock, hown])).trans ih

/-- There is one running task, the current one, exactly if the kernel does not block before it has
created a task. -/
theorem singleRunner_run_iff (calls : List SchedCall) :
    (∀ n, SingleRunner (run schedStep schedInit (calls.take n))) ↔ blocksAlone calls = false := by
  rw [← RoundRobin.own_take_iff (r := RoundRobin.start) rfl rfl]
  exact forall_congr' fun n => (implements_run implements_init (calls.take n)).singleRunner_iff

theorem schedBlock_alone_no_runner :
    ¬ SingleRunner (run schedStep schedInit [.block]) ∧
      ∀ i, ((run schedStep schedInit [.block]).tasks i).state ≠ .running := by
  refine ⟨fun h => absurd h.1 (by decide), by decide⟩

/-! ## A round of yields -/

def SchedState.runnable (s : SchedState) (i : Fin schedMaxTasks) : Bool :=
  (s.tasks i).state = .ready ∨ (s.tasks i).state = .running

def SchedState.due (s : SchedState) : List (Fin schedMaxTasks) :=
  (behind s.currentTask).filter s.runnable

theorem slot_eq_iff {x y : Nat} :
    Fin.ofNat schedMaxTasks x = Fin.ofNat schedMaxTasks y ↔ x % 64 = y % 64 := Fin.ext_iff

theorem slot_val (i : Fin schedMaxTasks) : Fin.ofNat schedMaxTasks i.val = i := by simp
theorem behind_cons (cur : Fin schedMaxTasks) : behind cur = (cur + 1) :: (behind cur).tail := rfl

theorem behind_last (cur : Fin schedMaxTasks) : behind cur = (behind cur).dropLast ++ [cur] := by
  have hend : Fin.ofNat schedMaxTasks (cur.val + 1 + 63) = cur :=
    (slot_eq_iff.mpr (by omega)).trans (slot_val cur)
  rw [behind, range'_concat, map_append, map_singleton, one_mul, hend, dropLast_concat]

theorem behind_succ (cur : Fin schedMaxTasks) :
    behind (cur + 1) = (behind cur).tail ++ [cur + 1] := by
  have hstart : (behind (cur + 1)).dropLast = (behind cur).tail := by
    refine ext_getElem (by simp [behind]) fun j _ _ => ?_
    have hval : (cur + 1).val = (cur.val + 1) % 64 := rfl
    simp only [behind, getElem_dropLast, getElem_tail, getElem_map,
      getElem_range', slot_eq_iff, hval]
    omega
  rw [behind_last, hstart]

theorem behind_split {a : Fin schedMaxTasks} (pre : List (Fin schedMaxTasks)) :
    ∀ {cur post}, behind cur = pre ++ a :: post → behind a = post ++ pre ++ [a] := by
  induction pre with
  | nil =>
    intro cur post h
    rw [behind_cons cur] at h
    obtain ⟨rfl, rfl⟩ := cons.inj h
    simpa using behind_succ cur
  | cons b pre ih =>
    intro cur post h
    rw [behind_cons cur] at h
    obtain ⟨rfl, htail⟩ := cons.inj h
    have hnext := behind_succ cur
    rw [show (behind cur).tail = pre ++ a :: post from htail, append_assoc] at hnext
    simpa using ih hnext

theorem behind_nodup (cur : Fin schedMaxTasks) : (behind cur).Nodup := by
  refine List.Nodup.map_on ?_ (nodup_range' ..)
  intro x hx y hy hxy
  simp only [mem_range'_1] at hx hy
  rw [slot_eq_iff] at hxy
  have hmax : schedMaxTasks = 64 := rfl
  omega

theorem mem_behind (cur i : Fin schedMaxTasks) : i ∈ behind cur := by
  refine mem_map.mpr ⟨if cur < i then i.val else i.val + schedMaxTasks, ?_, ?_⟩
  · rw [mem_range'_1]
    split <;> omega
  · split
    · exact slot_val i
    · exact (slot_eq_iff.mpr (Nat.add_mod_right _ _)).trans (slot_val i)

theorem length_behind (cur : Fin schedMaxTasks) : (behind cur).length = schedMaxTasks := by
  simp [behind]

theorem scanReady_eq (tasks : Fin schedMaxTasks → Task) (fuel : Nat) : ∀ cur, fuel ≤ schedMaxTasks →
    scanReady tasks fuel cur = ((behind cur).take fuel).find? fun i =>
      (tasks i).state = .ready := by
  induction fuel with
  | zero =>
    intro cur _
    simp [scanReady]
  | succ fuel ih =>
    intro cur hfuel
    have hlen : fuel ≤ (behind cur).tail.length := by
      rw [length_tail, length_behind]
      omega
    rw [scanReady, behind_cons cur, take_succ_cons, find?_cons, ih _ (by omega),
      behind_succ cur, take_append_of_le_length hlen]
    split <;> simp [*]

theorem due_rotate {p : Fin schedMaxTasks → Bool} {cur a : Fin schedMaxTasks}
    {rest : List (Fin schedMaxTasks)} (h : (behind cur).filter p = a :: rest) :
    (behind a).filter p = rest ++ [a] := by
  obtain ⟨pre, post, hsplit, hpre, ha, hpost⟩ := filter_eq_cons_iff.mp h
  have hnone : pre.filter p = [] := filter_eq_nil_iff.mpr hpre
  rw [behind_split pre hsplit]
  simp [hpost, hnone, ha]

structure Steady (s : SchedState) : Prop where
  running : ∀ i, (s.tasks i).state = .running ↔ i = s.currentTask
  count : 1 < s.taskCount

theorem Steady.yield_eq (h : Steady s) {a : Fin schedMaxTasks} {rest : List (Fin schedMaxTasks)}
    (hdue : s.due = a :: rest) :
    schedYield s = { (s.setState s.currentTask .ready).setState a .running with
      currentTask := a } := by
  -- with the current task made ready too, the tasks that are due are the ready ones
  have hready : (fun i => decide (((s.setState s.currentTask .ready).tasks i).state = .ready))
      = s.runnable := by
    funext i
    have hi := h.running i
    simp only [tasks_setState, SchedState.runnable]
    split <;> simp_all
  have hscan : scanReady (s.setState s.currentTask .ready).tasks schedMaxTasks s.currentTask
      = some a := by
    rw [scanReady_eq _ _ _ le_rfl, take_of_length_le (length_behind _).le, hready, ← head?_filter]
    exact congrArg head? hdue
  rw [schedYield, if_neg (Nat.not_le.mpr h.count)]
  dsimp only
  rw [show (s.setState s.currentTask .ready).currentTask = s.currentTask from rfl, hscan]

theorem Steady.yield (h : Steady s) {a : Fin schedMaxTasks} {rest : List (Fin schedMaxTasks)}
    (hdue : s.due = a :: rest) :
    Steady (schedYield s) ∧ (schedYield s).currentTask = a ∧ (schedYield s).due = rest ++ [a] := by
  have ha : s.runnable a = true := (mem_filter.mp (hdue ▸ mem_cons_self : a ∈ s.due)).2
  have hstate : ∀ i, ((schedYield s).tasks i).state =
      if i = a then .running else if i = s.currentTask then .ready else (s.tasks i).state := by
    intro i
    rw [h.yield_eq hdue]
    simp only [tasks_setState]
  have hcur : (schedYield s).currentTask = a := by rw [h.yield_eq hdue]
  have hrunnable : (schedYield s).runnable = s.runnable := by
    funext i
    have hi := h.running i
    simp only [SchedState.runnable, hstate] at ha ⊢
    split_ifs <;> simp_all
  refine ⟨⟨?_, ?_⟩, hcur, ?_⟩
  · intro i
    have hi := h.running i
    rw [hstate, hcur]
    split_ifs <;> simp_all
  · rw [h.yield_eq hdue]
    exact h.count
  · rw [SchedState.due, hcur, hrunnable]
    exact due_rotate hdue

theorem Steady.yields (front : List (Fin schedMaxTasks)) : ∀ {s rest}, Steady s →
    s.due = front ++ rest →
    (range front.length).map (fun n => (schedYield^[n + 1] s).currentTask) = front := by
  induction front with
  | nil =>
    intro s rest _ _
    rfl
  | cons a front ih =>
    intro s rest h hdue
    obtain ⟨hnext, hcur, hdue⟩ := h.yield hdue
    have hfront := ih hnext (hdue.trans (append_assoc _ _ _))
    simp only [Function.iterate_succ_apply] at hfront
    simp only [length_cons, range_succ_eq_map, map_cons, map_map,
      Function.comp_def, Function.iterate_succ_apply, Function.iterate_zero, id_eq, hcur, hfront]

/-- `k` yields make each of the `k` tasks that are ready or running current once, in cyclic order.
-/
theorem schedYield_round (s : SchedState) (h : SingleRunner s) (k : Nat)
    (hk : k = (Finset.univ.filter fun i => s.runnable i).card) (h2 : 2 ≤ k) :
    (List.range k).map (fun n => (schedYield^[n + 1] s).currentTask) = s.due ∧
      s.due.Nodup ∧ (∀ i, i ∈ s.due ↔ s.runnable i) ∧
      (schedYield^[k] s).currentTask = s.currentTask := by
  obtain ⟨hown, hone, hcount⟩ := h
  have hmem : ∀ i, i ∈ s.due ↔ s.runnable i := by
    intro i
    simp [SchedState.due, mem_behind]
  have hnodup : s.due.Nodup := (behind_nodup _).filter _
  have hlen : s.due.length = k := by
    rw [hk, ← toFinset_card_of_nodup hnodup]
    congr 1
    ext i
    simp [hmem]
  have hsteady : Steady s := by
    refine ⟨fun i => ⟨hone i, ?_⟩, ?_⟩
    · rintro rfl
      exact hown
    · rw [hcount]
      refine lt_of_lt_of_le (hk ▸ h2) (Finset.card_le_card (Finset.monotone_filter_right _ ?_))
      intro i _ hi
      obtain hi | hi := of_decide_eq_true hi
      · simp [hi]
      · simp [hi]
  have hturns := hsteady.yields s.due (append_nil _).symm
  rw [hlen] at hturns
  refine ⟨hturns, hnodup, hmem, ?_⟩
  -- the slot of the current task is the last one behind it
  have hlast : s.due = (behind s.currentTask).dropLast.filter s.runnable ++ [s.currentTask] := by
    rw [SchedState.due, behind_last, filter_append]
    simp [SchedState.runnable, hown]
  obtain ⟨m, rfl⟩ : ∃ m, k = m + 1 := ⟨k - 1, by omega⟩
  rw [range_succ, map_append, hlast] at hturns
  exact singleton_inj.mp (append_inj_right' hturns rfl)

theorem schedYield_round_three :
    (List.range 3).map (fun n => (schedYield^[n + 1] (run schedStep schedInit
      [.create 0 0 0, .create 0 0 0, .yield, .yield])).currentTask) = [0, 1, 2] := by
  have h : (run schedStep schedInit [.create 0 0 0, .create 0 0 0, .yield, .yield]).due
      = [0, 1, 2] := by decide +kernel
  rw [← h]
  refine (schedYield_round _ ?_ 3 ?_ ?_).1
  · unfold SingleRunner
    decide +kernel
  · decide +kernel
  · decide

/-! ## Blocking -/

def SchedCall.passes : SchedCall → Bool
  | .yield | .tick | .block => true
  | _ => false

def SchedCall.isCreate : SchedCall → Bool
  | .create _ _ _ => true
  | _ => false

def RoundRobin.turns (r : RoundRobin) (t : Nat) : Nat :=
  if t < r.current then r.count - r.current + t else t - r.current

namespace RoundRobin

variable {r : RoundRobin} {t : Nat}

theorem turns_advance (h2 : 2 ≤ r.count) (ht : t < r.count) (hne : r.current ≠ t) :
    r.advance.turns t + 1 = r.turns t := by
  have hlt := r.current_lt
  have hone : ¬ r.count ≤ 1 := by omega
  unfold advance turns
  simp only [hone, if_false]
  by_cases hend : r.current + 1 < r.count
  · rw [Nat.mod_eq_of_lt hend]
    split <;> split <;> omega
  · rw [show r.current + 1 = r.count by omega, Nat.mod_self]
    split <;> split <;> omega

theorem turns_block (h2 : 2 ≤ r.count) : r.block.turns r.current + 1 = r.count := by
  have hlt := r.current_lt
  have hone : ¬ r.count ≤ 1 := by omega
  unfold block advance turns
  simp only [hone, if_false]
  by_cases hend : r.current + 1 < r.count
  · rw [Nat.mod_eq_of_lt hend]
    split <;> omega
  · rw [show r.current + 1 = r.count by omega, Nat.mod_self]
    split <;> omega

theorem turns_step (h2 : 2 ≤ r.count) (ht : t < r.count) (hne : r.current ≠ t) (c : SchedCall) :
    r.turns t ≤ (r.step c).turns t + (if c.passes then 1 else 0) ∧
      (c.isCreate = false → r.turns t = (r.step c).turns t + (if c.passes then 1 else 0)) := by
  have hone : ¬ r.count ≤ 1 := by omega
  have hadv := turns_advance h2 ht hne
  cases c with
  | create entry arg stackSize =>
    refine ⟨?_, fun h => Bool.noConfusion h⟩
    simp only [step, create, SchedCall.passes]
    split
    · unfold turns
      split <;> simp
      omega
    · simp
  | yield | tick => simp [step, SchedCall.passes, hadv]
  | block => simp [step, block, hone, SchedCall.passes, hadv]
  | unblock taskId =>
    have hsame : (r.unblock taskId.toNat).turns t = r.turns t := by
      unfold unblock
      split <;> rfl
    simp [step, SchedCall.passes, hsame]

theorem count_step (r : RoundRobin) (c : SchedCall) : r.count ≤ (r.step c).count := by
  cases c with
  | create entry arg stackSize =>
    simp only [step, create]
    split <;> simp
  | yield | tick => simp only [step, advance]; split <;> simp
  | block => simp only [step, block, advance]; split <;> simp
  | unblock taskId => simp only [step, unblock]; split <;> simp

theorem current_ne_of_passes (later : List SchedCall) : ∀ {r : RoundRobin},
    2 ≤ r.count → t < r.count → later.countP SchedCall.passes < r.turns t →
      ∀ n, (run step r (later.take n)).current ≠ t := by
  have hnow : ∀ {r : RoundRobin}, 0 < r.turns t → r.current ≠ t := by
    rintro r h rfl
    simp [turns] at h
  induction later with
  | nil =>
    intro r _ _ h n
    simpa using hnow h
  | cons c later ih =>
    intro r h2 ht h n
    have hcur : r.current ≠ t := hnow (by omega)
    cases n with
    | zero => exact hcur
    | succ n =>
      have hcount := r.count_step c
      have hstep := (turns_step h2 ht hcur c).1
      rw [countP_cons] at h
      exact ih (by omega) (by omega) (by omega) n

theorem passes_of_current_ne (later : List SchedCall) : ∀ {r : RoundRobin},
    2 ≤ r.count → t < r.count → (∀ c ∈ later, c.isCreate = false) →
      (∀ n, (run step r (later.take n)).current ≠ t) →
      later.countP SchedCall.passes < r.turns t := by
  induction later with
  | nil =>
    intro r h2 ht _ h
    have hcur := h 0
    have hlt := r.current_lt
    simp only [take_nil, run_nil] at hcur
    simp only [countP_nil, turns]
    split <;> omega
  | cons c later ih =>
    intro r h2 ht hcreate h
    have hcount := r.count_step c
    have hstep := (turns_step h2 ht (h 0) c).2 (hcreate c mem_cons_self)
    have hrest := ih (r := r.step c) (by omega) (by omega)
      (fun c' hc' => hcreate c' (mem_cons_of_mem c hc')) (fun n => h (n + 1))
    rw [countP_cons]
    omega

end RoundRobin

def SchedCall.unblocks (t : Fin schedMaxTasks) : SchedCall → Bool
  | .unblock taskId => taskId.toNat = t
  | _ => false

/-- With `n` live tasks, one that blocks is not current during fewer than `n - 1` calls that pass
the turn on, and is current after so many, also before any `sched_unblock` names it. -/
theorem schedBlock_not_current_iff (calls later : List SchedCall)
    (h2 : 2 ≤ (run schedStep schedInit calls).taskCount) :
    (later.countP SchedCall.passes + 1 < (run schedStep schedInit calls).taskCount →
        ∀ n, (run schedStep (schedBlock (run schedStep schedInit calls))
          (later.take n)).currentTask ≠ (run schedStep schedInit calls).currentTask) ∧
      ((∀ c ∈ later, c.isCreate = false) →
        ((∀ n, (∀ c ∈ later.take n,
              c.unblocks (run schedStep schedInit calls).currentTask = false) →
            (run schedStep (schedBlock (run schedStep schedInit calls))
              (later.take n)).currentTask ≠ (run schedStep schedInit calls).currentTask) ↔
          (later.takeWhile fun c =>
              !c.unblocks (run schedStep schedInit calls).currentTask).countP SchedCall.passes + 1 <
            (run schedStep schedInit calls).taskCount)) := by
  have himp := implements_run implements_init calls
  have hblock := himp.block
  have hcur : ∀ n, (run schedStep (schedBlock (run schedStep schedInit calls))
        (later.take n)).currentTask = (run schedStep schedInit calls).currentTask ↔
      (run RoundRobin.step (run RoundRobin.step .start calls).block (later.take n)).current =
        (run RoundRobin.step .start calls).current := by
    intro n
    rw [Fin.ext_iff, himp.current, (implements_run hblock (later.take n)).current]
  simp only [ne_eq, hcur]
  rw [himp.count] at h2 ⊢
  generalize run RoundRobin.step .start calls = r at h2 ⊢
  have hturns := RoundRobin.turns_block h2
  have hcount : r.count ≤ r.block.count := r.count_step .block
  have hlt := r.current_lt
  refine ⟨fun h => RoundRobin.current_ne_of_passes later (by omega) (by omega) (by omega), ?_⟩
  intro hcreate
  -- `before` is the part of the calls before the first one that names the task
  generalize hbefore : later.takeWhile _ = before
  have hpre : before <+: later := hbefore ▸ takeWhile_prefix _
  constructor
  · intro h
    have hnever : ∀ n, (run RoundRobin.step r.block (before.take n)).current ≠ r.current := by
      intro n
      have htake : before.take n = later.take (min n before.length) := by
        rw [← take_take, ← prefix_iff_eq_take.mp hpre]
      rw [htake]
      refine h _ fun c hc => ?_
      rw [← htake, ← hbefore] at hc
      simpa using mem_takeWhile_imp (mem_of_mem_take hc)
    have hpasses := RoundRobin.passes_of_current_ne before (by omega) (by omega)
      (fun c hc => hcreate c (hpre.subset hc)) hnever
    omega
  · intro h n hn
    have htake : later.take n = before.take n := by
      rw [← hbefore, take_takeWhile, takeWhile_eq_self_iff.mpr]
      simpa using hn
    rw [htake]
    exact RoundRobin.current_ne_of_passes before (by omega) (by omega) (by omega) n

theorem schedBlock_not_current_iff_three :
    2 ≤ (run schedStep schedInit [.create 0 0 0, .create 0 0 0]).taskCount ∧
      ∀ n, (run schedStep (schedBlock (run schedStep schedInit [.create 0 0 0, .create 0 0 0]))
        ([.yield].take n)).currentTask
          ≠ (run schedStep schedInit [.create 0 0 0, .create 0 0 0]).currentTask :=
  ⟨by decide, (schedBlock_not_current_iff [.create 0 0 0, .create 0 0 0] [.yield]
    (by decide)).1 (by decide)⟩

theorem schedBlock_current_after_yield :
    (run schedStep schedInit [.create 0 0 0]).taskCount = 2 ∧
      (run schedStep (schedBlock (run schedStep schedInit [.create 0 0 0])) [.yield]).currentTask
        = (run schedStep schedInit [.create 0 0 0]).currentTask := by
  decide

/-! ## Stacks -/

def Task.stackRange (t : Task) : Set Nat :=
  Set.Ico t.stackBase.toNat (t.stackBase.toNat + t.stackSize.toNat)

def StacksDisjoint (s : SchedState) : Prop :=
  ∀ i j, i.val ≠ 0 → j.val ≠ 0 → i ≠ j → (s.tasks i).state ≠ .dead → (s.tasks j).state ≠ .dead →
    Disjoint (s.tasks i).stackRange (s.tasks j).stackRange

def SchedCall.createSize : SchedCall → Option UInt64
  | .create _ _ stackSize => some (stackSizeOf stackSize)
  | _ => none

def createSizes (calls : List SchedCall) : List UInt64 := calls.filterMap SchedCall.createSize
def Task.stack (t : Task) : UInt64 × UInt64 := (t.stackBase, t.stackSize)

theorem stack_setState (s : SchedState) (i j : Fin schedMaxTasks) (st : TaskState) :
    ((s.setState i st).tasks j).stack = (s.tasks j).stack := by
  simp only [SchedState.setState, SchedState.setTask]
  split
  · next h => rw [h]; rfl
  · rfl

theorem stack_yield (s : SchedState) (j : Fin schedMaxTasks) :
    ((schedYield s).tasks j).stack = (s.tasks j).stack := by
  unfold schedYield
  split
  · rfl
  · dsimp only
    split
    · exact stack_setState s s.currentTask j .ready
    · next next _ =>
      exact (stack_setState (s.setState s.currentTask .ready) next j .running).trans
        (stack_setState s s.currentTask j .ready)

theorem stack_step (hc : c.createSize = none) (j : Fin schedMaxTasks) :
    ((schedStep s c).tasks j).stack = (s.tasks j).stack := by
  cases c with
  | create entry arg stackSize => cases hc
  | yield | tick => exact stack_yield s j
  | block => exact (stack_yield _ j).trans (stack_setState s s.currentTask j .blocked)
  | unblock taskId =>
    simp only [schedStep, schedUnblock]
    split
    · split
      · exact stack_setState s _ j .ready
      · rfl
    · rfl

structure StacksOf (s : SchedState) (sizes : List UInt64) : Prop where
  implements : ∃ r : RoundRobin, Implements s r ∧ r.count = min schedMaxTasks (sizes.length + 1)
  stack : ∀ (i : Fin schedMaxTasks) (k : Nat) (size : UInt64), i.val = k + 1 →
    sizes[k]? = some size →
      (s.tasks i).stack = (taskStackBase + UInt64.ofNat i.val * size, size)

theorem RoundRobin.count_step_of_not_create (r : RoundRobin) (hc : c.createSize = none) :
    (r.step c).count = r.count := by
  cases c with
  | create entry arg stackSize => cases hc
  | yield | tick => simp only [step, advance]; split <;> rfl
  | block => simp only [step, block, advance]; split <;> rfl
  | unblock taskId => simp only [step, unblock]; split <;> rfl

theorem StacksOf.step_other (h : StacksOf s sizes) (hc : c.createSize = none) :
    StacksOf (schedStep s c) sizes := by
  obtain ⟨r, himp, hcount⟩ := h.implements
  refine ⟨⟨r.step c, implements_step himp c, (r.count_step_of_not_create hc).trans hcount⟩, ?_⟩
  intro i k size hi hk
  rw [stack_step hc]
  exact h.stack i k size hi hk

theorem StacksOf.create (h : StacksOf s sizes) (entry arg stackSize : UInt64) :
    StacksOf (schedCreate entry arg stackSize s).2 (sizes ++ [stackSizeOf stackSize]) := by
  obtain ⟨r, himp, hcount⟩ := h.implements
  refine ⟨⟨r.create, himp.create entry arg stackSize, ?_⟩, ?_⟩
  · rw [RoundRobin.create, length_append, length_singleton]
    split
    · show r.count + 1 = _
      omega
    · omega
  · intro i k size hi hk
    rw [schedCreate, himp.freeSlot_eq]
    by_cases hfree : r.count < schedMaxTasks
    · rw [dif_pos hfree]
      simp only [SchedState.setTask, Fin.ext_iff]
      by_cases hslot : i.val = r.count
      · -- the new task
        have hk' : k = sizes.length := by omega
        rw [hk', getElem?_concat_length] at hk
        cases hk
        simp [Task.stack, newTask, hslot]
      · rw [if_neg hslot]
        have hk' : k < sizes.length := by
          have := (List.getElem?_eq_some_iff.mp hk).1
          simp only [length_append, length_singleton] at this
          omega
        exact h.stack i k size hi (by rwa [getElem?_append_left hk'] at hk)
    · rw [dif_neg hfree]
      have hk' : k < sizes.length := by omega
      exact h.stack i k size hi (by rwa [getElem?_append_left hk'] at hk)

theorem stacksOf_run (h : StacksOf s sizes) (calls : List SchedCall) :
    StacksOf (run schedStep s calls) (sizes ++ createSizes calls) := by
  induction calls generalizing s sizes with
  | nil => simpa [createSizes] using h
  | cons c calls ih =>
    cases hc : c.createSize with
    | none => simpa [createSizes, filterMap_cons, hc] using ih (h.step_other hc)
    | some size =>
      cases c with
      | create entry arg stackSize =>
        cases hc
        simpa [createSizes, filterMap_cons, SchedCall.createSize, schedStep]
          using ih (h.create entry arg stackSize)
      | _ => cases hc

theorem stacksOf_init : StacksOf schedInit [] where
  implements := ⟨.start, implements_init, rfl⟩
  stack := by simp

theorem stackRange_eq {t : Task} {i : Nat}
    (ht : t.stack = (taskStackBase + UInt64.ofNat i * size, size)) (hi : i < 64)
    (hwrap : 0x800000 + (i + 1) * size.toNat < 2 ^ 64) :
    t.stackRange = Set.Ico (0x800000 + i * size.toNat) (0x800000 + (i + 1) * size.toNat) := by
  obtain ⟨hbase, hsize⟩ := Prod.mk.inj ht
  have hmul : (i + 1) * size.toNat = i * size.toNat + size.toNat := Nat.succ_mul _ _
  have hnat : (taskStackBase + UInt64.ofNat i * size).toNat = 0x800000 + i * size.toNat := by
    have hi' : (UInt64.ofNat i).toNat = i := by
      rw [UInt64.toNat_ofNat']
      omega
    rw [UInt64.toNat_add, UInt64.toNat_mul, hi', show taskStackBase.toNat = 0x800000 from rfl,
      Nat.mod_eq_of_lt (a := i * size.toNat) (by omega), Nat.mod_eq_of_lt (by omega)]
  rw [Task.stackRange, hbase, hsize, hnat, hmul, add_assoc]

theorem stackSizeOf_pos (stackSize : UInt64) : 0 < (stackSizeOf stackSize).toNat := by
  unfold stackSizeOf
  split
  · decide
  · next h =>
    rw [Nat.pos_iff_ne_zero]
    intro h0
    exact h (UInt64.toNat_inj.mp h0)

theorem createSizes_pos {calls : List SchedCall} {k : Nat} (h : (createSizes calls)[k]? = some size)
    : 0 < size.toNat := by
  obtain ⟨c, -, hc⟩ := mem_filterMap.mp (mem_of_getElem? h)
  cases c with
  | create entry arg stackSize =>
    cases hc
    exact stackSizeOf_pos stackSize
  | _ => cases hc

/-- As long as no end of a stack wraps, stacks are disjoint exactly if `(i + 1) * size_i ≤ j *
size_j` or `(j + 1) * size_j ≤ i * size_i` for any two slots. -/
theorem stacksDisjoint_run_iff (calls : List SchedCall)
    (hwrap : ∀ k size, k < 63 → (createSizes calls)[k]? = some size →
      0x800000 + (k + 2) * size.toNat < 2 ^ 64) :
    StacksDisjoint (run schedStep schedInit calls) ↔
      ∀ k l size size', k < l → l < 63 → (createSizes calls)[k]? = some size →
        (createSizes calls)[l]? = some size' →
          (k + 2) * size.toNat ≤ (l + 1) * size'.toNat ∨
            (l + 2) * size'.toNat ≤ (k + 1) * size.toNat := by
  have h := stacksOf_run stacksOf_init calls
  rw [nil_append] at h
  obtain ⟨r, himp, hcount⟩ := h.implements
  have hlive : ∀ i, ((run schedStep schedInit calls).tasks i).state ≠ .dead ↔
      i.val ≤ (createSizes calls).length := by
    intro i
    rw [himp.states, r.stateOf_ne_dead_iff, hcount]
    omega
  have hrange : ∀ (i : Fin schedMaxTasks) k size, i.val = k + 1 →
      (createSizes calls)[k]? = some size →
      ((run schedStep schedInit calls).tasks i).stackRange
        = Set.Ico (0x800000 + (k + 1) * size.toNat) (0x800000 + (k + 2) * size.toNat) := by
    intro i k size hi hk
    have hlt : i.val < 64 := i.isLt
    have hi' := stackRange_eq (h.stack i k size hi hk) hlt
      (by rw [hi]; exact hwrap k size (by omega) hk)
    rwa [hi] at hi'
  have hpair : ∀ (i j : Fin schedMaxTasks) k l size size', i.val = k + 1 → j.val = l + 1 →
      (createSizes calls)[k]? = some size → (createSizes calls)[l]? = some size' →
      (Disjoint ((run schedStep schedInit calls).tasks i).stackRange
          ((run schedStep schedInit calls).tasks j).stackRange ↔
        (k + 2) * size.toNat ≤ (l + 1) * size'.toNat ∨
          (l + 2) * size'.toNat ≤ (k + 1) * size.toNat) := by
    intro i j k l size size' hi hj hk hl
    have hpos := createSizes_pos hk
    have hpos' := createSizes_pos hl
    have hmul : (k + 2) * size.toNat = (k + 1) * size.toNat + size.toNat := Nat.succ_mul _ _
    have hmul' : (l + 2) * size'.toNat = (l + 1) * size'.toNat + size'.toNat := Nat.succ_mul _ _
    rw [hrange i k size hi hk, hrange j l size' hj hl, Set.Ico_disjoint_Ico]
    omega
  constructor
  · intro hdisj k l size size' hkl hl63 hk hl
    have hklt := (List.getElem?_eq_some_iff.mp hk).1
    have hllt := (List.getElem?_eq_some_iff.mp hl).1
    have hi : k + 1 < schedMaxTasks := by simp only [schedMaxTasks]; omega
    have hj : l + 1 < schedMaxTasks := by simp only [schedMaxTasks]; omega
    refine (hpair ⟨k + 1, hi⟩ ⟨l + 1, hj⟩ k l size size' rfl rfl hk hl).mp
      (hdisj _ _ ?_ ?_ ?_ ((hlive _).mpr hklt) ((hlive _).mpr hllt))
    · exact Nat.succ_ne_zero k
    · exact Nat.succ_ne_zero l
    · simp only [ne_eq, Fin.mk.injEq]
      omega
  · intro hcond i j hi0 hj0 hij hi hj
    rw [hlive] at hi hj
    obtain ⟨k, hk⟩ := Nat.exists_eq_succ_of_ne_zero hi0
    obtain ⟨l, hl⟩ := Nat.exists_eq_succ_of_ne_zero hj0
    have hk' := getElem?_eq_getElem (show k < (createSizes calls).length by omega)
    have hl' := getElem?_eq_getElem (show l < (createSizes calls).length by omega)
    have hi64 : i.val < 64 := i.isLt
    have hj64 : j.val < 64 := j.isLt
    rw [hpair i j k l _ _ hk hl hk' hl']
    obtain hlt | rfl | hgt := Nat.lt_trichotomy k l
    · exact hcond k l _ _ hlt (by omega) hk' hl'
    · exact absurd (Fin.ext (hk.trans hl.symm)) hij
    · exact (hcond l k _ _ hgt (by omega) hl' hk').symm

theorem stacksDisjoint_run_iff_default :
    StacksDisjoint (run schedStep schedInit [.create 0 0 0, .create 0 0 0]) := by
  refine (stacksDisjoint_run_iff [.create 0 0 0, .create 0 0 0] ?_).mpr ?_
  · intro k size _ hk
    match k, hk with
    | 0, hk => cases hk; decide
    | 1, hk => cases hk; decide
  · intro k l size size' hkl _ hk hl
    have hl2 : l < 2 := (List.getElem?_eq_some_iff.mp hl).1
    obtain rfl : l = 1 := by omega
    obtain rfl : k = 0 := by omega
    cases hk
    cases hl
    decide

theorem schedCreate_stacks_overlap :
    ¬ StacksDisjoint (run schedStep schedInit [.create 0 0 131072, .create 0 0 65536]) := by
  intro h
  have hdisj := h 1 2 (by decide) (by decide) (by decide) (by decide) (by decide)
  have hfirst : 0x820000 ∈ ((run schedStep schedInit [.create 0 0 131072,
      .create 0 0 65536]).tasks 1).stackRange := ⟨by decide, by decide⟩
  exact Set.disjoint_left.mp hdisj hfirst ⟨by decide, by decide⟩

end AlJefra.Kernel.Sched
