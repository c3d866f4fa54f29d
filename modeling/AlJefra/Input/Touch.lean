/-
Touch events and the gesture recogniser (`drivers/input/touch.c`). `touch_poll` hands every
event that nobody has read yet to the recogniser, also those it handed over in an earlier call.
-/
import AlJefra.Lib.Run

namespace AlJefra.Input.Touch

open AlJefra.Lib List

variable {ε : Type}

/-- `enqueued` are the events ever stored, and `passed` those given to the recogniser. -/
structure TouchDev (ε : Type) where
  eventQueue : UInt8 → ε
  eqHead : UInt8
  eqTail : UInt8
  enqueued : List ε
  passed : List ε

def touchPushEvent (dev : TouchDev ε) (evt : ε) : TouchDev ε :=
  if dev.eqHead + 1 = dev.eqTail then dev
  else { dev with
    eventQueue := fun i => if i = dev.eqHead then evt else dev.eventQueue i
    eqHead := dev.eqHead + 1
    enqueued := dev.enqueued ++ [evt] }

-- The loop over the queue; it ends within 256 rounds.
def scan (queue : UInt8 → ε) (head : UInt8) : Nat → UInt8 → List ε
  | 0, _ => []
  | fuel + 1, tail => if tail ≠ head then queue tail :: scan queue head fuel (tail + 1) else []

def touchPoll (dev : TouchDev ε) (report : List ε) : TouchDev ε :=
  let dev := report.foldl touchPushEvent dev
  { dev with passed := dev.passed ++ scan dev.eventQueue dev.eqHead 256 dev.eqTail }

def touchGetEvent (dev : TouchDev ε) : Option ε × TouchDev ε :=
  if dev.eqHead = dev.eqTail then (none, dev)
  else (some (dev.eventQueue dev.eqTail), { dev with eqTail := dev.eqTail + 1 })

def touchDrvPoll (dev : TouchDev ε) (report : List ε) : Option ε × TouchDev ε :=
  touchGetEvent (touchPoll dev report)

inductive TouchCall (ε : Type) where
  | poll (report : List ε)
  | drvPoll (report : List ε)
  | getEvent

def touchStep (dev : TouchDev ε) : TouchCall ε → TouchDev ε
  | .poll report => touchPoll dev report
  | .drvPoll report => (touchDrvPoll dev report).2
  | .getEvent => (touchGetEvent dev).2

def touchInit (queue : UInt8 → ε) : TouchDev ε := ⟨queue, 0, 0, [], []⟩

/-! ## The queue -/

def Queued (queue : UInt8 → ε) (head : UInt8) : UInt8 → List ε → Prop
  | tail, [] => tail = head
  | tail, e :: es => tail ≠ head ∧ queue tail = e ∧ Queued queue head (tail + 1) es

section Queue

variable {queue : UInt8 → ε} {head tail : UInt8} {es : List ε} {dev : TouchDev ε}

theorem Queued.length (h : Queued queue head tail es) : es.length = (head - tail).toNat := by
  induction es generalizing tail with
  | nil => simp [show tail = head from h]
  | cons e es ih =>
    have hne : tail.toNat ≠ head.toNat := fun heq => h.1 (UInt8.toNat_inj.mp heq)
    have hlt := head.toNat_lt
    have hlt' := tail.toNat_lt
    rw [length_cons, ih h.2.2, UInt8.toNat_sub, UInt8.toNat_sub, UInt8.toNat_add, UInt8.toNat_one]
    omega

theorem Queued.scan (h : Queued queue head tail es) : scan queue head 256 tail = es := by
  have hlen : es.length < 256 := h.length ▸ (head - tail).toNat_lt
  generalize 256 = fuel at hlen
  induction es generalizing tail fuel with
  | nil =>
    cases fuel with
    | zero => rfl
    | succ fuel => exact if_neg (not_not.mpr h)
  | cons e es ih =>
    cases fuel with
    | zero => cases hlen
    | succ fuel => rw [Touch.scan, if_pos h.1, h.2.1, ih h.2.2 fuel (Nat.lt_of_succ_lt_succ hlen)]

theorem Queued.push (h : Queued queue head tail es) (hroom : head + 1 ≠ tail) (evt : ε) :
    Queued (fun i => if i = head then evt else queue i) (head + 1) tail (es ++ [evt]) := by
  induction es generalizing tail with
  | nil =>
    obtain rfl : tail = head := h
    exact ⟨hroom.symm, if_pos rfl, rfl⟩
  | cons e es ih =>
    refine ⟨hroom.symm, (if_neg h.1).trans h.2.1, ih h.2.2 fun heq => h.1 ?_⟩
    exact (UInt8.add_left_inj 1).mp heq.symm

def TouchDev.Holds (dev : TouchDev ε) (es : List ε) : Prop :=
  Queued dev.eventQueue dev.eqHead dev.eqTail es

theorem Queued.full_iff (h : Queued queue head tail es) : head + 1 = tail ↔ 255 ≤ es.length := by
  have hlt := head.toNat_lt
  have hlt' := tail.toNat_lt
  rw [h.length, ← UInt8.toNat_inj, UInt8.toNat_sub, UInt8.toNat_add, UInt8.toNat_one]
  omega

/-- The events of a report are stored while there is room for them. -/
theorem TouchDev.Holds.report (report : List ε) (h : dev.Holds es) :
    let new := report.take (255 - es.length)
    (report.foldl touchPushEvent dev).Holds (es ++ new) ∧
      (report.foldl touchPushEvent dev).enqueued = dev.enqueued ++ new ∧
      (report.foldl touchPushEvent dev).passed = dev.passed := by
  induction report generalizing dev es with
  | nil => exact ⟨by simpa using h, by simp, rfl⟩
  | cons evt report ih =>
    rw [foldl_cons]
    by_cases hfull : dev.eqHead + 1 = dev.eqTail
    · rw [show touchPushEvent dev evt = dev from if_pos hfull]
      simpa [Nat.sub_eq_zero_of_le (h.full_iff.mp hfull)] using ih h
    · have hpush : (touchPushEvent dev evt).Holds (es ++ [evt]) := by
        rw [touchPushEvent, if_neg hfull]
        exact h.push hfull evt
      have hroom : 255 - es.length = 255 - (es ++ [evt]).length + 1 := by
        have := h.full_iff.not.mp hfull
        rw [length_append, length_singleton]
        omega
      obtain ⟨hholds, hnew, hpassed⟩ := ih hpush
      rw [touchPushEvent, if_neg hfull] at hholds hnew hpassed ⊢
      rw [hroom, take_succ_cons]
      exact ⟨by simpa using hholds, by simpa using hnew, hpassed⟩

theorem TouchDev.Holds.poll (report : List ε) (h : dev.Holds es) :
    let new := report.take (255 - es.length)
    (touchPoll dev report).Holds (es ++ new) ∧
      (touchPoll dev report).enqueued = dev.enqueued ++ new ∧
      (touchPoll dev report).passed = dev.passed ++ (es ++ new) := by
  obtain ⟨hholds, hnew, hpassed⟩ := h.report report
  refine ⟨hholds, hnew, ?_⟩
  rw [touchPoll, hpassed, Queued.scan hholds]

theorem TouchDev.Holds.getEvent (h : dev.Holds es) :
    (touchGetEvent dev).2.Holds es.tail ∧ (touchGetEvent dev).2.enqueued = dev.enqueued ∧
      (touchGetEvent dev).2.passed = dev.passed := by
  cases es with
  | nil =>
    rw [touchGetEvent, if_pos (show dev.eqHead = dev.eqTail from Eq.symm h)]
    exact ⟨h, rfl, rfl⟩
  | cons e es =>
    rw [touchGetEvent, if_neg (fun heq => h.1 heq.symm)]
    exact ⟨h.2.2, rfl, rfl⟩

end Queue

variable {dev : TouchDev ε} {es : List ε}

/-! ## Gestures -/

def TouchCall.report : TouchCall ε → Option (List ε)
  | .poll report => some report
  | .drvPoll report => some report
  | .getEvent => none

def PollsEmpty (dev : TouchDev ε) (call : TouchCall ε) : Prop :=
  call.report ≠ none → dev.eqHead = dev.eqTail

theorem TouchDev.Holds.step (h : dev.Holds es) (call : TouchCall ε) :
    (∃ es', (touchStep dev call).Holds es') ∧
      ((call.report = none ∧ (touchStep dev call).enqueued = dev.enqueued ∧
          (touchStep dev call).passed = dev.passed) ∨
        (call.report ≠ none ∧ ∃ new, (touchStep dev call).enqueued = dev.enqueued ++ new ∧
          (touchStep dev call).passed = dev.passed ++ (es ++ new))) := by
  cases call with
  | poll report =>
    obtain ⟨hholds, hnew, hpassed⟩ := h.poll report
    exact ⟨⟨_, hholds⟩, .inr ⟨Option.some_ne_none _, _, hnew, hpassed⟩⟩
  | drvPoll report =>
    obtain ⟨hholds, hnew, hpassed⟩ := h.poll report
    obtain ⟨hrest, hnew', hpassed'⟩ := hholds.getEvent
    exact ⟨⟨_, hrest⟩, .inr ⟨Option.some_ne_none _, _, hnew'.trans hnew, hpassed'.trans hpassed⟩⟩
  | getEvent =>
    obtain ⟨hrest, hnew, hpassed⟩ := h.getEvent
    exact ⟨⟨_, hrest⟩, .inl ⟨rfl, hnew, hpassed⟩⟩

theorem TouchDev.Holds.empty_iff (h : dev.Holds es) :
    dev.eqHead = dev.eqTail ↔ es = [] := by
  cases es with
  | nil => exact iff_of_true (Eq.symm h) rfl
  | cons e es => exact iff_of_false (fun heq => h.1 heq.symm) (cons_ne_nil _ _)

/-- Each event is passed once and in order exactly if every poll finds the queue empty. -/
theorem gestures_once_iff (queue : UInt8 → ε) (calls : List (TouchCall ε)) :
    (∀ k, (run touchStep (touchInit queue) (calls.take k)).passed
        = (run touchStep (touchInit queue) (calls.take k)).enqueued) ↔
      Steps touchStep PollsEmpty (touchInit queue) calls := by
  refine forall_take_iff_steps
    (I := fun dev : TouchDev ε => dev.passed = dev.enqueued ∧ ∃ es, dev.Holds es)
    (fun _ h => h.1) ?_ ?_ calls _ ⟨rfl, [], rfl⟩
  · rintro dev call ⟨heq, es, h⟩ hempty
    obtain ⟨hholds, hstep⟩ := h.step call
    refine ⟨?_, hholds⟩
    rcases hstep with ⟨-, hnew, hpassed⟩ | ⟨hpolls, new, hnew, hpassed⟩
    · rw [hpassed, hnew, heq]
    · rw [hpassed, hnew, heq, h.empty_iff.mp (hempty hpolls), List.nil_append]
  · rintro dev call ⟨heq, es, h⟩ hfound hpassed
    obtain ⟨-, ⟨hnone, -⟩ | ⟨hpolls, new, hnew, hpassed'⟩⟩ := h.step call
    · exact hfound fun hsome => absurd hnone hsome
    · rw [hpassed', hnew, heq, List.append_cancel_left_eq, List.append_left_eq_self] at hpassed
      exact hfound fun _ => h.empty_iff.mpr hpassed

/-- Two polls, and no read between them. -/
theorem touchPoll_passes_twice :
    (touchPoll (touchPoll (touchInit fun _ => 0) [1]) [2]).passed = [1, 1, 2] ∧
      (touchPoll (touchPoll (touchInit fun _ => 0) [1]) [2]).enqueued = [1, 2] := by
  decide

/-! ## Events read -/

def TouchCall.reply (dev : TouchDev ε) : TouchCall ε → Option ε
  | .poll _ => none
  | .drvPoll report => (touchDrvPoll dev report).1
  | .getEvent => (touchGetEvent dev).1

def replies : TouchDev ε → List (TouchCall ε) → List ε
  | _, [] => []
  | dev, call :: calls => (call.reply dev).toList ++ replies (touchStep dev call) calls

theorem TouchDev.Holds.first (h : dev.Holds es) :
    (touchGetEvent dev).1.toList ++ es.tail = es := by
  cases es with
  | nil =>
    rw [touchGetEvent, if_pos (show dev.eqHead = dev.eqTail from Eq.symm h)]
    rfl
  | cons e es =>
    rw [touchGetEvent, if_neg (fun heq => h.1 heq.symm)]
    exact congrArg (· :: es) h.2.1

theorem TouchDev.Holds.reply (h : dev.Holds es) (call : TouchCall ε) :
    let new := (call.report.getD []).take (255 - es.length)
    ∃ es', (touchStep dev call).Holds es' ∧
      (touchStep dev call).enqueued = dev.enqueued ++ new ∧
      (call.reply dev).toList ++ es' = es ++ new := by
  cases call with
  | poll report =>
    obtain ⟨hholds, hnew, -⟩ := h.poll report
    exact ⟨_, hholds, hnew, rfl⟩
  | drvPoll report =>
    obtain ⟨hholds, hnew, -⟩ := h.poll report
    exact ⟨_, hholds.getEvent.1, hholds.getEvent.2.1.trans hnew, hholds.first⟩
  | getEvent =>
    simp only [TouchCall.report, Option.getD_none, take_nil, append_nil]
    exact ⟨_, h.getEvent.1, h.getEvent.2.1, h.first⟩

theorem TouchDev.Holds.replies (calls : List (TouchCall ε)) {seen : List ε} (h : dev.Holds es)
    (heq : dev.enqueued = seen ++ es) : ∃ es', (run touchStep dev calls).Holds es' ∧
      (run touchStep dev calls).enqueued = seen ++ replies dev calls ++ es' := by
  induction calls generalizing dev es seen with
  | nil => exact ⟨es, h, by simpa [Touch.replies] using heq⟩
  | cons call calls ih =>
    obtain ⟨es', hholds, hnew, hreply⟩ := h.reply call
    have hstep : (touchStep dev call).enqueued = seen ++ (call.reply dev).toList ++ es' := by
      rw [hnew, heq, append_assoc, ← hreply, ← append_assoc]
    obtain ⟨last, hlast, hall⟩ := ih hholds hstep
    exact ⟨last, hlast, by simpa [Touch.replies] using hall⟩

/-- In every order of calls the events stored are those read, in order, and then those waiting; and
the next call stores of its report what 255 places leave room for. -/
theorem enqueued_eq_replies (queue : UInt8 → ε) (calls : List (TouchCall ε)) :
    let dev := run touchStep (touchInit queue) calls
    let waiting := scan dev.eventQueue dev.eqHead 256 dev.eqTail
    dev.enqueued = replies (touchInit queue) calls ++ waiting ∧
      ∀ call, (touchStep dev call).enqueued =
        dev.enqueued ++ (call.report.getD []).take (255 - waiting.length) := by
  intro dev waiting
  have hinit : (touchInit queue).Holds [] := rfl
  obtain ⟨es, hholds, heq⟩ := hinit.replies calls (rfl : _ = [] ++ [])
  have hwaiting : waiting = es := Queued.scan hholds
  rw [hwaiting]
  refine ⟨heq, fun call => ?_⟩
  obtain ⟨-, -, hstored, -⟩ := hholds.reply call
  exact hstored

end AlJefra.Input.Touch
