/-
Presses and releases of buttons (`gui/widgets.c`). `pressed` is set by a mouse-down on the
button and cleared by a mouse-up on it, and by nothing else.
-/
import AlJefra.Gui.Widgets
import AlJefra.Lib.Run

namespace AlJefra.Gui

open AlJefra.Lib List Option

inductive MouseType where
  | move
  | down
  | up
  | click
  deriving DecidableEq

structure MouseEvent where
  type : MouseType
  mx : Int32
  my : Int32

abbrev Hit := MouseType × Option Path

structure Button where
  action : Bool
  enabled : Bool

structure Mouse where
  abs : Positions
  pressed : Path → Bool
  history : List Hit

variable (root : Widget) (button : Path → Option Button)

def Mouse.target (s : Mouse) (evt : MouseEvent) : Option Path :=
  (widgetHitTest evt.mx evt.my [] [] s.abs root).1

def Mouse.runs (s : Mouse) (evt : MouseEvent) : Option Path := do
  let path ← s.target root evt
  let b ← button path
  if evt.type = .up ∧ s.pressed path ∧ b.action ∧ b.enabled then some path else none

def widgetMouseEvent (s : Mouse) (evt : MouseEvent) : Mouse where
  abs := (widgetHitTest evt.mx evt.my [] [] s.abs root).2
  pressed := fun path =>
    if s.target root evt = some path ∧ button path ≠ none then
      if evt.type = .down then true
      else if evt.type = .up then false
      else s.pressed path
    else s.pressed path
  history := (evt.type, s.target root evt) :: s.history

/-! ## Presses that wait for a release -/

def Armed (p : Path) (history : List Hit) : Prop :=
  ∃ mid older, history = mid ++ (.down, some p) :: older ∧
    (.down, some p) ∉ mid ∧ (.up, some p) ∉ mid

theorem armed_cons {p : Path} {h : Hit} {history : List Hit} :
    Armed p (h :: history) ↔ h = (.down, some p) ∨ h ≠ (.up, some p) ∧ Armed p history := by
  constructor
  · rintro ⟨mid, older, heq, hdown, hup⟩
    cases mid with
    | nil => exact .inl (cons.inj heq).1
    | cons x mid =>
      obtain ⟨rfl, hrest⟩ := cons.inj heq
      rw [mem_cons, not_or] at hdown hup
      exact .inr ⟨fun h => hup.1 h.symm, mid, older, hrest, hdown.2, hup.2⟩
  · intro harmed
    by_cases hd : h = (.down, some p)
    · exact ⟨[], history, by rw [hd]; rfl, not_mem_nil, not_mem_nil⟩
    · obtain ⟨hne, mid, older, rfl, hdown, hup⟩ := harmed.resolve_left hd
      exact ⟨h :: mid, older, rfl, by simp [Ne.symm hd, hdown], by simp [Ne.symm hne, hup]⟩

def Mouse.Tracks (s : Mouse) : Prop :=
  ∀ p, button p ≠ none → (s.pressed p = true ↔ Armed p s.history)

theorem Mouse.Tracks.step {s : Mouse} (h : s.Tracks button) (evt : MouseEvent) :
    (widgetMouseEvent root button s evt).Tracks button := by
  intro p hp
  have hs := h p hp
  simp only [widgetMouseEvent, armed_cons, Prod.mk.injEq]
  by_cases ht : s.target root evt = some p
  · cases htype : evt.type <;> simp [ht, hs, hp]
  · simp [ht, hs]

/-! ## Clicks -/

/-- The action of a button runs only if the last mouse-down hit it. -/
def ClickMatches (s : Mouse) (evt : MouseEvent) : Prop :=
  ∀ p, s.runs root button evt = some p →
    s.history.find? (fun h => h.1 = .down) = some (.down, some p)

/-- No mouse-down came between the press and the release of a button. -/
def Uninterrupted (s : Mouse) (evt : MouseEvent) : Prop :=
  ∀ p mid older b, evt.type = .up → s.target root evt = some p → button p = some b →
    b.action = true → b.enabled = true → s.history = mid ++ (.down, some p) :: older →
      (.down, some p) ∉ mid → (.up, some p) ∉ mid → ∀ q, (.down, q) ∉ mid

theorem clickMatches_iff {s : Mouse} (hs : s.Tracks button) (evt : MouseEvent) :
    ClickMatches root button s evt ↔ Uninterrupted root button s evt := by
  constructor
  · intro h p mid older b hup ht hb hact hen heq hdown hmid q hq
    have hpressed : s.pressed p = true := (hs p (by simp [hb])).mpr ⟨mid, older, heq, hdown, hmid⟩
    have hlast := h p (by simp [Mouse.runs, ht, hb, hup, hpressed, hact, hen])
    rw [heq, find?_append] at hlast
    cases hfind : mid.find? (fun h => h.1 = .down) with
    | none => simpa using find?_eq_none.mp hfind _ hq
    | some x =>
      rw [hfind, some_or, some_inj] at hlast
      exact hdown (hlast ▸ mem_of_find?_eq_some hfind)
  · intro h p hruns
    simp only [Mouse.runs, bind_eq_bind, bind_eq_some_iff] at hruns
    obtain ⟨p', ht, b, hb, hite⟩ := hruns
    obtain ⟨⟨hup, hpressed, hact, hen⟩, hp⟩ := ite_none_right_eq_some.mp hite
    obtain rfl := some.inj hp
    obtain ⟨mid, older, heq, hdown, hmid⟩ := (hs p' (by simp [hb])).mp hpressed
    have hnone := h p' mid older b hup ht hb hact hen heq hdown hmid
    have hfind : mid.find? (fun h => h.1 = .down) = none := by
      refine find?_eq_none.mpr fun x hx hd => ?_
      exact hnone x.2 (by rwa [← of_decide_eq_true hd])
    rw [heq, find?_append, hfind]
    rfl

/-- In every run, clicks match exactly if no press is interrupted. -/
theorem clicks_match_iff (abs : Positions) (events : List MouseEvent) :
    Steps (widgetMouseEvent root button) (ClickMatches root button)
      ⟨abs, fun _ => false, []⟩ events ↔
      Steps (widgetMouseEvent root button) (Uninterrupted root button) ⟨abs, fun _ => false, []⟩
        events := by
  refine steps_congr_of_invariant (P := Mouse.Tracks button)
    (fun s evt hs => hs.step root button evt)
    (fun s evt hs => clickMatches_iff root button hs evt) events _ ?_
  intro p _
  simp [Armed]

def twoButtons : Widget :=
  .mk ⟨0, 0, 20, 10, true, false⟩
    [.mk ⟨0, 0, 10, 10, true, false⟩ [], .mk ⟨10, 0, 10, 10, true, false⟩ []]

/-- Dragged from the left button to the right one and back: the left action runs. -/
theorem click_after_drag :
    let s := run (widgetMouseEvent twoButtons fun _ => some ⟨true, true⟩)
      ⟨fun _ => (0, 0), fun _ => false, []⟩ [⟨.down, 5, 5⟩, ⟨.up, 15, 5⟩, ⟨.down, 15, 5⟩]
    s.runs twoButtons (fun _ => some ⟨true, true⟩) ⟨.up, 5, 5⟩ = some [0] ∧
      s.history.find? (fun h => h.1 = .down) = some (.down, some [1]) := by
  decide

end AlJefra.Gui
