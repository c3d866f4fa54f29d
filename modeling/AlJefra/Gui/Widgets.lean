/-
Where the widgets of `gui/widgets.c` are on the screen. Each widget stores the absolute position
that the last `widget_compute_abs` gave it; positions are 32-bit and wrap. They are the sums of
the offsets, whatever calls came before, exactly in trees whose parents are all at offset (0, 0)
and, where they can be drawn, under no title.
-/
import Mathlib.Data.List.Basic

namespace AlJefra.Gui

open List

structure WidgetInfo where
  x : Int32
  y : Int32
  w : Int32
  h : Int32
  visible : Bool
  titled : Bool

inductive Widget where
  | mk (info : WidgetInfo) (children : List Widget)

abbrev Path := List Nat
abbrev Positions := Path → Int32 × Int32

def titleHeight (p : WidgetInfo) : Int32 := if p.titled then 28 else 0

-- The ancestors are listed from the parent up.
def absOf (abs : Positions) (ancestors : List (Path × WidgetInfo)) (w : WidgetInfo) :
    Int32 × Int32 :=
  ancestors.foldl (fun a p => (a.1 + (abs p.1).1, a.2 + (abs p.1).2 + titleHeight p.2)) (w.x, w.y)

def widgetComputeAbs (abs : Positions) (path : Path) (ancestors : List (Path × WidgetInfo))
    (w : WidgetInfo) : Positions :=
  fun q => if q = path then absOf abs ancestors w else abs q

mutual

def widgetDraw (path : Path) (ancestors : List (Path × WidgetInfo)) (abs : Positions) :
    Widget → Positions
  | .mk w children =>
    if w.visible then
      drawChildren path ((path, w) :: ancestors) 0 (widgetComputeAbs abs path ancestors w) children
    else abs

def drawChildren (path : Path) (ancestors : List (Path × WidgetInfo)) (i : Nat)
    (abs : Positions) : List Widget → Positions
  | [] => abs
  | c :: cs => drawChildren path ancestors (i + 1) (widgetDraw (i :: path) ancestors abs c) cs

end

section HitTest

variable (x y : Int32)

def widgetContains (w : WidgetInfo) (a : Int32 × Int32) : Bool :=
  x ≥ a.1 ∧ x < a.1 + w.w ∧ y ≥ a.2 ∧ y < a.2 + w.h

mutual

def widgetHitTest (path : Path) (ancestors : List (Path × WidgetInfo)) (abs : Positions) :
    Widget → Option Path × Positions
  | .mk w children =>
    if w.visible then
      let abs := widgetComputeAbs abs path ancestors w
      if widgetContains x y w (abs path) then
        match hitChildren path ((path, w) :: ancestors) 0 abs children with
        | (some hit, abs) => (some hit, abs)
        | (none, abs) => (some path, abs)
      else (none, abs)
    else (none, abs)

-- The last child is tested first.
def hitChildren (path : Path) (ancestors : List (Path × WidgetInfo)) (i : Nat) (abs : Positions) :
    List Widget → Option Path × Positions
  | [] => (none, abs)
  | c :: cs =>
    match hitChildren path ancestors (i + 1) abs cs with
    | (some hit, abs) => (some hit, abs)
    | (none, abs) => widgetHitTest (i :: path) ancestors abs c

end

end HitTest

def locate (root : Widget) : Path → Option (List (Path × WidgetInfo) × Widget)
  | [] => some ([], root)
  | i :: path =>
    match locate root path with
    | none => none
    | some (ancestors, .mk w children) => children[i]?.map fun c => ((path, w) :: ancestors, c)

inductive Reached (root : Widget) : Positions → Prop where
  | start : Reached root fun _ => (0, 0)
  | draw {abs path ancestors w} (h : Reached root abs)
      (hw : locate root path = some (ancestors, w)) :
      Reached root (widgetDraw path ancestors abs w)
  | hitTest {abs path ancestors w} (x y : Int32) (h : Reached root abs)
      (hw : locate root path = some (ancestors, w)) :
      Reached root (widgetHitTest x y path ancestors abs w).2

def origin (ancestors : List (Path × WidgetInfo)) (w : WidgetInfo) : Int32 × Int32 :=
  (w.x + (ancestors.map fun p => p.2.x).sum,
    w.y + (ancestors.map fun p => p.2.y + titleHeight p.2).sum)

/-! ## Where the positions are right -/

section Origin

variable {root : Widget} {path : Path} {ancestors : List (Path × WidgetInfo)} {w : WidgetInfo}

theorem absOf_eq (abs : Positions) (ancestors : List (Path × WidgetInfo)) (w : WidgetInfo) :
    absOf abs ancestors w = (w.x + (ancestors.map fun p => (abs p.1).1).sum,
      w.y + (ancestors.map fun p => (abs p.1).2 + titleHeight p.2).sum) := by
  have hfold : ∀ a : Int32 × Int32,
      ancestors.foldl (fun a p => (a.1 + (abs p.1).1, a.2 + (abs p.1).2 + titleHeight p.2)) a
        = (a.1 + (ancestors.map fun p => (abs p.1).1).sum,
          a.2 + (ancestors.map fun p => (abs p.1).2 + titleHeight p.2).sum) := by
    induction ancestors with
    | nil => intro a; simp
    | cons p ps ih =>
      intro a
      rw [foldl_cons, ih]
      simp only [map_cons, sum_cons, Int32.add_assoc]
  exact hfold _

theorem locate_ancestor {v} (hv : locate root path = some (ancestors, v)) :
    ∀ p ∈ ancestors, ∃ above children,
      locate root p.1 = some (above, .mk p.2 children) ∧ children ≠ [] := by
  induction path generalizing ancestors v with
  | nil =>
    obtain ⟨rfl, -⟩ := Prod.mk.inj (Option.some.inj hv)
    simp
  | cons i path ih =>
    rw [locate] at hv
    split at hv
    · cases hv
    · rename_i above w children hw
      obtain ⟨c, hc, heq⟩ := Option.map_eq_some_iff.mp hv
      obtain ⟨rfl, -⟩ := Prod.mk.inj heq
      intro p hp
      rcases mem_cons.mp hp with rfl | hp
      · exact ⟨above, children, hw, by rintro rfl; simp at hc⟩
      · exact ih hw p hp

theorem absOf_origin {abs : Positions} (h : ∀ p ∈ ancestors, abs p.1 = (p.2.x, p.2.y)) :
    absOf abs ancestors w = origin ancestors w := by
  have hxs : (ancestors.map fun p => (abs p.1).1) = ancestors.map fun p => p.2.x :=
    map_congr_left fun p hp => by rw [h p hp]
  have hys : (ancestors.map fun p => (abs p.1).2 + titleHeight p.2)
      = ancestors.map fun p => p.2.y + titleHeight p.2 :=
    map_congr_left fun p hp => by rw [h p hp]
  rw [absOf_eq, hxs, hys, origin]

-- The positions of a widget and of its child differ by what the widget stores.
theorem stored_of_origin {abs : Positions} {c : WidgetInfo}
    (hw : absOf abs ancestors w = origin ancestors w)
    (hc : absOf abs ((path, w) :: ancestors) c = origin ((path, w) :: ancestors) c) :
    abs path = (w.x, w.y) := by
  simp only [absOf_eq, origin, map_cons, sum_cons, Prod.mk.injEq] at hw hc
  exact Prod.ext (by grind) (by grind)

variable (root) in
/-- Whatever has children lies at offset (0, 0) and, if it can be drawn, under no titles. -/
def ParentsAtOrigin : Prop :=
  ∀ path ancestors w children, locate root path = some (ancestors, .mk w children) → children ≠ [] →
    (w.x, w.y) = (0, 0) ∧
      (w.visible = true → (ancestors.map fun p => titleHeight p.2).sum = 0)

variable (root) in
def StoredAtOrigin (abs : Positions) : Prop :=
  ∀ path ancestors w children, locate root path = some (ancestors, .mk w children) → children ≠ [] →
    abs path = (0, 0)

theorem absOf_zero {abs : Positions} (h : ∀ p ∈ ancestors, abs p.1 = (0, 0)) :
    absOf abs ancestors w = (w.x, w.y + (ancestors.map fun p => titleHeight p.2).sum) := by
  have hxs : (ancestors.map fun p => (abs p.1).1) = ancestors.map fun _ => 0 :=
    map_congr_left fun p hp => by rw [h p hp]
  have hys : (ancestors.map fun p => (abs p.1).2 + titleHeight p.2)
      = ancestors.map fun p => titleHeight p.2 :=
    map_congr_left fun p hp => by rw [h p hp]; exact Int32.zero_add _
  have hzero : ∀ l : List (Path × WidgetInfo), (l.map fun _ => (0 : Int32)).sum = 0 := by
    intro l
    induction l with
    | nil => rfl
    | cons p l ih => rw [map_cons, sum_cons, ih]; rfl
  rw [absOf_eq, hxs, hys, hzero, Int32.add_zero]

theorem StoredAtOrigin.above {abs : Positions} {v} (h : StoredAtOrigin root abs)
    (hv : locate root path = some (ancestors, v)) : ∀ p ∈ ancestors, abs p.1 = (0, 0) := by
  intro p hp
  obtain ⟨above, children, hloc, hne⟩ := locate_ancestor hv p hp
  exact h _ _ _ _ hloc hne

theorem StoredAtOrigin.computeAbs {abs : Positions} {children} (hroot : ParentsAtOrigin root)
    (h : StoredAtOrigin root abs) (hw : locate root path = some (ancestors, .mk w children))
    (hvisible : w.visible = true) :
    StoredAtOrigin root (widgetComputeAbs abs path ancestors w) := by
  intro path' ancestors' w' children' hw' hne
  unfold widgetComputeAbs
  split
  · next heq =>
    subst heq
    rw [hw, Option.some.injEq, Prod.mk.injEq, Widget.mk.injEq] at hw'
    obtain ⟨rfl, rfl, rfl⟩ := hw'
    obtain ⟨hxy, htitles⟩ := hroot _ _ _ _ hw hne
    rw [absOf_zero (h.above hw), htitles hvisible, Int32.add_zero, hxy]
  · exact h _ _ _ _ hw' hne

theorem locate_child {c : Widget} {i : Nat} {children}
    (hw : locate root path = some (ancestors, .mk w children)) (hc : children[i]? = some c) :
    locate root (i :: path) = some ((path, w) :: ancestors, c) := by
  rw [locate, hw]
  simp only [hc, Option.map_some]

mutual

theorem StoredAtOrigin.draw (hroot : ParentsAtOrigin root) {path ancestors abs} :
    ∀ w : Widget, locate root path = some (ancestors, w) → StoredAtOrigin root abs →
      StoredAtOrigin root (widgetDraw path ancestors abs w)
  | .mk w children, hw, h => by
    rw [widgetDraw]
    split
    · next hvisible =>
      exact drawChildren hroot children (fun i c hc => by simpa using locate_child hw hc)
        (h.computeAbs hroot hw hvisible)
    · exact h

theorem StoredAtOrigin.drawChildren (hroot : ParentsAtOrigin root) {path ancestors k abs} :
    ∀ cs : List Widget,
      (∀ i c, cs[i]? = some c → locate root ((k + i) :: path) = some (ancestors, c)) →
      StoredAtOrigin root abs → StoredAtOrigin root (Gui.drawChildren path ancestors k abs cs)
  | [], _, h => by rwa [Gui.drawChildren]
  | c :: cs, hcs, h => by
    rw [Gui.drawChildren]
    refine drawChildren hroot cs (fun i c' hc => ?_) (draw hroot c (hcs 0 c rfl) h)
    rw [Nat.add_assoc, Nat.add_comm 1]
    exact hcs (i + 1) c' hc

end

mutual

theorem StoredAtOrigin.hitTest (hroot : ParentsAtOrigin root) {x y path ancestors abs} :
    ∀ w : Widget, locate root path = some (ancestors, w) → StoredAtOrigin root abs →
      StoredAtOrigin root (widgetHitTest x y path ancestors abs w).2
  | .mk w children, hw, h => by
    rw [widgetHitTest]
    split
    · next hvisible =>
      have habs := h.computeAbs hroot hw hvisible
      have hchildren := hitChildren hroot (x := x) (y := y) (k := 0) children
        (fun i c hc => by simpa using locate_child hw hc) habs
      dsimp only
      split
      · split <;> next heq => rwa [heq] at hchildren
      · exact habs
    · exact h

theorem StoredAtOrigin.hitChildren (hroot : ParentsAtOrigin root) {x y path ancestors k abs} :
    ∀ cs : List Widget,
      (∀ i c, cs[i]? = some c → locate root ((k + i) :: path) = some (ancestors, c)) →
      StoredAtOrigin root abs → StoredAtOrigin root (Gui.hitChildren x y path ancestors k abs cs).2
  | [], _, h => by rwa [Gui.hitChildren]
  | c :: cs, hcs, h => by
    rw [Gui.hitChildren]
    have hlater := hitChildren hroot (x := x) (y := y) (k := k + 1) cs (fun i c' hc => by
      rw [Nat.add_assoc, Nat.add_comm 1]
      exact hcs (i + 1) c' hc) h
    split
    · next heq => rwa [heq] at hlater
    · next heq =>
      rw [heq] at hlater
      exact hitTest hroot c (hcs 0 c rfl) hlater

end

theorem Reached.storedAtOrigin (hroot : ParentsAtOrigin root) {abs : Positions}
    (h : Reached root abs) :
    StoredAtOrigin root abs := by
  induction h with
  | start => exact fun _ _ _ _ _ _ => rfl
  | draw _ hw ih => exact ih.draw hroot _ hw
  | hitTest x y _ hw ih => exact ih.hitTest hroot _ hw

-- Before the first call all stored positions are (0, 0), and a hit test that misses the parent
-- computes its position alone.
theorem parentsAtOrigin_of_stored (h : ∀ path ancestors w children,
    locate root path = some (ancestors, .mk w children) → children ≠ [] →
      ∀ abs, Reached root abs → abs path = (w.x, w.y)) : ParentsAtOrigin root := by
  intro path ancestors w children hw hne
  have hxy := h _ _ _ _ hw hne _ .start
  refine ⟨hxy.symm, fun hvisible => ?_⟩
  have hmiss := h _ _ _ _ hw hne _
    (.hitTest ((absOf (fun _ => (0, 0)) ancestors w).1 + w.w) 0 .start hw)
  rw [widgetHitTest, if_pos hvisible] at hmiss
  simpa [widgetContains, widgetComputeAbs, absOf_zero] using hmiss

end Origin

/-- All positions are sums of offsets, whatever calls came before, exactly in trees with all parents
at offset (0, 0) and no titles above a parent that can be drawn. -/
theorem widgetComputeAbs_origin_iff (root : Widget) :
    (∀ path ancestors w children, locate root path = some (ancestors, .mk w children) →
      ∀ abs, Reached root abs →
        widgetComputeAbs abs path ancestors w path = origin ancestors w) ↔
          ParentsAtOrigin root := by
  simp only [widgetComputeAbs, if_true]
  constructor
  · intro h
    refine parentsAtOrigin_of_stored fun path ancestors w children hw hchildren abs habs => ?_
    obtain ⟨⟨c, cs⟩, rest, rfl⟩ := exists_cons_of_ne_nil hchildren
    exact stored_of_origin (h _ _ _ _ hw _ habs) (h _ _ _ _ (locate_child hw (i := 0) rfl) _ habs)
  · intro hroot path ancestors w children hw abs habs
    have hstored := habs.storedAtOrigin hroot
    refine absOf_origin fun p hp => ?_
    obtain ⟨above, cs, hp, hcs⟩ := locate_ancestor hw p hp
    rw [hstored _ _ _ _ hp hcs, (hroot _ _ _ _ hp hcs).1]

def atX (x : Int32) : WidgetInfo := ⟨x, 0, 9, 9, true, false⟩

/-- In a root at `x = 10`, the offset of the root counts twice. -/
theorem widgetComputeAbs_counts_twice :
    let button : Widget := .mk (atX 0) []
    let root : Widget := .mk (atX 10) [.mk (atX 0) [button]]
    let ancestors := [([0], atX 0), ([], atX 10)]
    let abs := widgetDraw [] [] (fun _ => (0, 0)) root
    Reached root abs ∧ locate root [0, 0] = some (ancestors, button) ∧
      origin ancestors (atX 0) = (10, 0) ∧
      widgetComputeAbs abs [0, 0] ancestors (atX 0) [0, 0] = (20, 0) :=
  ⟨.draw .start rfl, rfl, by decide, by decide⟩

end AlJefra.Gui
