/- What the clip stack keeps, and where drawing calls write. -/
import AlJefra.Gui.Clip

namespace AlJefra.Gui

open AlJefra.Lib List

variable {g : Display} {x y w h : Int32} {px py : Int}

/-! ## The clip stack -/

/-- The positions from `a` up to the sum `a + n` as the code has it. -/
def Span (a n : Int32) (p : Int) : Prop := a.toInt ≤ p ∧ p < (a + n).toInt

def Rect.Wraps (r : Rect) (px py : Int) : Prop := Span r.x r.w px ∧ Span r.y r.h py

/-- The sum is an `int`. -/
def Fits (a n : Int32) : Prop :=
  -2147483648 ≤ a.toInt + n.toInt ∧ a.toInt + n.toInt < 2147483648

def Rect.Fits (r : Rect) : Prop := Gui.Fits r.x r.w ∧ Gui.Fits r.y r.h

theorem toInt_add_of_fits {a n : Int32} (h : Fits a n) : (a + n).toInt = a.toInt + n.toInt := by
  unfold Fits at h
  rw [Int32.toInt_add]
  exact Int.bmod_eq_of_le (by omega) (by omega)

theorem span_meet {a m b n lo hi : Int32} (hlo : (if a > b then a else b) = lo)
    (hhi : (if a + m < b + n then a + m else b + n) = hi) (hb : 0 ≤ b.toInt) (hlt : lo < hi) :
    0 ≤ lo.toInt ∧ Fits lo (hi - lo) ∧ ∀ p, Span lo (hi - lo) p ↔ Span a m p ∧ Span b n p := by
  have hsum : lo + (hi - lo) = hi := by grind
  have hlo' : lo.toInt = max a.toInt b.toInt := by
    subst hlo
    split <;> simp only [gt_iff_lt, Int32.lt_iff_toInt_lt] at * <;> omega
  have hhi' : hi.toInt = min (a + m).toInt (b + n).toInt := by
    subst hhi
    split <;> simp only [Int32.lt_iff_toInt_lt] at * <;> omega
  have hmax := hi.toInt_lt
  rw [Int32.lt_iff_toInt_lt] at hlt
  have hsub : (hi - lo).toInt = hi.toInt - lo.toInt := by
    rw [Int32.toInt_sub]
    exact Int.bmod_eq_of_le (by omega) (by omega)
  refine ⟨by omega, ?_, fun p => ?_⟩
  · unfold Fits
    omega
  · unfold Span
    rw [hsum]
    omega

/-- What every rectangle on the clip stack keeps, whatever was pushed. -/
structure Rect.OnStack (r : Rect) : Prop where
  left : 0 ≤ r.x.toInt
  top : 0 ≤ r.y.toInt
  fits : r.Fits

theorem covers_iff_wraps {r : Rect} (h : r.Fits) : r.Covers px py ↔ r.Wraps px py := by
  simp only [Rect.Covers, Rect.Wraps, Span, toInt_add_of_fits h.1, toInt_add_of_fits h.2, ge_iff_le]

theorem rectIntersect_some {a b r : Rect} (hb : b.OnStack) (hr : rectIntersect a b = some r) :
    r.OnStack ∧ ∀ px py, r.Covers px py ↔ a.Wraps px py ∧ b.Covers px py := by
  simp only [rectIntersect] at hr
  generalize hx1 : (if a.x > b.x then a.x else b.x) = x1 at hr
  generalize hy1 : (if a.y > b.y then a.y else b.y) = y1 at hr
  generalize hx2 : (if a.x + a.w < b.x + b.w then a.x + a.w else b.x + b.w) = x2 at hr
  generalize hy2 : (if a.y + a.h < b.y + b.h then a.y + a.h else b.y + b.h) = y2 at hr
  simp only [Option.ite_none_left_eq_some, Option.some.injEq, not_or, Int32.not_le, ge_iff_le] at hr
  obtain ⟨⟨hx, hy⟩, rfl⟩ := hr
  obtain ⟨hleft, hw, hspanx⟩ := span_meet hx1 hx2 hb.left hx
  obtain ⟨htop, hh, hspany⟩ := span_meet hy1 hy2 hb.top hy
  have hfits : Rect.Fits ⟨x1, y1, x2 - x1, y2 - y1⟩ := ⟨hw, hh⟩
  refine ⟨⟨hleft, htop, hfits⟩, fun px py => ?_⟩
  rw [covers_iff_wraps hfits, covers_iff_wraps hb.fits]
  unfold Rect.Wraps
  rw [hspanx, hspany]
  exact and_and_and_comm

theorem rectIntersect_none {a b : Rect} (hb : b.OnStack) (hr : rectIntersect a b = none) :
    ¬ (a.Wraps px py ∧ b.Covers px py) := by
  unfold rectIntersect at hr
  simp only [ge_iff_le, gt_iff_lt, ite_eq_left_iff, reduceCtorEq, imp_false, not_not,
    Int32.le_iff_toInt_le] at hr
  rw [covers_iff_wraps hb.fits]
  unfold Rect.Wraps Span
  rcases hr with hr | hr <;> split at hr <;> split at hr <;>
    simp only [Int32.lt_iff_toInt_lt] at * <;> omega

theorem clip_push {a b : Rect} (hb : b.OnStack) :
    ((rectIntersect a b).getD ⟨0, 0, 0, 0⟩).OnStack ∧ ∀ px py,
      ((rectIntersect a b).getD ⟨0, 0, 0, 0⟩).Covers px py ↔ a.Wraps px py ∧ b.Covers px py := by
  cases hr : rectIntersect a b with
  | some r => exact rectIntersect_some hb hr
  | none =>
    refine ⟨⟨by decide, by decide, ⟨by decide, by decide⟩, by decide, by decide⟩, fun px py =>
      iff_of_false ?_ (rectIntersect_none hb hr)⟩
    simp only [Option.getD_none, Rect.Covers, Int32.toInt_zero]
    omega

def Display.Inside (screen : Rect) (g : Display) : Prop :=
  g.screen = screen ∧ ∀ r ∈ g.clip :: g.below, r.OnStack ∧
    ∀ px py, r.Covers px py → screen.Covers px py

variable {guiFont : Nat → Nat → UInt8} {screen : Rect}

theorem onStack_screen (w h : Int32) : (Rect.mk 0 0 w h).OnStack := by
  have hfits : ∀ n, Fits 0 n := fun n => by
    have hmin := n.le_toInt
    have hmax := n.toInt_lt
    simp only [Fits, Int32.toInt_zero]
    omega
  exact ⟨Int.le_refl 0, Int.le_refl 0, hfits w, hfits h⟩

theorem Display.Inside.step (hg : g.Inside screen) (c : Call) :
    (step guiFont g c).1.Inside screen := by
  obtain ⟨hscreen, hstack⟩ := hg
  obtain ⟨hclip, hin⟩ := hstack g.clip (by simp)
  cases c with
  | pushClip r =>
    simp only [Gui.step, guiPushClip]
    split
    · exact ⟨hscreen, hstack⟩
    · obtain ⟨hon, hcovers⟩ := clip_push (a := r) hclip
      refine ⟨hscreen, forall_mem_cons.mpr ⟨⟨hon, fun px py hpx => ?_⟩, hstack⟩⟩
      exact hin px py ((hcovers px py).mp hpx).2
  | popClip =>
    simp only [Gui.step, guiPopClip]
    split
    · exact ⟨hscreen, hstack⟩
    · next r rest hbelow =>
      refine ⟨hscreen, fun r' hr' => hstack r' ?_⟩
      rw [hbelow]
      exact mem_cons_of_mem _ hr'
  | resetClip =>
    exact ⟨hscreen, forall_mem_cons.mpr ⟨⟨onStack_screen g.w g.h, fun _ _ h => hscreen ▸ h⟩,
      forall_mem_nil _⟩⟩
  | _ => exact ⟨hscreen, hstack⟩

theorem inside_displayAfter (calls : List Call) :
    (displayAfter guiFont w h calls).Inside ⟨0, 0, w, h⟩ := by
  refine run_invariant (fun g c hg => hg.step c) calls _ ⟨rfl, ?_⟩
  simp [guiInit, onStack_screen]

/-! ## Drawing -/

def Confined (screen : Rect) (g : Display) (pixels : List Pixel) : Prop :=
  ∀ p ∈ pixels, screen.Covers p.x p.y ∧ g.clip.Covers p.x p.y

theorem Confined.append {l m : List Pixel} (hl : Confined screen g l) (hm : Confined screen g m) :
    Confined screen g (l ++ m) := by
  intro p hp
  exact (mem_append.mp hp).elim (hl p) (hm p)

theorem confined_rect (hg : g.Inside screen) (color : UInt32) :
    Confined screen g (guiDrawRect g x y w h color) := by
  intro p hp
  unfold guiDrawRect at hp
  split at hp
  · simp at hp
  · next clipped hr =>
    simp only [mem_flatMap, mem_range, mem_map] at hp
    obtain ⟨py, hpy, px, hpx, rfl⟩ := hp
    obtain ⟨hon, hscreen⟩ := hg.2 g.clip (by simp)
    have hin : clipped.Covers (clipped.x.toInt + px) (clipped.y.toInt + py) := by
      simp only [Rect.Covers]
      omega
    have hclip := (((rectIntersect_some hon hr).2 _ _).mp hin).2
    exact ⟨hscreen _ _ hclip, hclip⟩

theorem covers_of_clipTest (hg : g.Inside screen) (hclip : ¬ ¬ g.clip.clipTest x y = true) :
    screen.Covers x.toInt y.toInt ∧ g.clip.Covers x.toInt y.toInt := by
  obtain ⟨hon, hscreen⟩ := hg.2 g.clip (by simp)
  simp only [Rect.clipTest, Bool.and_eq_true, decide_eq_true_eq, ge_iff_le, Int32.le_iff_toInt_le,
    Int32.lt_iff_toInt_lt, not_not, and_assoc] at hclip
  obtain ⟨hleft, hright, htop, hbottom⟩ := hclip
  have hcovers : g.clip.Covers x.toInt y.toInt :=
    (covers_iff_wraps hon.fits).mpr ⟨⟨hleft, hright⟩, htop, hbottom⟩
  exact ⟨hscreen _ _ hcovers, hcovers⟩

theorem confined_glyph (hg : g.Inside screen) (paint : Bool → Option UInt32) (c : UInt8) :
    Confined screen g (drawGlyph guiFont g paint x y c) := by
  intro p hp
  simp only [drawGlyph, mem_flatMap, mem_ite_nil_left, mem_map] at hp
  obtain ⟨row, -, -, col, -, -, hclip, color, -, rfl⟩ := hp
  exact covers_of_clipTest hg hclip

theorem confined_text (hg : g.Inside screen) (text : List UInt8) (color : UInt32) (cx y : Int32) :
    Confined screen g (guiDrawText.go guiFont g x color cx y text) := by
  induction text generalizing cx y with
  | nil => simp [guiDrawText.go, Confined]
  | cons c text ih =>
    rw [guiDrawText.go]
    split
    · exact ih x (y + 16)
    · exact (confined_glyph hg _ c).append (ih (cx + 8) y)

/-- Whatever calls came before, a call writes inside the screen and inside the clip that is current,
also where a sum of coordinates wraps. -/
theorem step_confined (guiFont : Nat → Nat → UInt8) (width height : Int32) (before : List Call)
    (c : Call) : ∀ p ∈ (step guiFont (displayAfter guiFont width height before) c).2,
      (Rect.mk 0 0 width height).Covers p.x p.y ∧
        (displayAfter guiFont width height before).clip.Covers p.x p.y := by
  have hg : (displayAfter guiFont width height before).Inside ⟨0, 0, width, height⟩ :=
    inside_displayAfter before
  generalize displayAfter guiFont width height before = g at hg
  change Confined _ g _
  cases c with
  | putpixel x y color =>
    simp only [step, guiPutpixel, Confined, List.mem_ite_nil_left, List.mem_singleton]
    rintro p ⟨-, hclip, rfl⟩
    exact covers_of_clipTest hg hclip
  | drawRect x y w h color => exact confined_rect hg color
  | drawRectBorder x y w h border fill =>
    exact ((((confined_rect hg _).append (confined_rect hg _)).append (confined_rect hg _)).append
      (confined_rect hg _)).append (confined_rect hg _)
  | drawChar x y c fg bg =>
    simp only [step, guiDrawChar]
    exact confined_glyph hg _ c
  | drawCharTransparent x y c fg =>
    simp only [step, guiDrawCharTransparent]
    exact confined_glyph hg _ c
  | drawText x y text color => exact confined_text hg text color x y
  | _ => simp [step, Confined]

theorem step_confined_pixel : (Rect.mk 0 0 9 9).Covers 4 5 ∧
    (displayAfter (fun _ _ => 0) 9 9 [.pushClip ⟨4, 4, 9, 9⟩]).clip.Covers 4 5 :=
  step_confined (fun _ _ => 0) 9 9 [.pushClip ⟨4, 4, 9, 9⟩] (.drawRect 3 5 2 1 7) ⟨4, 5, 7⟩
    (by decide)

/-! ## Nesting -/

inductive Nested where
  | done
  | push (r : Rect) (inner rest : Nested)

def Nested.depth : Nested → Nat
  | done => 0
  | push _ inner rest => max (inner.depth + 1) rest.depth

def Nested.run (g : Display) : Nested → Display
  | done => g
  | push r inner rest => rest.run (guiPopClip (inner.run (guiPushClip g r)))

/-- `area` is the intersection of the rectangles pushed; each pop brings back the clip before its
push. -/
def Nested.Disciplined (g : Display) (area : Int → Int → Prop) : Nested → Prop
  | done => True
  | push r inner rest =>
    let pushed := guiPushClip g r
    let popped := guiPopClip (inner.run pushed)
    (∀ px py, pushed.clip.Covers px py ↔ area px py ∧ r.Covers px py) ∧
      inner.Disciplined pushed (fun px py => area px py ∧ r.Covers px py) ∧
      popped.clip = g.clip ∧ rest.Disciplined popped area

/-- The corner of each rectangle is an `int`; or neither the rectangle nor the one up to the wrapped
corner has a pixel in what is left of the screen. -/
def Nested.Exact (area : Int → Int → Prop) : Nested → Prop
  | done => True
  | push r inner rest =>
    (r.Fits ∨ ∀ px py, area px py → ¬ r.Covers px py ∧ ¬ r.Wraps px py) ∧
      inner.Exact (fun px py => area px py ∧ r.Covers px py) ∧ rest.Exact area

/-- A sum that wraps up leaves no position below it, one that wraps down has a negative size. -/
theorem not_span_of_not_fits {a n : Int32} {p : Int} (h : ¬ Fits a n) :
    ¬ (Span a n p ∧ p < a.toInt + n.toInt) := by
  have hwrap := Int.bmod_add_bdiv (a.toInt + n.toInt) (2 ^ 32)
  rw [← Int32.toInt_add] at hwrap
  have ha := a.le_toInt
  have ha' := a.toInt_lt
  have hn := n.le_toInt
  have hn' := n.toInt_lt
  have hs := (a + n).le_toInt
  have hs' := (a + n).toInt_lt
  unfold Fits at h
  unfold Span
  omega

theorem wraps_exact_iff {r : Rect} {area : Int → Int → Prop} :
    (∀ px py, r.Wraps px py ∧ area px py ↔ area px py ∧ r.Covers px py) ↔
      r.Fits ∨ ∀ px py, area px py → ¬ r.Covers px py ∧ ¬ r.Wraps px py := by
  constructor
  · intro h
    by_cases hfits : r.Fits
    · exact Or.inl hfits
    · have hnot : ∀ px py, ¬ (r.Covers px py ∧ r.Wraps px py) := by
        rintro px py ⟨hcovers, hwraps⟩
        rcases not_and_or.mp hfits with hx | hy
        · exact not_span_of_not_fits hx ⟨hwraps.1, hcovers.1.2⟩
        · exact not_span_of_not_fits hy ⟨hwraps.2, hcovers.2.2⟩
      refine Or.inr fun px py harea => ⟨fun hcovers => ?_, fun hwraps => ?_⟩
      · exact hnot px py ⟨hcovers, ((h px py).mpr ⟨harea, hcovers⟩).1⟩
      · exact hnot px py ⟨((h px py).mp ⟨hwraps, harea⟩).2, hwraps⟩
  · rintro (hfits | hnone) px py
    · rw [covers_iff_wraps hfits, and_comm]
    · exact iff_of_false (fun h => (hnone px py h.2).2 h.1) fun h => (hnone px py h.1).1 h.2

theorem Nested.disciplined {n : Nested} {area : Int → Int → Prop} (hon : g.clip.OnStack)
    (hroom : g.below.length + n.depth ≤ 15) (harea : ∀ px py, g.clip.Covers px py ↔ area px py) :
    n.run g = g ∧ (n.Disciplined g area ↔ n.Exact area) := by
  induction n generalizing g area with
  | done => exact ⟨rfl, Iff.rfl⟩
  | push r inner rest ihInner ihRest =>
    simp only [Nested.depth] at hroom
    have hpush : guiPushClip g r = { g with
        clip := (rectIntersect r g.clip).getD ⟨0, 0, 0, 0⟩, below := g.clip :: g.below } := by
      rw [guiPushClip, if_neg (by simp only [guiClipStackMax]; omega)]
    obtain ⟨hon', hcovers⟩ := clip_push (a := r) hon
    simp only [harea] at hcovers
    have hinner := fun area => @ihInner (guiPushClip g r) area (by rw [hpush]; exact hon')
      (by rw [hpush, length_cons]; omega)
    have hpop : guiPopClip (inner.run (guiPushClip g r)) = g := by
      rw [(hinner _ fun _ _ => Iff.rfl).1, hpush]
      rfl
    obtain ⟨hrest, hdisc⟩ := ihRest hon (by omega) harea
    have hexact : (∀ px py, (guiPushClip g r).clip.Covers px py ↔ area px py ∧ r.Covers px py) ↔
        r.Fits ∨ ∀ px py, area px py → ¬ r.Covers px py ∧ ¬ r.Wraps px py := by
      rw [← wraps_exact_iff, hpush]
      simp only [hcovers]
    simp only [Nested.run, Nested.Disciplined, Nested.Exact, hpop]
    refine ⟨hrest, ?_⟩
    rw [hdisc, ← hexact, true_and]
    exact and_congr_right fun h => and_congr_left fun _ => (hinner _ h).2

def chain : Nat → Nat → Nested
  | 0, 0 => .done
  | 0, m + 1 => .push ⟨0, 0, 0, 0⟩ (chain 0 m) .done
  | k + 1, m => .push ⟨0, 0, 1, 1⟩ (chain k m) .done

theorem depth_chain (k m : Nat) : (chain k m).depth = k + m := by
  induction k, m using chain.induct with
  | case1 => simp [chain, Nested.depth]
  | case2 m ih => simp [chain, Nested.depth, ih]
  | case3 k m ih =>
    simp only [chain, Nested.depth, ih]
    omega

theorem exact_chain (k m : Nat) (area : Int → Int → Prop) : (chain k m).Exact area := by
  induction k, m using chain.induct generalizing area with
  | case1 => simp [chain, Nested.Exact]
  | case2 m ih =>
    rw [chain]
    exact ⟨Or.inl (onStack_screen 0 0).fits, ih _, trivial⟩
  | case3 k m ih =>
    rw [chain]
    exact ⟨Or.inl (onStack_screen 1 1).fits, ih _, trivial⟩

theorem chain_not_disciplined {k m : Nat} {area : Int → Int → Prop} (hclip : g.clip = ⟨0, 0, 1, 1⟩)
    (hfull : g.below.length + k = 15) : ¬ (chain k (m + 1)).Disciplined g area := by
  induction k generalizing g area with
  | zero =>
    intro h
    simp only [chain, Nested.Disciplined] at h
    have hpush : guiPushClip g ⟨0, 0, 0, 0⟩ = g := if_pos (by simp only [guiClipStackMax]; omega)
    have hempty := ((h.1 0 0).mp (by rw [hpush, hclip]; decide)).2
    revert hempty
    decide
  | succ k ih =>
    intro h
    simp only [chain, Nested.Disciplined] at h
    have hpush : guiPushClip g ⟨0, 0, 1, 1⟩ = { g with
        clip := ⟨0, 0, 1, 1⟩, below := g.clip :: g.below } := by
      rw [guiPushClip, if_neg (by simp only [guiClipStackMax]; omega), hclip]
      rfl
    refine ih ?_ ?_ h.2.1
    · rw [hpush]
    · rw [hpush, length_cons]
      omega

/-- Nested clips up to depth fifteen keep the discipline exactly if no corner wraps where it shows;
from depth sixteen on clips whose corners are all in range break it. -/
theorem clips_disciplined_iff (width height : Int32) (n : Nested) :
    (n.depth ≤ 15 → (n.Disciplined (guiInit width height) (Rect.mk 0 0 width height).Covers ↔
      n.Exact (Rect.mk 0 0 width height).Covers)) ∧
    ∀ depth, 15 < depth → ∃ (width height : Int32) (n : Nested), n.depth = depth ∧
      n.Exact (Rect.mk 0 0 width height).Covers ∧
      ¬ n.Disciplined (guiInit width height) (Rect.mk 0 0 width height).Covers := by
  constructor
  · intro hn
    exact (Nested.disciplined (onStack_screen width height) (by simpa [guiInit] using hn)
      fun _ _ => Iff.rfl).2
  · intro depth hdeep
    obtain ⟨m, rfl⟩ : ∃ m, depth = 15 + (m + 1) := ⟨depth - 16, by omega⟩
    exact ⟨1, 1, chain 15 (m + 1), depth_chain 15 (m + 1), exact_chain _ _ _,
      chain_not_disciplined rfl rfl⟩

/-- At level sixteen an empty rectangle leaves the clip the whole screen; and a corner that wraps
empties the clip at level one. -/
theorem clips_sixteen_deep : (chain 15 1).depth = 16 ∧
    ¬ (chain 15 1).Disciplined (guiInit 1 1) (Rect.mk 0 0 1 1).Covers ∧
    (guiPushClip (guiInit 640 480) ⟨1, 0, 2147483647, 10⟩).clip = ⟨0, 0, 0, 0⟩ :=
  ⟨depth_chain 15 1, chain_not_disciplined rfl rfl, by decide⟩

end AlJefra.Gui
