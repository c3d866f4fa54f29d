/-
The clip stack and the drawing primitives of `gui/gui.c`. A drawing call is modelled by the
pixels it writes, in order. Coordinates are 32-bit and their sums wrap.
-/
import AlJefra.Lib.Run

namespace AlJefra.Gui

structure Rect where
  x : Int32
  y : Int32
  w : Int32
  h : Int32
  deriving DecidableEq, Repr

/-- The pixels of a rectangle; its far corner may lie beyond the range of `int`. -/
def Rect.Covers (r : Rect) (px py : Int) : Prop :=
  (px ≥ r.x.toInt ∧ px < r.x.toInt + r.w.toInt) ∧ py ≥ r.y.toInt ∧ py < r.y.toInt + r.h.toInt

instance (r : Rect) (px py : Int) : Decidable (r.Covers px py) :=
  inferInstanceAs (Decidable (_ ∧ _))

def Rect.clipTest (c : Rect) (px py : Int32) : Bool :=
  px ≥ c.x && px < c.x + c.w && py ≥ c.y && py < c.y + c.h

def rectIntersect (a b : Rect) : Option Rect :=
  let x1 := if a.x > b.x then a.x else b.x
  let y1 := if a.y > b.y then a.y else b.y
  let x2a := a.x + a.w
  let x2b := b.x + b.w
  let x2 := if x2a < x2b then x2a else x2b
  let y2a := a.y + a.h
  let y2b := b.y + b.h
  let y2 := if y2a < y2b then y2a else y2b
  if x1 ≥ x2 ∨ y1 ≥ y2 then none else some ⟨x1, y1, x2 - x1, y2 - y1⟩

def guiClipStackMax : Nat := 16

structure Display where
  w : Int32
  h : Int32
  clip : Rect
  below : List Rect

def Display.screen (g : Display) : Rect := ⟨0, 0, g.w, g.h⟩
def guiInit (width height : Int32) : Display := ⟨width, height, ⟨0, 0, width, height⟩, []⟩

def guiPushClip (g : Display) (r : Rect) : Display :=
  if g.below.length ≥ guiClipStackMax - 1 then g
  else { g with clip := (rectIntersect r g.clip).getD ⟨0, 0, 0, 0⟩, below := g.clip :: g.below }

def guiPopClip (g : Display) : Display :=
  match g.below with
  | [] => g
  | r :: rest => { g with clip := r, below := rest }

def guiResetClip (g : Display) : Display := { g with clip := g.screen, below := [] }

/-! ## Drawing -/

structure Pixel where
  x : Int
  y : Int
  color : UInt32
  deriving DecidableEq

def guiPutpixel (g : Display) (x y : Int32) (color : UInt32) : List Pixel :=
  if x < 0 ∨ y < 0 ∨ x ≥ g.w ∨ y ≥ g.h then []
  else if ¬ g.clip.clipTest x y then []
  else [⟨x.toInt, y.toInt, color⟩]

def guiDrawRect (g : Display) (x y w h : Int32) (color : UInt32) : List Pixel :=
  match rectIntersect ⟨x, y, w, h⟩ g.clip with
  | none => []
  | some clipped =>
    (List.range clipped.h.toInt.toNat).flatMap fun (py : Nat) =>
      (List.range clipped.w.toInt.toNat).map fun (px : Nat) =>
        ⟨clipped.x.toInt + px, clipped.y.toInt + py, color⟩

def guiDrawRectBorder (g : Display) (x y w h : Int32) (border fill : UInt32) : List Pixel :=
  guiDrawRect g (x + 1) (y + 1) (w - 2) (h - 2) fill ++ guiDrawRect g x y w 1 border ++
    guiDrawRect g x (y + h - 1) w 1 border ++ guiDrawRect g x y 1 h border ++
    guiDrawRect g (x + w - 1) y 1 h border

section Text

variable (guiFont : Nat → Nat → UInt8) (g : Display)

def glyph (c : UInt8) : Nat → UInt8 :=
  if c ≥ 0x20 ∧ c ≤ 0x7E then guiFont (c.toNat - 0x20) else guiFont 0

-- `paint` is the colour written for a set or a clear bit of the glyph, if any.
def drawGlyph (paint : Bool → Option UInt32) (x y : Int32) (c : UInt8) : List Pixel :=
  (List.range 16).flatMap fun (row : Nat) =>
    let sy := y + .ofNat row
    if sy < 0 ∨ sy ≥ g.h then []
    else (List.range 8).flatMap fun (col : Nat) =>
      let sx := x + .ofNat col
      if sx < 0 ∨ sx ≥ g.w then []
      else if ¬ g.clip.clipTest sx sy then []
      else
        let bits := glyph guiFont c row
        (paint (bits &&& (0x80 >>> UInt8.ofNat col) ≠ 0)).toList.map (⟨sx.toInt, sy.toInt, ·⟩)

def guiDrawChar (x y : Int32) (c : UInt8) (fg bg : UInt32) : List Pixel :=
  drawGlyph guiFont g (fun set => some (if set then fg else bg)) x y c

def guiDrawCharTransparent (x y : Int32) (c : UInt8) (fg : UInt32) : List Pixel :=
  drawGlyph guiFont g (fun set => if set then some fg else none) x y c

def guiDrawText (x y : Int32) (text : List UInt8) (color : UInt32) : List Pixel :=
  go x y text
where
  go (cx y : Int32) : List UInt8 → List Pixel
    | [] => []
    | c :: text =>
      if c = 0x0A then go x (y + 16) text
      else guiDrawCharTransparent guiFont g cx y c color ++ go (cx + 8) y text

end Text

inductive Call where
  | pushClip (r : Rect)
  | popClip
  | resetClip
  | putpixel (x y : Int32) (color : UInt32)
  | drawRect (x y w h : Int32) (color : UInt32)
  | drawRectBorder (x y w h : Int32) (border fill : UInt32)
  | drawChar (x y : Int32) (c : UInt8) (fg bg : UInt32)
  | drawCharTransparent (x y : Int32) (c : UInt8) (fg : UInt32)
  | drawText (x y : Int32) (text : List UInt8) (color : UInt32)

def step (guiFont : Nat → Nat → UInt8) (g : Display) : Call → Display × List Pixel
  | .pushClip r => (guiPushClip g r, [])
  | .popClip => (guiPopClip g, [])
  | .resetClip => (guiResetClip g, [])
  | .putpixel x y color => (g, guiPutpixel g x y color)
  | .drawRect x y w h color => (g, guiDrawRect g x y w h color)
  | .drawRectBorder x y w h border fill => (g, guiDrawRectBorder g x y w h border fill)
  | .drawChar x y c fg bg => (g, guiDrawChar guiFont g x y c fg bg)
  | .drawCharTransparent x y c fg => (g, guiDrawCharTransparent guiFont g x y c fg)
  | .drawText x y text color => (g, guiDrawText guiFont g x y text color)

def displayAfter (guiFont : Nat → Nat → UInt8) (width height : Int32) (calls : List Call) :
    Display :=
  Lib.run (fun g c => (step guiFont g c).1) (guiInit width height) calls

end AlJefra.Gui
