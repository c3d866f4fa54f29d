/-
The flattened device tree parser of `drivers/bus/dt_parser.c`. Each of the four loops is a
`posLoop` over the structure block whose fuel is the number of tokens it may read, and `none` says
that it needs more.
-/
import AlJefra.Hal.Memory
import AlJefra.Lib.Scan

namespace AlJefra.Bus.Dt

open AlJefra.Hal
open AlJefra.Lib

/-! ## Reading the blob -/

def w32 (x : Nat) : Nat := x % 0x100000000

def be32 (b : Nat → UInt8) (p : Nat) : Nat :=
  (b p).toNat * 0x1000000 + (b (p + 1)).toNat * 0x10000 + (b (p + 2)).toNat * 0x100 +
    (b (p + 3)).toNat

def strLenFrom (b : Nat → UInt8) (s : Nat) : Nat → Nat → Option Nat
  | 0, _ => none
  | fuel + 1, n => if b (s + n) = 0 then some n else strLenFrom b s fuel (n + 1)

def strLen (b : Nat → UInt8) (s : Nat) : Option Nat := strLenFrom b s 0x100000000 0

def strEq (b : Nat → UInt8) : Nat → List UInt8 → Bool
  | s, [] => b s = 0
  | s, c :: str => if b s = 0 then false else if b s ≠ c then false else strEq b (s + 1) str

def dtStrneq (b : Nat → UInt8) : Nat → List UInt8 → Nat → Bool
  | _, _, 0 => true
  | s, [], _ + 1 => b s = 0
  | s, c :: str, n + 1 =>
    if b s ≠ c then false else if b s = 0 then true else dtStrneq b (s + 1) str n

def fdtMagic : Nat := 0xD00DFEED
def fdtVersion : Nat := 17

inductive Token where
  | beginNode
  | endNode
  | prop
  | nop
  | fin
  | other
  deriving DecidableEq, Repr

def Token.ofWord (w : Nat) : Token :=
  if w = 1 then .beginNode else if w = 2 then .endNode else if w = 3 then .prop
  else if w = 4 then .nop else if w = 9 then .fin else .other

structure DtParser where
  structBlock : Nat → UInt8
  structSize : Nat
  stringsBlock : Nat → UInt8
  stringsSize : Nat
  initialized : Bool

def dtInit (dtb : Nat → UInt8) : Except HalStatus DtParser :=
  if be32 dtb 0 ≠ fdtMagic then .error .error
  else if be32 dtb 20 < fdtVersion then .error .notSupported
  else .ok {
    structBlock := fun i => dtb (be32 dtb 8 + i)
    structSize := be32 dtb 36
    stringsBlock := fun i => dtb (be32 dtb 12 + i)
    stringsSize := be32 dtb 32
    initialized := true }

inductive CharPtr where
  | empty
  | structs (offset : Nat)
  | strings (offset : Nat)
  deriving DecidableEq, Repr

structure DtNode where
  name : CharPtr
  offset : Nat
  depth : Nat
  deriving DecidableEq, Repr

structure DtProperty where
  name : CharPtr
  data : Nat
  len : Nat
  deriving DecidableEq, Repr

/-! ## Tokens -/

variable (dt : DtParser)

def dtAlign4 (offset : Nat) : Nat := w32 (offset + 3) / 4 * 4

def dtToken (offset : Nat) : Token :=
  if w32 (offset + 4) > dt.structSize then .fin else Token.ofWord (be32 dt.structBlock offset)

def dtString (nameoff : Nat) : CharPtr :=
  if nameoff ≥ dt.stringsSize then .empty else .strings nameoff

def dtStringEq (nameoff : Nat) (str : List UInt8) : Bool :=
  if nameoff ≥ dt.stringsSize then str = [] else strEq dt.stringsBlock nameoff str

def dtSkipName (offset : Nat) : Option Nat :=
  (strLen dt.structBlock offset).map fun len => dtAlign4 (w32 (offset + w32 (len + 1)))

def dtSkipProp (offset : Nat) : Nat :=
  dtAlign4 (w32 (w32 (offset + 8) + be32 dt.structBlock offset))

def atName {σ ρ : Type} (offset : Nat) (k : Nat → Round σ ρ) : Round σ ρ :=
  match dtSkipName dt offset with
  | none => .stuck
  | some next => k next

/-! ## `dt_walk` -/

structure WalkState where
  offset : Nat
  depth : Nat
  nodes : List DtNode
  deriving DecidableEq, Repr

def dtWalkRound (s : WalkState) : Round WalkState (HalStatus × List DtNode) :=
  let offset := w32 (s.offset + 4)
  match dtToken dt s.offset with
  | .beginNode => atName dt offset fun next =>
    .next ⟨next, s.depth + 1, s.nodes ++ [⟨.structs offset, offset, s.depth⟩]⟩
  | .endNode => .next ⟨offset, s.depth - 1, s.nodes⟩
  | .prop =>
    if w32 (offset + 8) > dt.structSize then .done (.error, s.nodes)
    else .next ⟨dtSkipProp dt offset, s.depth, s.nodes⟩
  | .nop => .next ⟨offset, s.depth, s.nodes⟩
  | .fin => .done (.ok, s.nodes)
  | .other => .done (.error, s.nodes)

def dtWalk (n : Nat) : Option (HalStatus × List DtNode) :=
  if !dt.initialized then some (.error, [])
  else posLoop dt.structSize WalkState.offset (dtWalkRound dt) (fun s => (.ok, s.nodes)) n
    ⟨0, 0, []⟩

/-! ## `dt_walk_properties` -/

structure WalkPropState where
  offset : Nat
  depth : Nat
  current : DtNode
  props : List (DtNode × DtProperty)
  deriving DecidableEq, Repr

def dtWalkPropertiesRound (s : WalkPropState) :
    Round WalkPropState (HalStatus × List (DtNode × DtProperty)) :=
  let offset := w32 (s.offset + 4)
  match dtToken dt s.offset with
  | .beginNode => atName dt offset fun next =>
    .next ⟨next, s.depth + 1, ⟨.structs offset, offset, s.depth⟩, s.props⟩
  | .endNode => .next ⟨offset, s.depth - 1, s.current, s.props⟩
  | .prop =>
    if w32 (offset + 8) > dt.structSize then .done (.error, s.props)
    else
      let prop : DtProperty := ⟨dtString dt (be32 dt.structBlock (offset + 4)), w32 (offset + 8),
        be32 dt.structBlock offset⟩
      .next ⟨dtSkipProp dt offset, s.depth, s.current, s.props ++ [(s.current, prop)]⟩
  | .nop => .next ⟨offset, s.depth, s.current, s.props⟩
  | .fin => .done (.ok, s.props)
  | .other => .done (.error, s.props)

def dtWalkProperties (n : Nat) : Option (HalStatus × List (DtNode × DtProperty)) :=
  if !dt.initialized then some (.error, [])
  else posLoop dt.structSize WalkPropState.offset (dtWalkPropertiesRound dt)
    (fun s => (.ok, s.props)) n ⟨0, 0, ⟨.empty, 0, 0⟩, []⟩

/-! ## `dt_find_node` -/

def dtMaxPathDepth : Nat := 16
def slash : UInt8 := 0x2F

def pathComponents : Nat → List UInt8 → List UInt8 → List (List UInt8)
  | 0, _, _ => []
  | _ + 1, [], [] => []
  | _ + 1, cur, [] => [cur]
  | limit + 1, cur, c :: p =>
    if c = slash then cur :: pathComponents limit [] p
    else pathComponents (limit + 1) (cur ++ [c]) p

structure FindState where
  offset : Nat
  depth : Nat
  matchLevel : Nat
  deriving DecidableEq, Repr

def nameMatches (components : List (List UInt8)) (offset len matchLevel : Nat) : Bool :=
  match components[matchLevel]? with
  | none => false
  | some comp => len == comp.length && dtStrneq dt.structBlock offset comp len

def dtFindNodeRound (components : List (List UInt8)) (s : FindState) :
    Round FindState (HalStatus × Option DtNode) :=
  let offset := w32 (s.offset + 4)
  match dtToken dt s.offset with
  | .beginNode =>
    match strLen dt.structBlock offset with
    | none => .stuck
    | some len =>
      if s.depth = s.matchLevel ∧ nameMatches dt components offset len s.matchLevel then
        if s.matchLevel + 1 = components.length then
          .done (.ok, some ⟨.structs offset, offset, s.depth⟩)
        else atName dt offset fun next => .next ⟨next, s.depth + 1, s.matchLevel + 1⟩
      else atName dt offset fun next => .next ⟨next, s.depth + 1, s.matchLevel⟩
  | .endNode =>
    if s.depth > 0 then
      let depth := s.depth - 1
      .next ⟨offset, depth, if depth < s.matchLevel then depth else s.matchLevel⟩
    else .next ⟨offset, s.depth, s.matchLevel⟩
  | .prop => .next ⟨dtSkipProp dt offset, s.depth, s.matchLevel⟩
  | .nop => .next ⟨offset, s.depth, s.matchLevel⟩
  | .fin => .done (.noDevice, none)
  | .other => .next ⟨offset, s.depth, s.matchLevel⟩

def stripSlash : List UInt8 → List UInt8
  | [] => []
  | c :: p => if c = slash then p else c :: p

def dtFindNode (path : List UInt8) (n : Nat) : Option (HalStatus × Option DtNode) :=
  if !dt.initialized then some (.error, none)
  else match stripSlash path with
  | [] => some (.ok, some ⟨.empty, 0, 0⟩)
  | c :: p =>
    posLoop dt.structSize FindState.offset
      (dtFindNodeRound dt (pathComponents dtMaxPathDepth [] (c :: p)))
      (fun _ => (.noDevice, none)) n ⟨0, 0, 0⟩

/-! ## `dt_find_property` -/

structure PropState where
  offset : Nat
  depth : Nat
  deriving DecidableEq, Repr

def dtFindPropertyRound (propName : List UInt8) (s : PropState) :
    Round PropState (HalStatus × Option DtProperty) :=
  let offset := w32 (s.offset + 4)
  match dtToken dt s.offset with
  | .beginNode => atName dt offset fun next => .next ⟨next, s.depth + 1⟩
  | .endNode => if s.depth = 0 then .done (.noDevice, none) else .next ⟨offset, s.depth - 1⟩
  | .prop =>
    let nameoff := be32 dt.structBlock (offset + 4)
    if s.depth = 0 ∧ dtStringEq dt nameoff propName then
      .done (.ok, some ⟨dtString dt nameoff, w32 (offset + 8), be32 dt.structBlock offset⟩)
    else .next ⟨dtSkipProp dt offset, s.depth⟩
  | .nop => .next ⟨offset, s.depth⟩
  | .fin => .done (.noDevice, none)
  | .other => .next ⟨offset, s.depth⟩

def dtFindProperty (node : DtNode) (propName : List UInt8) (n : Nat) :
    Option (HalStatus × Option DtProperty) :=
  if !dt.initialized then some (.error, none)
  else (dtSkipName dt node.offset).bind fun offset =>
    posLoop dt.structSize PropState.offset (dtFindPropertyRound dt propName)
      (fun _ => (.noDevice, none)) n ⟨offset, 0⟩

end AlJefra.Bus.Dt
