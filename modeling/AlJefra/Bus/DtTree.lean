/- Device trees, and the blobs that hold them. -/
import AlJefra.Bus.DtParser

namespace AlJefra.Bus.Dt

/-! ## Trees -/

inductive Items where
  | nil
  | nop (rest : Items)
  | prop (name : List UInt8) (nameoff : Nat) (data : List UInt8) (rest : Items)
  | node (name : List UInt8) (items rest : Items)
  deriving DecidableEq, Repr

def Items.ownProps : Items → List (List UInt8 × List UInt8)
  | .nil => []
  | .nop rest => rest.ownProps
  | .prop name _ data rest => (name, data) :: rest.ownProps
  | .node _ _ rest => rest.ownProps

def Items.onlyNops : Items → Bool
  | .nil => true
  | .nop rest => rest.onlyNops
  | .prop .. => false
  | .node .. => false

def Items.isTop : Items → Bool
  | .nil => false
  | .nop rest => rest.isTop
  | .prop .. => false
  | .node name _ rest => name = [] && rest.onlyNops

/-! ## Offsets -/

def align4 (n : Nat) : Nat := (n + 3) / 4 * 4
def behindName (o : Nat) (name : List UInt8) : Nat := align4 (o + 4 + name.length + 1)
def behindData (o : Nat) (data : List UInt8) : Nat := align4 (o + 12 + data.length)

def Items.ends : Items → Nat → Nat
  | .nil, o => o
  | .nop rest, o => rest.ends (o + 4)
  | .prop _ _ data rest, o => rest.ends (behindData o data)
  | .node name items rest, o => rest.ends (items.ends (behindName o name) + 4)

structure Located where
  name : List UInt8
  offset : Nat
  depth : Nat
  items : Items
  deriving DecidableEq, Repr

def Items.preorder : Items → Nat → Nat → List Located
  | .nil, _, _ => []
  | .nop rest, o, d => rest.preorder (o + 4) d
  | .prop _ _ data rest, o, d => rest.preorder (behindData o data) d
  | .node name items rest, o, d =>
    ⟨name, o + 4, d, items⟩ :: items.preorder (behindName o name) (d + 1) ++
      rest.preorder (items.ends (behindName o name) + 4) d

def Located.node (x : Located) : DtNode := ⟨.structs x.offset, x.offset, x.depth⟩

/-! ## Blobs -/

def HasBytes (b : Nat → UInt8) : Nat → List UInt8 → Prop
  | _, [] => True
  | o, x :: l => b o = x ∧ HasBytes b (o + 1) l

structure HasString (b : Nat → UInt8) (o : Nat) (str : List UInt8) : Prop where
  bytes : HasBytes b o str
  terminated : b (o + str.length) = 0
  noNul : 0 ∉ str

def Lays (dt : DtParser) : Items → Nat → Prop
  | .nil, _ => True
  | .nop rest, o => be32 dt.structBlock o = 4 ∧ Lays dt rest (o + 4)
  | .prop name nameoff data rest, o =>
    be32 dt.structBlock o = 3 ∧ be32 dt.structBlock (o + 4) = data.length ∧
    be32 dt.structBlock (o + 8) = nameoff ∧ HasBytes dt.structBlock (o + 12) data ∧
    nameoff + name.length < dt.stringsSize ∧ HasString dt.stringsBlock nameoff name ∧
    Lays dt rest (behindData o data)
  | .node name items rest, o =>
    be32 dt.structBlock o = 1 ∧ HasString dt.structBlock (o + 4) name ∧
    Lays dt items (behindName o name) ∧
    be32 dt.structBlock (items.ends (behindName o name)) = 2 ∧
    Lays dt rest (items.ends (behindName o name) + 4)

instance decidableHasBytes (b : Nat → UInt8) : ∀ o l, Decidable (HasBytes b o l)
  | _, [] => inferInstanceAs (Decidable True)
  | o, _ :: l =>
    haveI := decidableHasBytes b (o + 1) l
    inferInstanceAs (Decidable (_ ∧ _))

instance (b : Nat → UInt8) (o : Nat) (str : List UInt8) : Decidable (HasString b o str) :=
  decidable_of_iff (HasBytes b o str ∧ b (o + str.length) = 0 ∧ 0 ∉ str)
    ⟨fun h => ⟨h.1, h.2.1, h.2.2⟩, fun h => ⟨h.bytes, h.terminated, h.noNul⟩⟩

instance decidableLays (dt : DtParser) : ∀ items o, Decidable (Lays dt items o)
  | .nil, _ => inferInstanceAs (Decidable True)
  | .nop rest, o =>
    haveI := decidableLays dt rest (o + 4)
    inferInstanceAs (Decidable (_ ∧ _))
  | .prop _ _ data rest, o =>
    haveI := decidableLays dt rest (behindData o data)
    inferInstanceAs (Decidable (_ ∧ _ ∧ _ ∧ _ ∧ _ ∧ _ ∧ _))
  | .node name items rest, o =>
    haveI := decidableLays dt items (behindName o name)
    haveI := decidableLays dt rest (items.ends (behindName o name) + 4)
    inferInstanceAs (Decidable (_ ∧ _ ∧ _ ∧ _ ∧ _))

structure Flattened (dt : DtParser) (top : Items) : Prop where
  isTop : top.isTop = true
  lays : Lays dt top 0
  fin : be32 dt.structBlock (top.ends 0) = 9
  fits : top.ends 0 + 4 ≤ dt.structSize
  small : dt.structSize < 0x100000000

end AlJefra.Bus.Dt
