/-
`dt_walk` and `dt_find_property` on a flattened tree, by induction on the items with one case
for each token.
-/
import AlJefra.Bus.DtTree

namespace AlJefra.Bus.Dt

open AlJefra.Hal List
open AlJefra.Lib

variable {dt : DtParser}

/-! ## Tokens of a small block -/

variable {nameoff o x : Nat} {b : Nat → UInt8} {data name propName str : List UInt8}
  {items rest top : Items}

theorem w32_eq (h : x < 0x100000000) : w32 x = x := Nat.mod_eq_of_lt h

theorem dtAlign4_eq (h : x + 3 < 0x100000000) : dtAlign4 x = align4 x := by
  rw [dtAlign4, w32_eq h, align4]

theorem le_align4 (n : Nat) : n ≤ align4 n := by
  rw [align4]
  omega

theorem le_behindName (o : Nat) (name : List UInt8) : o + 5 + name.length ≤ behindName o name := by
  have := le_align4 (o + 4 + name.length + 1)
  rw [behindName]
  omega

theorem le_behindData (o : Nat) (data : List UInt8) : o + 12 + data.length ≤ behindData o data := by
  have := le_align4 (o + 12 + data.length)
  rw [behindData]
  omega

theorem Items.le_ends (items : Items) : ∀ o, o ≤ items.ends o := by
  induction items with
  | nil => exact fun o => le_refl o
  | nop rest ih =>
    intro o
    have := ih (o + 4)
    rw [Items.ends]
    omega
  | prop name nameoff data rest ih =>
    intro o
    have := le_behindData o data
    have := ih (behindData o data)
    rw [Items.ends]
    omega
  | node name items rest ihItems ihRest =>
    intro o
    have := le_behindName o name
    have := ihItems (behindName o name)
    have := ihRest (items.ends (behindName o name) + 4)
    rw [Items.ends]
    omega

theorem strLenFrom_eq {s : Nat} : ∀ (str : List UInt8) (n fuel : Nat),
    HasBytes b (s + n) str → b (s + n + str.length) = 0 → 0 ∉ str → str.length < fuel →
    strLenFrom b s fuel n = some (n + str.length)
  | [], n, fuel, _, hnul, _, hfuel => by
    obtain ⟨fuel, rfl⟩ : ∃ k, fuel = k + 1 := ⟨fuel - 1, by simp at hfuel; omega⟩
    rw [strLenFrom, if_pos (by simpa using hnul), length_nil, add_zero]
  | x :: str, n, fuel, hbytes, hnul, hno, hfuel => by
    rw [length_cons] at hnul hfuel
    obtain ⟨fuel, rfl⟩ : ∃ k, fuel = k + 1 := ⟨fuel - 1, by omega⟩
    rw [mem_cons, not_or] at hno
    have hx : b (s + n) ≠ 0 := by
      rw [hbytes.1]
      exact fun h => hno.1 h.symm
    rw [strLenFrom, if_neg hx, strLenFrom_eq str (n + 1) fuel hbytes.2 ?_ hno.2 (by omega),
      length_cons]
    · congr 1
      omega
    · rw [← hnul]
      congr 1
      omega

theorem HasString.strLen_eq (h : HasString b o str) (hsmall : str.length < 0x100000000) :
    strLen b o = some str.length := by
  rw [strLen, strLenFrom_eq str 0 _ h.bytes h.terminated h.noNul hsmall, zero_add]

theorem HasString.dtSkipName_eq (h : HasString dt.structBlock (o + 4) name)
    (hsmall : behindName o name < 0x100000000 - 4) :
    dtSkipName dt (o + 4) = some (behindName o name) := by
  have := le_behindName o name
  rw [dtSkipName, h.strLen_eq (by omega), Option.map_some, w32_eq (x := name.length + 1) (by omega),
    w32_eq (by omega), dtAlign4_eq (by omega), behindName, add_assoc (o + 4)]

theorem dtToken_eq {w : Nat} (hword : be32 dt.structBlock o = w) (hfits : o + 4 ≤ dt.structSize)
    (hsmall : dt.structSize < 0x100000000) : dtToken dt o = Token.ofWord w := by
  rw [dtToken, w32_eq (by omega), if_neg (by omega), hword]

theorem dtSkipProp_eq (hlen : be32 dt.structBlock (o + 4) = data.length)
    (hsmall : behindData o data < 0x100000000 - 4) : dtSkipProp dt (o + 4) = behindData o data := by
  have := le_behindData o data
  rw [dtSkipProp, hlen, w32_eq (x := o + 4 + 8) (by omega), w32_eq (by omega),
    dtAlign4_eq (by omega), behindData]

structure Inside (dt : DtParser) (items : Items) (o : Nat) : Prop where
  lays : Lays dt items o
  fits : items.ends o + 4 ≤ dt.structSize
  small : dt.structSize < 0x100000000

theorem Inside.nop (h : Inside dt (.nop rest) o) :
    dtToken dt o = .nop ∧ w32 (o + 4) = o + 4 ∧ o < dt.structSize ∧ Inside dt rest (o + 4) := by
  obtain ⟨⟨hword, hrest⟩, hfits, hsmall⟩ := h
  rw [Items.ends] at hfits
  have := rest.le_ends (o + 4)
  exact ⟨dtToken_eq hword (by omega) hsmall, w32_eq (by omega), by omega, hrest, hfits, hsmall⟩

theorem Inside.prop (h : Inside dt (.prop name nameoff data rest) o) :
    dtToken dt o = .prop ∧ w32 (o + 4) = o + 4 ∧ w32 (o + 4 + 8) = o + 12 ∧
      o + 12 ≤ dt.structSize ∧ dtSkipProp dt (o + 4) = behindData o data ∧
      Inside dt rest (behindData o data) := by
  obtain ⟨⟨hword, hlen, -, -, -, -, hrest⟩, hfits, hsmall⟩ := h
  rw [Items.ends] at hfits
  have := rest.le_ends (behindData o data)
  have := le_behindData o data
  exact ⟨dtToken_eq hword (by omega) hsmall, w32_eq (by omega), w32_eq (by omega), by omega,
    dtSkipProp_eq hlen (by omega), hrest, hfits, hsmall⟩

theorem Inside.node (h : Inside dt (.node name items rest) o) :
    dtToken dt o = .beginNode ∧ w32 (o + 4) = o + 4 ∧ o < dt.structSize ∧
      dtSkipName dt (o + 4) = some (behindName o name) ∧ Inside dt items (behindName o name) := by
  obtain ⟨⟨hword, hname, hitems, -, -⟩, hfits, hsmall⟩ := h
  rw [Items.ends] at hfits
  have := rest.le_ends (items.ends (behindName o name) + 4)
  have := items.le_ends (behindName o name)
  have := le_behindName o name
  exact ⟨dtToken_eq hword (by omega) hsmall, w32_eq (by omega), by omega,
    hname.dtSkipName_eq (by omega), hitems, by omega, hsmall⟩

theorem Inside.endNode (h : Inside dt (.node name items rest) o) :
    dtToken dt (items.ends (behindName o name)) = .endNode ∧
      w32 (items.ends (behindName o name) + 4) = items.ends (behindName o name) + 4 ∧
      items.ends (behindName o name) < dt.structSize ∧
      Inside dt rest (items.ends (behindName o name) + 4) := by
  obtain ⟨⟨-, -, -, hend, hrest⟩, hfits, hsmall⟩ := h
  rw [Items.ends] at hfits
  have := rest.le_ends (items.ends (behindName o name) + 4)
  exact ⟨dtToken_eq hend (by omega) hsmall, w32_eq (by omega), by omega, hrest, hfits, hsmall⟩

theorem Flattened.inside (h : Flattened dt top) : Inside dt top 0 := ⟨h.lays, h.fits, h.small⟩

theorem Flattened.token_ends (h : Flattened dt top) :
    dtToken dt (top.ends 0) = .fin := dtToken_eq h.fin h.fits h.small

/-! ## `dt_walk` -/

abbrev Walks (dt : DtParser) (s s' : WalkState) : Prop :=
  Advances dt.structSize 4 WalkState.offset (dtWalkRound dt) s s'

theorem walk_items (items : Items) : ∀ (o d : Nat) (nodes : List DtNode), Inside dt items o →
    Walks dt ⟨o, d, nodes⟩ ⟨items.ends o, d, nodes ++ (items.preorder o d).map Located.node⟩ := by
  induction items with
  | nil =>
    intro o d nodes _
    rw [Items.preorder, map_nil, append_nil]
    exact .refl _
  | nop rest ih =>
    intro o d nodes h
    obtain ⟨htoken, hw, hlt, hrest⟩ := h.nop
    have hround : dtWalkRound dt ⟨o, d, nodes⟩ = .next ⟨o + 4, d, nodes⟩ := by
      simp only [dtWalkRound, htoken, hw]
    exact .next hlt hround (le_refl _) (ih (o + 4) d nodes hrest)
  | prop name nameoff data rest ih =>
    intro o d nodes h
    obtain ⟨htoken, hw, hw8, hfits, hskip, hrest⟩ := h.prop
    have hround : dtWalkRound dt ⟨o, d, nodes⟩ = .next ⟨behindData o data, d, nodes⟩ := by
      simp only [dtWalkRound, htoken, hw, hw8, hskip]
      rw [if_neg (by omega)]
    have := le_behindData o data
    exact .next (show o < dt.structSize by omega) hround
      (show o + 4 ≤ behindData o data by omega) (ih _ d nodes hrest)
  | node name items rest ihItems ihRest =>
    intro o d nodes h
    obtain ⟨htoken, hw, hlt, hskip, hitems⟩ := h.node
    obtain ⟨htoken', hw', hlt', hrest⟩ := h.endNode
    have hbegin : dtWalkRound dt ⟨o, d, nodes⟩ =
        .next ⟨behindName o name, d + 1, nodes ++ [⟨.structs (o + 4), o + 4, d⟩]⟩ := by
      simp only [dtWalkRound, htoken, hw, atName, hskip]
    have hend : ∀ nodes', dtWalkRound dt ⟨items.ends (behindName o name), d + 1, nodes'⟩ =
        .next ⟨items.ends (behindName o name) + 4, d, nodes'⟩ := by
      intro nodes'
      simp only [dtWalkRound, htoken', hw', Nat.add_sub_cancel]
    have := le_behindName o name
    have hinner := ihItems (behindName o name) (d + 1) (nodes ++ [⟨.structs (o + 4), o + 4, d⟩])
      hitems
    have houter := ihRest (items.ends (behindName o name) + 4) d
      (nodes ++ [⟨.structs (o + 4), o + 4, d⟩] ++
        (items.preorder (behindName o name) (d + 1)).map Located.node) hrest
    have hlist : nodes ++ (Items.preorder (.node name items rest) o d).map Located.node =
        nodes ++ [⟨.structs (o + 4), o + 4, d⟩] ++
          (items.preorder (behindName o name) (d + 1)).map Located.node ++
          (rest.preorder (items.ends (behindName o name) + 4) d).map Located.node := by
      simp [Items.preorder, Located.node]
    rw [hlist]
    exact .next hlt hbegin (show o + 4 ≤ behindName o name by omega)
      (hinner.trans (.next hlt' (hend _) (le_refl _) houter))

theorem lt_tokens (size : Nat) (o : Nat) : size < o + 4 * (size / 4 + 1) := by omega

theorem dtInit_initialized {dtb : Nat → UInt8} (h : dtInit dtb = .ok dt) :
    dt.initialized = true := by
  rw [dtInit] at h
  split at h
  · cases h
  · split at h
    · cases h
    · cases h
      rfl

theorem dtWalk_eq (hinit : dt.initialized = true) (h : Flattened dt top) :
    dtWalk dt (dt.structSize / 4 + 1) = some (.ok, (top.preorder 0 0).map Located.node) := by
  have hwalk := walk_items top 0 0 [] h.inside
  have hlt : top.ends 0 < dt.structSize := by
    have := h.fits
    omega
  rw [dtWalk, hinit, if_neg (by decide)]
  refine hwalk.posLoop_done _ hlt ?_ (lt_tokens dt.structSize 0)
  simp only [dtWalkRound, h.token_ends, nil_append]

/-! ## `dt_find_property` -/

abbrev Seeks (dt : DtParser) (propName : List UInt8) (s s' : PropState) : Prop :=
  Advances dt.structSize 4 PropState.offset (dtFindPropertyRound dt propName) s s'

theorem skip_items (propName : List UInt8) (items : Items) : ∀ (o d : Nat), Inside dt items o →
    Seeks dt propName ⟨o, d + 1⟩ ⟨items.ends o, d + 1⟩ := by
  induction items with
  | nil => exact fun o d _ => .refl _
  | nop rest ih =>
    intro o d h
    obtain ⟨htoken, hw, hlt, hrest⟩ := h.nop
    have hround : dtFindPropertyRound dt propName ⟨o, d + 1⟩ = .next ⟨o + 4, d + 1⟩ := by
      simp only [dtFindPropertyRound, htoken, hw]
    exact .next hlt hround (le_refl _) (ih (o + 4) d hrest)
  | prop name nameoff data rest ih =>
    intro o d h
    obtain ⟨htoken, hw, hw8, hfits, hskip, hrest⟩ := h.prop
    have hround : dtFindPropertyRound dt propName ⟨o, d + 1⟩ =
        .next ⟨behindData o data, d + 1⟩ := by
      simp only [dtFindPropertyRound, htoken, hw, hskip]
      rw [if_neg (fun hd => absurd hd.1 (Nat.succ_ne_zero d))]
    have := le_behindData o data
    exact .next (show o < dt.structSize by omega) hround
      (show o + 4 ≤ behindData o data by omega) (ih _ d hrest)
  | node name items rest ihItems ihRest =>
    intro o d h
    obtain ⟨htoken, hw, hlt, hskip, hitems⟩ := h.node
    obtain ⟨htoken', hw', hlt', hrest⟩ := h.endNode
    have hbegin : dtFindPropertyRound dt propName ⟨o, d + 1⟩ =
        .next ⟨behindName o name, d + 2⟩ := by
      simp only [dtFindPropertyRound, htoken, hw, atName, hskip]
    have hend : dtFindPropertyRound dt propName ⟨items.ends (behindName o name), d + 2⟩ =
        .next ⟨items.ends (behindName o name) + 4, d + 1⟩ := by
      simp only [dtFindPropertyRound, htoken', hw']
      rw [if_neg (Nat.succ_ne_zero (d + 1)), Nat.add_sub_cancel (n := d + 1) (m := 1)]
    have := le_behindName o name
    exact .next hlt hbegin (show o + 4 ≤ behindName o name by omega)
      ((ihItems (behindName o name) (d + 1) hitems).trans
        (.next hlt' hend (le_refl _) (ihRest _ d hrest)))

theorem strEq_eq : ∀ {o : Nat} {name : List UInt8} (str : List UInt8),
    HasString b o name → 0 ∉ str → strEq b o str = decide (name = str)
  | o, [], [], h, _ => by
    have hnul : b o = 0 := h.terminated
    simp [strEq, hnul]
  | o, x :: name, [], h, _ => by
    have hx : b o = x := h.bytes.1
    have hne : x ≠ 0 := fun h0 => h.noNul (by simp [h0])
    simp [strEq, hx, hne]
  | o, [], c :: str, h, _ => by
    have hnul : b o = 0 := h.terminated
    simp [strEq, hnul]
  | o, x :: name, c :: str, h, hstr => by
    rw [mem_cons, not_or] at hstr
    have hx : b o = x := h.bytes.1
    have hne : x ≠ 0 := fun h0 => h.noNul (by simp [h0])
    have htail : HasString b (o + 1) name := by
      refine ⟨h.bytes.2, ?_, fun h0 => h.noNul (mem_cons_of_mem _ h0)⟩
      rw [← h.terminated, length_cons]
      congr 1
      omega
    rw [strEq, hx, if_neg hne, strEq_eq str htail hstr.2]
    by_cases hxc : x = c <;> simp [hxc]

theorem dtStringEq_eq (hin : nameoff + name.length < dt.stringsSize)
    (h : HasString dt.stringsBlock nameoff name) (hstr : 0 ∉ str) :
    dtStringEq dt nameoff str = decide (name = str) := by
  rw [dtStringEq, if_neg (by omega), strEq_eq str h hstr]

def Items.ownProp (items : Items) (propName : List UInt8) : Option (List UInt8 × List UInt8) :=
  items.ownProps.find? fun p => p.1 = propName

def IsOwnProperty (dt : DtParser) (items : Items) (propName : List UInt8)
    (answer : Option (HalStatus × Option DtProperty)) : Prop :=
  (items.ownProp propName = none ∧ answer = some (.noDevice, none)) ∨
    ∃ data prop, items.ownProp propName = some (propName, data) ∧ answer = some (.ok, some prop) ∧
      prop.len = data.length ∧ HasBytes dt.structBlock prop.data data

theorem seek_items (hname : 0 ∉ propName) (items : Items) : ∀ o, Inside dt items o →
    (items.ownProp propName = none ∧ Seeks dt propName ⟨o, 0⟩ ⟨items.ends o, 0⟩) ∨
      ∃ data prop s', items.ownProp propName = some (propName, data) ∧
        Seeks dt propName ⟨o, 0⟩ s' ∧ s'.offset < dt.structSize ∧
        dtFindPropertyRound dt propName s' = .done (.ok, some prop) ∧
        prop.len = data.length ∧ HasBytes dt.structBlock prop.data data := by
  induction items with
  | nil => exact fun o _ => .inl ⟨rfl, .refl _⟩
  | nop rest ih =>
    intro o h
    obtain ⟨htoken, hw, hlt, hrest⟩ := h.nop
    have hround : dtFindPropertyRound dt propName ⟨o, 0⟩ = .next ⟨o + 4, 0⟩ := by
      simp only [dtFindPropertyRound, htoken, hw]
    rcases ih (o + 4) hrest with ⟨hnone, hrun⟩ | ⟨data, prop, s', hfound, hrun, hprop⟩
    · exact .inl ⟨hnone, .next hlt hround (le_refl _) hrun⟩
    · exact .inr ⟨data, prop, s', hfound, .next hlt hround (le_refl _) hrun, hprop⟩
  | prop name nameoff data rest ih =>
    intro o h
    obtain ⟨htoken, hw, hw8, hfits, hskip, hrest⟩ := h.prop
    obtain ⟨-, hlen, hoff, hdata, hin, hstring, -⟩ := h.lays
    have hstrEq := dtStringEq_eq hin hstring hname
    have hlt : o < dt.structSize := by omega
    by_cases hthis : name = propName
    · refine .inr ⟨data, ⟨dtString dt nameoff, o + 12, data.length⟩, ⟨o, 0⟩, ?_, .refl _, hlt, ?_,
        rfl, hdata⟩
      · simp [Items.ownProp, Items.ownProps, hthis]
      · simp only [dtFindPropertyRound, htoken, hw, hw8, hlen, hoff, hstrEq]
        rw [if_pos ⟨trivial, by simpa using hthis⟩]
    · have hround : dtFindPropertyRound dt propName ⟨o, 0⟩ = .next ⟨behindData o data, 0⟩ := by
        simp only [dtFindPropertyRound, htoken, hw, hoff, hskip, hstrEq]
        rw [if_neg (fun hd => hthis (by simpa using hd.2))]
      have hwidth : o + 4 ≤ behindData o data := by
        have := le_behindData o data
        omega
      have hown : Items.ownProp (.prop name nameoff data rest) propName =
          rest.ownProp propName := by
        simp [Items.ownProp, Items.ownProps, hthis]
      rw [hown]
      rcases ih _ hrest with ⟨hnone, hrun⟩ | ⟨data', prop, s', hfound, hrun, hprop⟩
      · exact .inl ⟨hnone, .next hlt hround hwidth hrun⟩
      · exact .inr ⟨data', prop, s', hfound, .next hlt hround hwidth hrun, hprop⟩
  | node name items rest _ ihRest =>
    intro o h
    obtain ⟨htoken, hw, hlt, hskip, hitems⟩ := h.node
    obtain ⟨htoken', hw', hlt', hrest⟩ := h.endNode
    have hbegin : dtFindPropertyRound dt propName ⟨o, 0⟩ = .next ⟨behindName o name, 1⟩ := by
      simp only [dtFindPropertyRound, htoken, hw, atName, hskip]
    have hend : dtFindPropertyRound dt propName ⟨items.ends (behindName o name), 1⟩ =
        .next ⟨items.ends (behindName o name) + 4, 0⟩ := by
      simp only [dtFindPropertyRound, htoken', hw']
      rw [if_neg Nat.one_ne_zero]
    have hwidth : o + 4 ≤ behindName o name := by
      have := le_behindName o name
      omega
    have hpast : Seeks dt propName ⟨o, 0⟩ ⟨items.ends (behindName o name) + 4, 0⟩ :=
      .next hlt hbegin hwidth ((skip_items propName items _ 0 hitems).trans
        (.single hlt' hend (le_refl _)))
    rcases ihRest _ hrest with ⟨hnone, hrun⟩ | ⟨data, prop, s', hfound, hrun, hprop⟩
    · exact .inl ⟨hnone, hpast.trans hrun⟩
    · exact .inr ⟨data, prop, s', hfound, hpast.trans hrun, hprop⟩

theorem inside_of_mem_preorder {x : Located} (items : Items) : ∀ (o d : Nat), Inside dt items o →
    x ∈ items.preorder o d →
    ∃ o' rest, x.offset = o' + 4 ∧ Inside dt (.node x.name x.items rest) o' := by
  induction items with
  | nil =>
    intro o d _ hx
    cases hx
  | nop rest ih => exact fun o d h hx => ih _ d h.nop.2.2.2 hx
  | prop name nameoff data rest ih => exact fun o d h hx => ih _ d h.prop.2.2.2.2.2 hx
  | node name items rest ihItems ihRest =>
    intro o d h hx
    simp only [Items.preorder, cons_append, mem_cons, mem_append] at hx
    rcases hx with rfl | hx | hx
    · exact ⟨o, rest, rfl, h⟩
    · exact ihItems _ _ h.node.2.2.2.2 hx
    · exact ihRest _ _ h.endNode.2.2.2 hx

theorem dtFindProperty_isOwn {x : Located} (hinit : dt.initialized = true)
    (h : Inside dt (.node x.name x.items rest) o) (hoffset : x.offset = o + 4)
    (hname : 0 ∉ propName) :
    IsOwnProperty dt x.items propName
      (dtFindProperty dt x.node propName (dt.structSize / 4 + 1)) := by
  obtain ⟨-, -, -, hskip, hitems⟩ := h.node
  obtain ⟨htoken, hw, hlt, -⟩ := h.endNode
  have hstart : dtSkipName dt x.node.offset = some (behindName o x.name) := by
    rw [Located.node, hoffset, hskip]
  rw [dtFindProperty, hinit, if_neg (by decide), hstart, Option.bind_some]
  rcases seek_items hname x.items _ hitems with
    ⟨hnone, hrun⟩ | ⟨data, prop, s', hfound, hrun, hpos, hdone, hprop⟩
  · refine .inl ⟨hnone, hrun.posLoop_done _ hlt ?_ (lt_tokens _ _)⟩
    simp only [dtFindPropertyRound, htoken, if_true]
  · exact .inr ⟨data, prop, hfound, hrun.posLoop_done _ hpos hdone (lt_tokens _ _), hprop⟩

/-- On every accepted tree, `dt_walk` reports each node once, in preorder, with name and depth, and
`dt_find_property` finds its first property of a name. -/
theorem dtWalk_and_findProperty (dtb : Nat → UInt8) (dt : DtParser) (top : Items)
    (hdt : dtInit dtb = .ok dt) (h : Flattened dt top) :
    dtWalk dt (dt.structSize / 4 + 1) = some (.ok, (top.preorder 0 0).map Located.node) ∧
      ∀ x ∈ top.preorder 0 0, HasString dt.structBlock x.offset x.name ∧
        ∀ propName, 0 ∉ propName → IsOwnProperty dt x.items propName
          (dtFindProperty dt x.node propName (dt.structSize / 4 + 1)) := by
  have hinit := dtInit_initialized hdt
  refine ⟨dtWalk_eq hinit h, fun x hx => ?_⟩
  obtain ⟨o, rest, hoffset, hinside⟩ := inside_of_mem_preorder top 0 0 h.inside hx
  refine ⟨?_, fun propName hname => dtFindProperty_isOwn hinit hinside hoffset hname⟩
  rw [hoffset]
  exact hinside.lays.2.1

def smallTree : Items :=
  .node [] (.prop [0x61] 0 [1] (.node [0x62] (.prop [0x61] 0 [2, 3] .nil) .nil)) .nil

def smallBlob : List UInt8 :=
  [0xD0, 0x0D, 0xFE, 0xED, 0, 0, 0, 102, 0, 0, 0, 40, 0, 0, 0, 100, 0, 0, 0, 0,
   0, 0, 0, 17, 0, 0, 0, 16, 0, 0, 0, 0, 0, 0, 0, 2, 0, 0, 0, 60,
   0, 0, 0, 1, 0, 0, 0, 0,
   0, 0, 0, 3, 0, 0, 0, 1, 0, 0, 0, 0, 1, 0, 0, 0,
   0, 0, 0, 1, 0x62, 0, 0, 0,
   0, 0, 0, 3, 0, 0, 0, 2, 0, 0, 0, 0, 2, 3, 0, 0,
   0, 0, 0, 2, 0, 0, 0, 2, 0, 0, 0, 9,
   0x61, 0]

def smallDt : DtParser where
  structBlock := fun i => smallBlob.getD (40 + i) 0
  structSize := 60
  stringsBlock := fun i => smallBlob.getD (100 + i) 0
  stringsSize := 2
  initialized := true

theorem dtInit_smallBlob : dtInit (fun i => smallBlob.getD i 0) = .ok smallDt := by
  have hstruct : be32 (fun i => smallBlob.getD i 0) 8 = 40 := by decide
  have hstrings : be32 (fun i => smallBlob.getD i 0) 12 = 100 := by decide
  have hstructSize : be32 (fun i => smallBlob.getD i 0) 36 = 60 := by decide
  have hstringsSize : be32 (fun i => smallBlob.getD i 0) 32 = 2 := by decide
  rw [dtInit, if_neg (by decide), if_neg (by decide), hstruct, hstrings, hstructSize, hstringsSize,
    smallDt]

theorem dtWalk_and_findProperty_small :
    dtWalk smallDt 16 = some (.ok, [⟨.structs 4, 4, 0⟩, ⟨.structs 28, 28, 1⟩]) ∧
      IsOwnProperty smallDt (.prop [0x61] 0 [2, 3] .nil) [0x61]
        (dtFindProperty smallDt ⟨.structs 28, 28, 1⟩ [0x61] 16) := by
  have h := dtWalk_and_findProperty _ smallDt smallTree dtInit_smallBlob
    ⟨rfl, by decide, by decide, by decide, by decide⟩
  exact ⟨h.1, (h.2 ⟨[0x62], 28, 1, .prop [0x61] 0 [2, 3] .nil⟩ (by decide)).2 [0x61] (by decide)⟩

end AlJefra.Bus.Dt
