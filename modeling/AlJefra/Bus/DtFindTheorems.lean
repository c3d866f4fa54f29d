/-
What `dt_find_node` finds. The first component is compared with the unnamed root, so that of the
paths below it only some that begin with two slashes are found.
-/
import AlJefra.Bus.DtTreeTheorems

namespace AlJefra.Bus.Dt

open AlJefra.Hal List
open AlJefra.Lib

variable {dt : DtParser}

/-! ## Paths -/

def Items.children : Items → Nat → Nat → List Located
  | .nil, _, _ => []
  | .nop rest, o, d => rest.children (o + 4) d
  | .prop _ _ data rest, o, d => rest.children (behindData o data) d
  | .node name items rest, o, d =>
    ⟨name, o + 4, d, items⟩ :: rest.children (items.ends (behindName o name) + 4) d

def Located.children (x : Located) : List Located :=
  x.items.children (align4 (x.offset + x.name.length + 1)) (x.depth + 1)

def Leads : List (List UInt8) → Located → Located → Prop
  | [], x, y => y = x
  | c :: cs, x, y => ∃ z ∈ x.children, z.name = c ∧ Leads cs z y

def pathOf : List (List UInt8) → List UInt8
  | [] => [slash]
  | c :: cs => (c :: cs).flatMap (slash :: ·)

def Names (top : Items) (path : List UInt8) (y : Located) : Prop :=
  ∃ root ∈ top.children 0 0, ∃ cs, path = pathOf cs ∧ Leads cs root y

def Items.namesOk : Items → Bool
  | .nil => true
  | .nop rest => rest.namesOk
  | .prop _ _ _ rest => rest.namesOk
  | .node name items rest => name ≠ [] && slash ∉ name && items.namesOk && rest.namesOk

def Items.topNamesOk : Items → Bool
  | .nil => true
  | .nop rest => rest.topNamesOk
  | .prop _ _ _ rest => rest.topNamesOk
  | .node _ items rest => items.namesOk && rest.topNamesOk

def CharPtr.Holds (dt : DtParser) : CharPtr → List UInt8 → Prop
  | .empty, str => str = []
  | .structs o, str => HasString dt.structBlock o str
  | .strings o, str => HasString dt.stringsBlock o str

def FindsNamed (dt : DtParser) (top : Items) (path : List UInt8)
    (answer : Option (HalStatus × Option DtNode)) : Prop :=
  (∃ y node, Names top path y ∧ answer = some (.ok, some node) ∧ node.name.Holds dt y.name ∧
      node.offset = y.offset ∧ node.depth = y.depth) ∨
    (¬ ∃ y, Names top path y) ∧ answer = some (.noDevice, none)

/-! ## The search on the tree -/

def Items.find : Items → List (List UInt8) → Nat → Nat → Option Located
  | .nil, _, _, _ => none
  | .nop rest, comps, o, d => rest.find comps (o + 4) d
  | .prop _ _ data rest, comps, o, d => rest.find comps (behindData o data) d
  | .node name items rest, comps, o, d =>
    let onward := rest.find comps (items.ends (behindName o name) + 4) d
    if comps.head? = some name then
      if comps.tail = [] then some ⟨name, o + 4, d, items⟩
      else (items.find comps.tail (behindName o name) (d + 1)).or onward
    else onward

abbrev Matches (dt : DtParser) (comps : List (List UInt8)) (s s' : FindState) : Prop :=
  Advances dt.structSize 4 FindState.offset (dtFindNodeRound dt comps) s s'

theorem dtStrneq_eq {b : Nat → UInt8} : ∀ {o : Nat} {name : List UInt8} (comp : List UInt8),
    HasBytes b o name → 0 ∉ name → name.length = comp.length →
    dtStrneq b o comp name.length = decide (name = comp)
  | _, [], [], _, _, _ => rfl
  | o, x :: name, c :: comp, hbytes, hno, hlen => by
    rw [mem_cons, not_or] at hno
    simp only [length_cons, Nat.add_right_cancel_iff] at hlen
    have hx : b o = x := hbytes.1
    rw [length_cons, dtStrneq, hx]
    by_cases hxc : x = c
    · rw [if_neg (by simp [hxc]), if_neg (fun h => hno.1 h.symm),
        dtStrneq_eq comp hbytes.2 hno.2 hlen]
      simp [hxc]
    · rw [if_pos hxc]
      simp [hxc]

variable {comps : List (List UInt8)} {o : Nat} {name p path : List UInt8} {items rest top : Items}
  {c : UInt8}

theorem nameMatches_eq {m : Nat} (h : HasString dt.structBlock o name) :
    nameMatches dt comps o name.length m = decide (comps[m]? = some name) := by
  rw [nameMatches]
  cases hc : comps[m]? with
  | none => simp
  | some comp =>
    by_cases hlen : name.length = comp.length
    · have hcmp := dtStrneq_eq comp h.bytes h.noNul hlen
      rw [hlen] at hcmp ⊢
      simp [hcmp, eq_comm]
    · have hne : comp ≠ name := fun heq => hlen (by rw [heq])
      simp [hlen, hne]

theorem dtFindNodeRound_node (comps : List (List UInt8)) (h : Inside dt (.node name items rest) o)
    (d m : Nat) :
    dtFindNodeRound dt comps ⟨o, d, m⟩ = if d = m ∧ comps[m]? = some name then
        if m + 1 = comps.length then .done (.ok, some ⟨.structs (o + 4), o + 4, d⟩)
        else .next ⟨behindName o name, d + 1, m + 1⟩
      else .next ⟨behindName o name, d + 1, m⟩ := by
  obtain ⟨htoken, hw, hlt, hskip, hitems⟩ := h.node
  have hname : HasString dt.structBlock (o + 4) name := h.lays.2.1
  have hlen : name.length < 0x100000000 := by
    have := le_behindName o name
    have := items.le_ends (behindName o name)
    have := hitems.fits
    have := hitems.small
    omega
  simp only [dtFindNodeRound, htoken, hw, hname.strLen_eq hlen, nameMatches_eq hname, atName, hskip,
    decide_eq_true_eq]

theorem dtFindNodeRound_nop (comps : List (List UInt8)) (h : Inside dt (.nop rest) o) (d m : Nat) :
    dtFindNodeRound dt comps ⟨o, d, m⟩ = .next ⟨o + 4, d, m⟩ := by
  obtain ⟨htoken, hw, -⟩ := h.nop
  simp only [dtFindNodeRound, htoken, hw]

theorem dtFindNodeRound_prop (comps : List (List UInt8)) {data : List UInt8} {nameoff : Nat}
    (h : Inside dt (.prop name nameoff data rest) o) (d m : Nat) :
    dtFindNodeRound dt comps ⟨o, d, m⟩ = .next ⟨behindData o data, d, m⟩ := by
  obtain ⟨htoken, hw, -, -, hskip, -⟩ := h.prop
  simp only [dtFindNodeRound, htoken, hw, hskip]

theorem dtFindNodeRound_endNode (comps : List (List UInt8))
    (h : Inside dt (.node name items rest) o) (d m : Nat) :
    dtFindNodeRound dt comps ⟨items.ends (behindName o name), d + 1, m⟩ =
      .next ⟨items.ends (behindName o name) + 4, d, if d < m then d else m⟩ := by
  obtain ⟨htoken, hw, -⟩ := h.endNode
  simp only [dtFindNodeRound, htoken, hw, Nat.add_sub_cancel]
  rw [if_pos (Nat.succ_pos d)]

theorem pass_items (comps : List (List UInt8)) (items : Items) : ∀ (o d m : Nat), m < d →
    Inside dt items o → Matches dt comps ⟨o, d, m⟩ ⟨items.ends o, d, m⟩ := by
  induction items with
  | nil => exact fun o d m _ _ => .refl _
  | nop rest ih =>
    intro o d m hm h
    exact .next h.nop.2.2.1 (dtFindNodeRound_nop comps h d m) (le_refl _)
      (ih _ d m hm h.nop.2.2.2)
  | prop name nameoff data rest ih =>
    intro o d m hm h
    obtain ⟨-, -, -, hfits, -, hrest⟩ := h.prop
    have := le_behindData o data
    exact .next (show o < dt.structSize by omega) (dtFindNodeRound_prop comps h d m)
      (show o + 4 ≤ behindData o data by omega) (ih _ d m hm hrest)
  | node name items rest ihItems ihRest =>
    intro o d m hm h
    have hbegin := dtFindNodeRound_node comps h d m
    rw [if_neg (fun hd => absurd hd.1 (by omega))] at hbegin
    have hend := dtFindNodeRound_endNode comps h d m
    rw [if_neg (by omega)] at hend
    have := le_behindName o name
    exact .next h.node.2.2.1 hbegin (show o + 4 ≤ behindName o name by omega)
      ((ihItems _ (d + 1) m (by omega) h.node.2.2.2.2).trans
        (.next h.endNode.2.2.1 hend (le_refl _) (ihRest _ d m hm h.endNode.2.2.2)))

def Searched (dt : DtParser) (comps : List (List UInt8)) (d : Nat) (items : Items) (o : Nat) :
    Option Located → Prop
  | none => Matches dt comps ⟨o, d, d⟩ ⟨items.ends o, d, d⟩
  | some y => ∃ s', Matches dt comps ⟨o, d, d⟩ s' ∧ s'.offset < dt.structSize ∧
      dtFindNodeRound dt comps s' = .done (.ok, some y.node)

theorem Searched.after {d o' : Nat} {items' : Items} {r : Option Located}
    (h : Searched dt comps d items' o' r) (hrun : Matches dt comps ⟨o, d, d⟩ ⟨o', d, d⟩)
    (hends : items'.ends o' = items.ends o) : Searched dt comps d items o r := by
  cases r with
  | none =>
    rw [Searched, hends] at h
    exact hrun.trans h
  | some y =>
    obtain ⟨s', hs', hdone⟩ := h
    exact ⟨s', hrun.trans hs', hdone⟩

theorem find_items (comps : List (List UInt8)) (items : Items) : ∀ (o d : Nat), Inside dt items o →
    Searched dt comps d items o (items.find (comps.drop d) o d) := by
  induction items with
  | nil => exact fun o d _ => Advances.refl _
  | nop rest ih =>
    intro o d h
    exact (ih (o + 4) d h.nop.2.2.2).after
      (.single h.nop.2.2.1 (dtFindNodeRound_nop comps h d d) (le_refl _)) rfl
  | prop name nameoff data rest ih =>
    intro o d h
    obtain ⟨-, -, -, hfits, -, hrest⟩ := h.prop
    have := le_behindData o data
    exact (ih _ d hrest).after (.single (show o < dt.structSize by omega)
      (dtFindNodeRound_prop comps h d d) (show o + 4 ≤ behindData o data by omega)) rfl
  | node name items rest ihItems ihRest =>
    intro o d h
    have hbegin := dtFindNodeRound_node comps h d d
    have hwidth : o + 4 ≤ behindName o name := by
      have := le_behindName o name
      omega
    -- how the loop comes from behind the subnodes to the next node
    have honward : ∀ m, (if d < m then d else m) = d →
        Matches dt comps ⟨o, d, d⟩ ⟨items.ends (behindName o name), d + 1, m⟩ →
        Searched dt comps d (.node name items rest) o
          (rest.find (comps.drop d) (items.ends (behindName o name) + 4) d) := by
      intro m hm hrun
      have hend := dtFindNodeRound_endNode comps h d m
      rw [hm] at hend
      exact (ihRest _ d h.endNode.2.2.2).after
        (hrun.trans (.single h.endNode.2.2.1 hend (le_refl _))) rfl
    simp only [Items.find, head?_drop, tail_drop]
    by_cases hmatch : comps[d]? = some name
    · rw [if_pos ⟨rfl, hmatch⟩] at hbegin
      rw [if_pos hmatch]
      have hlen : d < comps.length := (List.getElem?_eq_some_iff.mp hmatch).1
      by_cases hlast : d + 1 = comps.length
      · rw [if_pos hlast] at hbegin
        rw [if_pos (drop_eq_nil_of_le (by omega))]
        exact ⟨_, .refl _, h.node.2.2.1, hbegin⟩
      · rw [if_neg hlast] at hbegin
        rw [if_neg (fun hnil => hlast (by have := drop_eq_nil_iff.mp hnil; omega))]
        have hin : Matches dt comps ⟨o, d, d⟩ ⟨behindName o name, d + 1, d + 1⟩ :=
          .single h.node.2.2.1 hbegin hwidth
        have hbelow := ihItems (behindName o name) (d + 1) h.node.2.2.2.2
        cases hfind : items.find (comps.drop (d + 1)) (behindName o name) (d + 1) with
        | some y =>
          rw [hfind] at hbelow
          obtain ⟨s', hs', hdone⟩ := hbelow
          exact ⟨s', hin.trans hs', hdone⟩
        | none =>
          rw [hfind] at hbelow
          exact honward (d + 1) (if_pos (Nat.lt_succ_self d)) (hin.trans hbelow)
    · rw [if_neg (fun hd => hmatch hd.2)] at hbegin
      rw [if_neg hmatch]
      exact honward d (if_neg (lt_irrefl d)) (.next h.node.2.2.1 hbegin hwidth
        (pass_items comps items _ (d + 1) d (Nat.lt_succ_self d) h.node.2.2.2.2))

theorem dtFindNode_eq (hinit : dt.initialized = true) (h : Flattened dt top)
    (hpath : stripSlash path = c :: p) :
    dtFindNode dt path (dt.structSize / 4 + 1) =
      (top.find (pathComponents dtMaxPathDepth [] (c :: p)) 0 0).elim (some (.noDevice, none))
        fun y => some (.ok, some y.node) := by
  have hsearch := find_items (pathComponents dtMaxPathDepth [] (c :: p)) top 0 0 h.inside
  rw [drop_zero] at hsearch
  rw [dtFindNode, hinit, if_neg (by decide), hpath]
  cases hfind : top.find (pathComponents dtMaxPathDepth [] (c :: p)) 0 0 with
  | some y =>
    rw [hfind] at hsearch
    obtain ⟨s', hs', hpos, hdone⟩ := hsearch
    exact hs'.posLoop_done _ hpos hdone (lt_tokens dt.structSize 0)
  | none =>
    rw [hfind] at hsearch
    have hlt : top.ends 0 < dt.structSize := by
      have := h.fits
      omega
    refine hsearch.posLoop_done _ hlt ?_ (lt_tokens dt.structSize 0)
    simp only [dtFindNodeRound, h.token_ends]

/-! ## The search and the names -/

theorem find_isSome_iff (items : Items) : ∀ (c : List UInt8) (cs : List (List UInt8)) (o d : Nat),
    (items.find (c :: cs) o d).isSome ↔
      ∃ z ∈ items.children o d, z.name = c ∧ ∃ y, Leads cs z y := by
  induction items with
  | nil => simp [Items.find, Items.children]
  | nop rest ih => exact fun c cs o d => ih c cs (o + 4) d
  | prop name nameoff data rest ih => exact fun c cs o d => ih c cs (behindData o data) d
  | node name items rest ihItems ihRest =>
    intro c cs o d
    have honward := ihRest c cs (items.ends (behindName o name) + 4) d
    simp only [Items.find, head?_cons, tail_cons, Option.some.injEq, Items.children,
      mem_cons, exists_eq_or_imp]
    by_cases hname : c = name
    · subst hname
      rw [if_pos rfl]
      cases cs with
      | nil => simp [Leads]
      | cons c' cs' =>
        simp only [reduceCtorEq, if_false, Option.isSome_or, Bool.or_eq_true, honward]
        refine or_congr ?_ Iff.rfl
        rw [ihItems c' cs' (behindName o c) (d + 1)]
        simp only [Leads, true_and, Located.children]
        constructor
        · rintro ⟨z, hz, hzname, y, hy⟩
          exact ⟨y, z, hz, hzname, hy⟩
        · rintro ⟨y, z, hz, hzname, hy⟩
          exact ⟨z, hz, hzname, y, hy⟩
    · rw [if_neg hname, honward]
      have hne : ¬ name = c := fun heq => hname heq.symm
      simp [hne]

theorem find_onlyNops : ∀ {o d : Nat} {comps : List (List UInt8)},
    items.onlyNops = true → items.find comps o d = none := by
  induction items with
  | nil => intros; rfl
  | nop rest ih =>
    intro o d comps h
    exact ih h
  | prop _ _ _ _ _ | node _ _ _ _ _ =>
    intro o d comps h
    cases h

theorem find_top : ∀ {o d : Nat} {c : List UInt8} {cs : List (List UInt8)},
    top.isTop = true → c ≠ [] → top.find (c :: cs) o d = none := by
  induction top with
  | nil =>
    intro o d c cs h
    cases h
  | nop rest ih =>
    intro o d c cs h hc
    exact ih h hc
  | prop _ _ _ _ _ =>
    intro o d c cs h
    cases h
  | node name items rest _ _ =>
    intro o d c cs h hc
    simp only [Items.isTop, Bool.and_eq_true, decide_eq_true_eq] at h
    rw [Items.find, if_neg (by simpa [h.1] using hc)]
    exact find_onlyNops h.2

theorem pathComponents_cur (limit : Nat) (p : List UInt8) : ∀ cur : List UInt8, cur ≠ [] →
    ∃ c cs, pathComponents (limit + 1) cur p = c :: cs ∧ c ≠ [] := by
  induction p with
  | nil =>
    intro cur hcur
    cases cur with
    | nil => exact absurd rfl hcur
    | cons x cur => exact ⟨x :: cur, [], rfl, hcur⟩
  | cons x p ih =>
    intro cur hcur
    rw [pathComponents]
    split
    · exact ⟨cur, _, rfl, hcur⟩
    · exact ih (cur ++ [x]) (by simp)

theorem pathComponents_first (hpath : stripSlash path = c :: p) :
    (∃ rest, path = slash :: slash :: rest ∧
        pathComponents dtMaxPathDepth [] (c :: p) = [] :: pathComponents 15 [] rest) ∨
      (∀ rest, path ≠ slash :: slash :: rest) ∧
        ∃ c' cs, pathComponents dtMaxPathDepth [] (c :: p) = c' :: cs ∧ c' ≠ [] := by
  by_cases hc : c = slash
  · subst hc
    left
    cases path with
    | nil => cases hpath
    | cons x path =>
      rw [stripSlash] at hpath
      split at hpath
      · next hx => exact ⟨p, by rw [hx, hpath], by rw [dtMaxPathDepth, pathComponents, if_pos rfl]⟩
      · next hx =>
        rw [cons.injEq] at hpath
        exact absurd hpath.1 hx
  · right
    constructor
    · rintro rest rfl
      rw [stripSlash, if_pos rfl, cons.injEq] at hpath
      exact hc hpath.1.symm
    · rw [dtMaxPathDepth, pathComponents, if_neg hc]
      exact pathComponents_cur 15 p ([] ++ [c]) (by simp)

theorem children_spec (items : Items) : ∀ (o d : Nat), ∀ z ∈ items.children o d,
    z.offset ≠ 0 ∧ (items.namesOk = true → z.name ≠ [] ∧ slash ∉ z.name) ∧
      (items.topNamesOk = true → z.items.namesOk = true) := by
  induction items with
  | nil =>
    intro o d z hz
    cases hz
  | nop rest ih | prop name nameoff data rest ih => exact fun o d z hz => ih _ _ z hz
  | node name items rest _ ih =>
    intro o d z hz
    simp only [Items.namesOk, Items.topNamesOk, Bool.and_eq_true, decide_eq_true_eq]
    rw [Items.children, mem_cons] at hz
    rcases hz with rfl | hz
    · exact ⟨Nat.succ_ne_zero _, fun h => ⟨h.1.1.1, h.1.1.2⟩, fun h => h.1⟩
    · obtain ⟨hoffset, hname, htop⟩ := ih _ _ z hz
      exact ⟨hoffset, fun h => hname h.2, fun h => htop h.2⟩

theorem leads_offset : ∀ {cs : List (List UInt8)} {x y : Located}, x.offset ≠ 0 → Leads cs x y →
    y.offset ≠ 0
  | [], _, _, hx, h => h ▸ hx
  | _ :: _, _, _, _, h => by
    obtain ⟨z, hz, -, hrest⟩ := h
    exact leads_offset (children_spec _ _ _ z hz).1 hrest

theorem onlyNops_children (items : Items) : ∀ (o d : Nat), items.onlyNops = true →
    items.children o d = [] := by
  induction items with
  | nil => exact fun o d _ => rfl
  | nop rest ih => exact fun o d h => ih _ _ h
  | prop _ _ _ _ _ | node _ _ _ _ _ =>
    intro o d h
    cases h

theorem isTop_children (top : Items) : ∀ (o d : Nat), top.isTop = true →
    ∃ root, top.children o d = [root] ∧ root.name = [] := by
  induction top with
  | nil =>
    intro o d h
    cases h
  | nop rest ih => exact fun o d h => ih _ _ h
  | prop _ _ _ _ _ =>
    intro o d h
    cases h
  | node name items rest _ _ =>
    intro o d h
    simp only [Items.isTop, Bool.and_eq_true, decide_eq_true_eq] at h
    refine ⟨⟨name, o + 4, d, items⟩, ?_, h.1⟩
    rw [Items.children, onlyNops_children rest _ _ h.2]

theorem Names.path_cases {y : Located} (hnames : top.topNamesOk = true) (h : Names top path y) :
    path = [slash] ∨ ∃ c p, path = slash :: c :: p ∧ c ≠ slash := by
  obtain ⟨root, hroot, cs, rfl, hleads⟩ := h
  cases cs with
  | nil => exact .inl rfl
  | cons name cs =>
    obtain ⟨z, hz, rfl, -⟩ := hleads
    obtain ⟨hne, hslash⟩ :=
      (children_spec root.items _ _ z hz).2.1 ((children_spec top 0 0 root hroot).2.2 hnames)
    right
    cases hname : z.name with
    | nil => exact absurd hname hne
    | cons c name =>
      rw [hname] at hslash
      exact ⟨c, name ++ cs.flatMap (slash :: ·), by simp [pathOf], fun hc => hslash (by simp [hc])⟩

theorem not_findsNamed_root : ¬ FindsNamed dt top path (some (.ok, some ⟨.empty, 0, 0⟩)) := by
  rintro (⟨y, node, ⟨root, hroot, cs, -, hleads⟩, hanswer, -, hoffset, -⟩ | ⟨-, hanswer⟩)
  · simp only [Option.some.injEq, Prod.mk.injEq, true_and] at hanswer
    rw [← hanswer] at hoffset
    exact leads_offset (children_spec top 0 0 root hroot).1 hleads hoffset.symm
  · cases hanswer

/-- On every accepted tree, `dt_find_node` is right exactly for the paths that name no node, except
for the empty one and those with `//` that lead from the root to a node. -/
theorem dtFindNode_iff (dtb : Nat → UInt8) (dt : DtParser) (top : Items) (path : List UInt8)
    (hdt : dtInit dtb = .ok dt) (h : Flattened dt top) (hnames : top.topNamesOk = true) :
    FindsNamed dt top path (dtFindNode dt path (dt.structSize / 4 + 1)) ↔
      path ≠ [] ∧ (¬ ∃ y, Names top path y) ∧
        ∀ rest, path = slash :: slash :: rest →
          ¬ ∃ root ∈ top.children 0 0, ∃ y, Leads (pathComponents 15 [] rest) root y := by
  have hinit := dtInit_initialized hdt
  obtain ⟨root, hroot, hrootName⟩ := isTop_children top 0 0 h.isTop
  cases hstrip : stripSlash path with
  | nil =>
    -- the empty path, and the path of the root
    have hanswer : dtFindNode dt path (dt.structSize / 4 + 1) =
        some (.ok, some ⟨.empty, 0, 0⟩) := by
      rw [dtFindNode, hinit, if_neg (by decide), hstrip]
    rw [hanswer]
    refine iff_of_false not_findsNamed_root ?_
    rintro ⟨hne, hno, -⟩
    cases path with
    | nil => exact hne rfl
    | cons x path =>
      rw [stripSlash] at hstrip
      split at hstrip
      · next hx =>
        exact hno ⟨root, root, by rw [hroot]; exact mem_singleton_self root, [],
          by rw [hx, hstrip, pathOf], rfl⟩
      · cases hstrip
  | cons c p =>
    rw [dtFindNode_eq hinit h hstrip]
    have hpath : path ≠ [] := by
      rintro rfl
      cases hstrip
    rcases pathComponents_first hstrip with ⟨rest, rfl, hcomps⟩ | ⟨hnot, c', cs, hcomps, hc'⟩
    · -- such a path names no node, but may be taken for one that does
      have hno : ¬ ∃ y, Names top (slash :: slash :: rest) y := by
        rintro ⟨y, hy⟩
        rcases hy.path_cases hnames with hpath | ⟨c, p, hpath, hc⟩
        · simp at hpath
        · simp only [List.cons.injEq, true_and] at hpath
          exact hc hpath.1.symm
      have hfind := find_isSome_iff top [] (pathComponents 15 [] rest) 0 0
      rw [hcomps]
      cases hsearch : top.find ([] :: pathComponents 15 [] rest) 0 0 with
      | none =>
        refine iff_of_true (.inr ⟨hno, rfl⟩) ⟨hpath, hno, fun rest' heq => ?_⟩
        simp only [List.cons.injEq, true_and] at heq
        subst heq
        rintro ⟨z, hz, y, hy⟩
        have hzname : z.name = [] := by
          rw [hroot, mem_singleton] at hz
          rw [hz, hrootName]
        rw [hsearch] at hfind
        exact absurd (hfind.mpr ⟨z, hz, hzname, y, hy⟩) (by simp)
      | some y =>
        refine iff_of_false ?_ ?_
        · rintro (⟨y', node, hy', -⟩ | ⟨-, hanswer⟩)
          · exact hno ⟨y', hy'⟩
          · cases hanswer
        · rintro ⟨-, -, hall⟩
          rw [hsearch] at hfind
          obtain ⟨z, hz, -, y', hy'⟩ := hfind.mp rfl
          exact hall rest rfl ⟨z, hz, y', hy'⟩
    · -- the first component is compared with the name of the root
      rw [hcomps, find_top h.isTop hc']
      constructor
      · rintro (⟨y, node, -, hanswer, -⟩ | ⟨hno, -⟩)
        · cases hanswer
        · exact ⟨hpath, hno, fun rest heq => absurd heq (hnot rest)⟩
      · rintro ⟨-, hno, -⟩
        exact .inr ⟨hno, rfl⟩

theorem dtFindNode_iff_missing :
    FindsNamed smallDt smallTree [slash, 0x63] (dtFindNode smallDt [slash, 0x63] 16) ↔
      [slash, 0x63] ≠ ([] : List UInt8) ∧ (¬ ∃ y, Names smallTree [slash, 0x63] y) ∧
        ∀ rest, [slash, 0x63] = slash :: slash :: rest →
          ¬ ∃ root ∈ smallTree.children 0 0, ∃ y, Leads (pathComponents 15 [] rest) root y :=
  dtFindNode_iff _ smallDt smallTree [slash, 0x63] dtInit_smallBlob
    ⟨rfl, by decide, by decide, by decide, by decide⟩ rfl

theorem dtFindNode_misses_child :
    Names smallTree [slash, 0x62] ⟨[0x62], 28, 1, .prop [0x61] 0 [2, 3] .nil⟩ ∧
      dtFindNode smallDt [slash, 0x62] 16 = some (.noDevice, none) := by
  refine ⟨⟨_, mem_singleton_self _, [[0x62]], rfl, ?_⟩, by decide⟩
  exact ⟨_, mem_singleton_self _, rfl, rfl⟩

end AlJefra.Bus.Dt
