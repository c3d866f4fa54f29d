/- When the loops over the structure block end. -/
import AlJefra.Bus.DtParser

namespace AlJefra.Bus.Dt

open AlJefra.Hal List Option
open AlJefra.Lib

variable (dt : DtParser)

def dtNext (o : Nat) : Round Nat Unit :=
  let offset := w32 (o + 4)
  match dtToken dt o with
  | .beginNode => atName dt offset .next
  | .prop => .next (dtSkipProp dt offset)
  | .fin => .done ()
  | .endNode => .next offset
  | .nop => .next offset
  | .other => .next offset

def DtParser.tokens : Nat := dt.structSize / 4 + 1

structure AllFinish : Prop where
  walk : (dtWalk dt dt.tokens).isSome
  walkProperties : (dtWalkProperties dt dt.tokens).isSome
  findNode : ∀ path, (dtFindNode dt path dt.tokens).isSome
  findProperty : ∀ st nodes, dtWalk dt dt.tokens = some (st, nodes) → ∀ node ∈ nodes,
    ∀ propName, (dtFindProperty dt node propName dt.tokens).isSome

/-! ## The loops follow the chain -/

variable {dt}

theorem agrees_atName {σ ρ : Type} {pos : σ → Nat} {offset : Nat} {k : Nat → σ}
    (h : ∀ next, pos (k next) = next) :
    (atName dt offset fun next => (.next (k next) : Round σ ρ)).Agrees pos
      (atName dt offset .next) := by
  rw [atName, atName]
  cases dtSkipName dt offset with
  | none => rfl
  | some next => exact congrArg Round.next (h next).symm

theorem dtWalk_follows (dt : DtParser) : Follows WalkState.offset (dtWalkRound dt) (dtNext dt) := by
  intro s
  simp only [dtWalkRound, dtNext]
  cases dtToken dt s.offset with
  | beginNode => exact agrees_atName fun _ => rfl
  | prop =>
    dsimp only
    split
    · trivial
    · rfl
  | endNode | nop => rfl
  | fin | other => trivial

theorem dtWalkProperties_follows (dt : DtParser) :
    Follows WalkPropState.offset (dtWalkPropertiesRound dt) (dtNext dt) := by
  intro s
  simp only [dtWalkPropertiesRound, dtNext]
  cases dtToken dt s.offset with
  | beginNode => exact agrees_atName fun _ => rfl
  | prop =>
    dsimp only
    split
    · trivial
    · rfl
  | endNode | nop => rfl
  | fin | other => trivial

theorem dtFindNode_follows (dt : DtParser) (components : List (List UInt8)) :
    Follows FindState.offset (dtFindNodeRound dt components) (dtNext dt) := by
  intro s
  simp only [dtFindNodeRound, dtNext]
  cases dtToken dt s.offset with
  | beginNode =>
    cases hlen : strLen dt.structBlock (w32 (s.offset + 4)) with
    | none => simp only [atName, dtSkipName, hlen, map_none, Round.Agrees]
    | some len =>
      dsimp only
      split
      · split
        · trivial
        · exact agrees_atName fun _ => rfl
      · exact agrees_atName fun _ => rfl
  | prop => rfl
  | endNode =>
    dsimp only
    split <;> rfl
  | nop => rfl
  | fin => trivial
  | other => rfl

theorem dtFindProperty_follows (dt : DtParser) (propName : List UInt8) :
    Follows PropState.offset (dtFindPropertyRound dt propName) (dtNext dt) := by
  intro s
  simp only [dtFindPropertyRound, dtNext]
  cases dtToken dt s.offset with
  | beginNode => exact agrees_atName fun _ => rfl
  | prop | endNode =>
    dsimp only
    split
    · trivial
    · rfl
  | nop => rfl
  | fin => trivial
  | other => rfl

/-! ## A chain that does not come back -/

abbrev dtChain (dt : DtParser) (o : Nat) (k : Nat) : Option Nat :=
  chain dt.structSize (dtNext dt) o k

theorem dvd_w32 {x : Nat} (h : 4 ∣ x) : 4 ∣ w32 (x + 4) := by
  rw [w32]
  omega

theorem dvd_dtAlign4 (x : Nat) : 4 ∣ dtAlign4 x := Nat.dvd_mul_left 4 _

variable {n o : Nat} {node : DtNode}

theorem dvd_dtSkipName {next : Nat} (h : dtSkipName dt o = some next) : 4 ∣ next := by
  rw [dtSkipName, map_eq_some_iff] at h
  obtain ⟨len, -, rfl⟩ := h
  exact dvd_dtAlign4 _

theorem dvd_dtNext {o' : Nat} (ho : 4 ∣ o) (h : dtNext dt o = .next o') : 4 ∣ o' := by
  simp only [dtNext] at h
  cases htoken : dtToken dt o with
  | beginNode =>
    simp only [htoken, atName] at h
    split at h
    · cases h
    · next hskip =>
      cases h
      exact dvd_dtSkipName hskip
  | prop =>
    simp only [htoken, Round.next.injEq] at h
    rw [← h]
    exact dvd_dtAlign4 _
  | fin => simp only [htoken, reduceCtorEq] at h
  | endNode | nop | other =>
    simp only [htoken, Round.next.injEq] at h
    exact h ▸ dvd_w32 ho

theorem dvd_dtChain (ho : 4 ∣ o) (k : Nat) : ∀ p, dtChain dt o k = some p → 4 ∣ p := by
  induction k with
  | zero =>
    intro p h
    cases h
    exact ho
  | succ k ih =>
    intro p h
    obtain ⟨q, hq, -, hnext⟩ := chain_succ_eq_some.mp h
    exact dvd_dtNext (ih q hq) hnext

theorem dtChain_ends (ho : 4 ∣ o) (h : NeverReturns dt.structSize (dtNext dt) o) :
    (scanChain dt.structSize (dtNext dt) dt.tokens o).isSome :=
  ends_of_neverReturns (dvd_dtChain ho) h

/-! ## Nodes that are reported -/

def OnChain (dt : DtParser) (node : DtNode) : Prop :=
  ∃ k o, dtChain dt 0 k = some o ∧ o < dt.structSize ∧ dtToken dt o = .beginNode ∧
    node.offset = w32 (o + 4)

theorem dtWalkRound_next {s s' : WalkState} (h : dtWalkRound dt s = .next s') :
    ∀ node ∈ s'.nodes, node ∈ s.nodes ∨
      dtToken dt s.offset = .beginNode ∧ node.offset = w32 (s.offset + 4) := by
  simp only [dtWalkRound] at h
  cases htoken : dtToken dt s.offset with
  | beginNode =>
    simp only [htoken, atName] at h
    split at h
    · cases h
    · cases h
      intro node hnode
      rcases mem_append.mp hnode with hold | hnew
      · exact .inl hold
      · rw [mem_singleton.mp hnew]
        exact .inr ⟨rfl, rfl⟩
  | prop =>
    simp only [htoken] at h
    split at h
    · cases h
    · cases h
      exact fun node hnode => .inl hnode
  | endNode | nop =>
    simp only [htoken, Round.next.injEq] at h
    subst h
    exact fun node hnode => .inl hnode
  | fin | other => simp only [htoken, reduceCtorEq] at h

theorem dtWalkRound_done {s : WalkState} {r : HalStatus × List DtNode}
    (h : dtWalkRound dt s = .done r) : r.2 = s.nodes := by
  simp only [dtWalkRound, atName] at h
  cases htoken : dtToken dt s.offset with
  | beginNode =>
    simp only [htoken] at h
    split at h <;> cases h
  | prop =>
    simp only [htoken] at h
    split at h
    · cases h
      rfl
    · cases h
  | endNode | nop => simp only [htoken, reduceCtorEq] at h
  | fin | other =>
    simp only [htoken, Round.done.injEq] at h
    rw [← h]

theorem posLoop_walk_onChain : ∀ (n k : Nat) (s : WalkState) (r : HalStatus × List DtNode),
    dtChain dt 0 k = some s.offset → (∀ node ∈ s.nodes, OnChain dt node) →
    posLoop dt.structSize WalkState.offset (dtWalkRound dt) (fun s => (.ok, s.nodes)) n s = some r →
    ∀ node ∈ r.2, OnChain dt node := by
  intro n
  induction n with
  | zero =>
    intro k s r _ hs hscan
    rw [posLoop] at hscan
    split at hscan
    · cases hscan
    · cases hscan
      exact hs
  | succ n ih =>
    intro k s r hk hs hscan
    by_cases hpos : s.offset < dt.structSize
    · cases hround : dtWalkRound dt s with
      | next s' =>
        rw [posLoop_next hpos hround] at hscan
        have hnext : dtNext dt s.offset = .next s'.offset := by
          have hagrees := dtWalk_follows dt s
          rwa [hround] at hagrees
        refine ih (k + 1) s' r (chain_succ_eq_some.mpr ⟨_, hk, hpos, hnext⟩) ?_ hscan
        intro node hnode
        rcases dtWalkRound_next hround node hnode with hold | ⟨htoken, hoffset⟩
        · exact hs node hold
        · exact ⟨k, s.offset, hk, hpos, htoken, hoffset⟩
      | done r' =>
        rw [posLoop_of_done hpos hround, Option.some.injEq] at hscan
        rw [← hscan, dtWalkRound_done hround]
        exact hs
      | stuck =>
        rw [posLoop, if_pos hpos, hround] at hscan
        cases hscan
    · rw [posLoop_of_end hpos, Option.some.injEq] at hscan
      rw [← hscan]
      exact hs

theorem OnChain.ends (h : OnChain dt node)
    (hends : (scanChain dt.structSize (dtNext dt) n 0).isSome) :
    ∃ start, dtSkipName dt node.offset = some start ∧
      (scanChain dt.structSize (dtNext dt) n start).isSome := by
  obtain ⟨k, o, hk, hlt, htoken, hoffset⟩ := h
  have hnot := (neverReturns_of_ends hends).notStuck k o hk hlt
  have hnextEq : dtNext dt o = atName dt (w32 (o + 4)) .next := by
    simp only [dtNext, htoken]
  rw [hoffset]
  cases hskip : dtSkipName dt (w32 (o + 4)) with
  | none => exact absurd (by rw [hnextEq, atName, hskip]) hnot
  | some start =>
    have hnext : dtNext dt o = .next start := by rw [hnextEq, atName, hskip]
    have hchain : dtChain dt 0 (k + 1) = some start := chain_succ_eq_some.mpr ⟨o, hk, hlt, hnext⟩
    refine ⟨start, rfl, ?_⟩
    rw [← scanChain_add (k + 1) n hchain]
    exact scanChain_mono (by omega) hends

/-! ## A path that no name matches -/

theorem pathComponents_plain (limit : Nat) (p : List UInt8) : ∀ cur : List UInt8, slash ∉ p →
    cur ++ p ≠ [] → pathComponents (limit + 1) cur p = [cur ++ p] := by
  induction p with
  | nil =>
    intro cur _ hne
    cases cur with
    | nil => exact absurd rfl hne
    | cons x cur => simp [pathComponents]
  | cons x p ih =>
    intro cur hslash hne
    rw [mem_cons, not_or] at hslash
    rw [pathComponents, if_neg (Ne.symm hslash.1), ih (cur ++ [x]) hslash.2 (by simp)]
    simp

theorem posLoop_unmatched (comp : List UInt8) (N : Nat)
    (hlen : ∀ k ≤ N, ∀ o, dtChain dt 0 k = some o →
      strLen dt.structBlock (w32 (o + 4)) ≠ some comp.length) :
    ∀ (n k : Nat) (s : FindState), dtChain dt 0 k = some s.offset → k + n = N →
    (posLoop dt.structSize FindState.offset (dtFindNodeRound dt [comp])
      (fun _ => (HalStatus.noDevice, none)) n s).isSome →
    (scanChain dt.structSize (dtNext dt) n s.offset).isSome := by
  intro n
  induction n with
  | zero =>
    intro k s _ _ h
    by_cases hpos : s.offset < dt.structSize
    · simp [posLoop, hpos] at h
    · rw [scanChain_of_end hpos, isSome_some]
  | succ n ih =>
    intro k s hk hkn h
    by_cases hpos : s.offset < dt.structSize
    · have hagrees := dtFindNode_follows dt [comp] s
      cases hround : dtFindNodeRound dt [comp] s with
      | next s' =>
        rw [hround] at hagrees
        rw [posLoop_next hpos hround] at h
        rw [scanChain_of_next hpos hagrees]
        exact ih (k + 1) s' (chain_succ_eq_some.mpr ⟨_, hk, hpos, hagrees⟩) (by omega) h
      | done r =>
        -- the loop ended here because the chain does
        have hfin : dtToken dt s.offset = .fin := by
          simp only [dtFindNodeRound] at hround
          cases htoken : dtToken dt s.offset with
          | fin => rfl
          | beginNode =>
            simp only [htoken] at hround
            split at hround
            · cases hround
            · next len hstr =>
              have hne : len ≠ comp.length := fun heq => hlen k (by omega) _ hk (heq ▸ hstr)
              have hno : nameMatches dt [comp] (w32 (s.offset + 4)) len s.matchLevel = false := by
                rw [nameMatches]
                cases hm : [comp][s.matchLevel]? with
                | none => rfl
                | some comp' =>
                  have : comp' = comp := by
                    have := mem_of_getElem? hm
                    simpa using this
                  simp [this, hne]
              simp only [hno, Bool.false_eq_true, and_false, if_false, atName] at hround
              split at hround <;> cases hround
          | prop | nop | other => simp only [htoken, reduceCtorEq] at hround
          | endNode =>
            simp only [htoken] at hround
            split at hround <;> cases hround
        have hdone : dtNext dt s.offset = .done () := by simp only [dtNext, hfin]
        rw [scanChain_of_done hpos hdone, isSome_some]
      | stuck =>
        rw [posLoop, if_pos hpos, hround] at h
        cases h
    · rw [scanChain_of_end hpos, isSome_some]

theorem exists_unmatched (dt : DtParser) (N : Nat) : ∃ L, 0 < L ∧ ∀ k ≤ N, ∀ o,
    dtChain dt 0 k = some o → strLen dt.structBlock (w32 (o + 4)) ≠ some L := by
  let lens : Finset Nat := (Finset.range (N + 1)).image fun k =>
    ((dtChain dt 0 k).bind fun o => strLen dt.structBlock (w32 (o + 4))).getD 0
  obtain ⟨L, hL⟩ := Infinite.exists_notMem_finset (insert 0 lens)
  rw [Finset.mem_insert, not_or] at hL
  refine ⟨L, Nat.pos_of_ne_zero hL.1, fun k hk o ho hstr => hL.2 ?_⟩
  refine Finset.mem_image.mpr ⟨k, Finset.mem_range.mpr (by omega), ?_⟩
  rw [ho, bind_some, hstr, getD_some]

/-! ## When everything ends -/

theorem neverReturns_of_findNode (hinit : dt.initialized = true)
    (h : ∀ path, (dtFindNode dt path dt.tokens).isSome) :
    NeverReturns dt.structSize (dtNext dt) 0 := by
  obtain ⟨L, hL, hlen⟩ := exists_unmatched dt dt.tokens
  obtain ⟨L, rfl⟩ : ∃ k, L = k + 1 := ⟨L - 1, by omega⟩
  have hplain : slash ∉ replicate (L + 1) (0x61 : UInt8) := by
    rw [mem_replicate]
    exact fun hmem => absurd hmem.2 (by decide)
  have hpath := h (replicate (L + 1) 0x61)
  rw [dtFindNode, hinit, if_neg (by decide), replicate_succ, stripSlash,
    if_neg (by decide)] at hpath
  dsimp only at hpath
  rw [← replicate_succ, dtMaxPathDepth,
    pathComponents_plain 15 _ [] hplain (by simp), nil_append] at hpath
  refine neverReturns_of_ends (posLoop_unmatched (replicate (L + 1) 0x61) dt.tokens ?_
    dt.tokens 0 ⟨0, 0, 0⟩ rfl (zero_add _) hpath)
  rw [length_replicate]
  exact hlen

theorem dtFindProperty_ends {start : Nat} (propName : List UInt8)
    (hstart : dtSkipName dt node.offset = some start)
    (hends : (scanChain dt.structSize (dtNext dt) n start).isSome) :
    (dtFindProperty dt node propName n).isSome := by
  rw [dtFindProperty]
  split
  · rfl
  · rw [hstart, bind_some]
    exact (dtFindProperty_follows dt propName).ends n ⟨start, 0⟩ hends

/-- For every structure block: the four functions end within `struct_size / 4 + 1` tokens exactly if
the chain of tokens never comes back to an offset and every name on it ends. -/
theorem dt_allFinish_iff (dt : DtParser) :
    (AllFinish dt ↔
      dt.initialized = false ∨ NeverReturns dt.structSize (dtNext dt) 0) ∧
    ∀ node propName start, dtSkipName dt node.offset = some start →
      NeverReturns dt.structSize (dtNext dt) start →
      (dtFindProperty dt node propName dt.tokens).isSome := by
  refine ⟨⟨fun h => ?_, fun h => ?_⟩, fun node propName start hstart h =>
    dtFindProperty_ends propName hstart (dtChain_ends (dvd_dtSkipName hstart) h)⟩
  · cases hinit : dt.initialized with
    | false => exact .inl rfl
    | true => exact .inr (neverReturns_of_findNode hinit h.findNode)
  · cases hinit : dt.initialized with
    | false =>
      refine ⟨?_, ?_, ?_, ?_⟩
      · rw [dtWalk, hinit]
        rfl
      · rw [dtWalkProperties, hinit]
        rfl
      · intro path
        rw [dtFindNode, hinit]
        rfl
      · intro st nodes _ node _ propName
        rw [dtFindProperty, hinit]
        rfl
    | true =>
      have hends := dtChain_ends (Nat.dvd_zero 4) (h.resolve_left (by rw [hinit]; decide))
      refine ⟨?_, ?_, ?_, ?_⟩
      · rw [dtWalk, hinit, if_neg (by decide)]
        exact (dtWalk_follows dt).ends dt.tokens ⟨0, 0, []⟩ hends
      · rw [dtWalkProperties, hinit, if_neg (by decide)]
        exact (dtWalkProperties_follows dt).ends dt.tokens ⟨0, 0, ⟨.empty, 0, 0⟩, []⟩ hends
      · intro path
        rw [dtFindNode, hinit, if_neg (by decide)]
        split
        · rfl
        · exact (dtFindNode_follows dt _).ends dt.tokens ⟨0, 0, 0⟩ hends
      · intro st nodes hwalk node hnode propName
        rw [dtWalk, hinit, if_neg (by decide)] at hwalk
        have hon := posLoop_walk_onChain dt.tokens 0 ⟨0, 0, []⟩ (st, nodes) rfl
          (fun _ hmem => absurd hmem not_mem_nil) hwalk node hnode
        obtain ⟨start, hstart, hstartEnds⟩ := hon.ends hends
        exact dtFindProperty_ends propName hstart hstartEnds

def wrapDt : DtParser where
  structBlock := fun i => [0, 0, 0, 3, 0xFF, 0xFF, 0xFF, 0xF4, 0, 0, 0, 0].getD i 0
  structSize := 12
  stringsBlock := fun _ => 0
  stringsSize := 0
  initialized := true

theorem dtWalk_never_ends : ¬ ∃ n result, dtWalk wrapDt n = some result := by
  have hround : dtWalkRound wrapDt ⟨0, 0, []⟩ = .next ⟨0, 0, []⟩ := by decide
  have hpos : WalkState.offset ⟨0, 0, []⟩ < wrapDt.structSize := by decide
  have hscan : ∀ n, posLoop wrapDt.structSize WalkState.offset (dtWalkRound wrapDt)
      (fun s => (HalStatus.ok, s.nodes)) n ⟨0, 0, []⟩ = none := by
    intro n
    induction n with
    | zero => rfl
    | succ n ih => rw [posLoop_next hpos hround, ih]
  rintro ⟨n, result, h⟩
  have hnone : dtWalk wrapDt n = none := hscan n
  rw [hnone] at h
  cases h

end AlJefra.Bus.Dt
