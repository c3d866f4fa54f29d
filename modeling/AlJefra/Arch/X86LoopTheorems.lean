/- The loops of `hal_mmu_map` and `hal_mmu_unmap`, seen from one address. -/
import AlJefra.Arch.X86WalkTheorems
import AlJefra.Lib.Run

namespace AlJefra.Arch.X86

open AlJefra.Lib AlJefra.Hal List Option UInt64

/-! ## The offsets of a loop -/

variable {size virt : UInt64} {stride : UInt64 → UInt64} {s s' : MmuState}

def visited (stride : UInt64 → UInt64) (size : UInt64) : Nat → UInt64 → List UInt64
  | fuel, offset =>
    if ¬ offset < size then []
    else match fuel with
    | 0 => []
    | fuel + 1 => offset :: visited stride size fuel (offset + stride offset)

theorem visited_spec (hstride : ∀ o, (stride o).toNat % 4096 = 0) :
    ∀ (fuel : Nat) (offset : UInt64),
    offset.toNat % 4096 = 0 →
    ∀ o ∈ visited stride size fuel offset, o.toNat % 4096 = 0 ∧ o.toNat < size.toNat := by
  intro fuel
  induction fuel with
  | zero =>
    intro offset _ o ho
    unfold visited at ho
    split at ho <;> cases ho
  | succ fuel ih =>
    intro offset halign o ho
    unfold visited at ho
    split at ho
    · cases ho
    · rename_i hlt
      obtain rfl | ho := mem_cons.mp ho
      · exact ⟨halign, lt_iff_toNat_lt.mp (Decidable.not_not.mp hlt)⟩
      · refine ih _ ?_ o ho
        have := hstride offset
        rw [UInt64.toNat_add]
        omega

theorem visited_all
    (hstride : ∀ o : UInt64, o.toNat % 4096 = 0 → o.toNat < size.toNat → stride o = pageSize4K) :
    ∀ (fuel : Nat) (offset : UInt64), offset.toNat % 4096 = 0 →
    size.toNat ≤ offset.toNat + fuel * 4096 →
    ∀ o : UInt64, o.toNat % 4096 = 0 → offset.toNat ≤ o.toNat → o.toNat < size.toNat →
      o ∈ visited stride size fuel offset := by
  intro fuel
  induction fuel with
  | zero =>
    intro offset _ hfuel o _ hle hlt
    omega
  | succ fuel ih =>
    intro offset halign hfuel o ho hle hlt
    have hsize := size.toNat_lt
    have hpage : pageSize4K.toNat = 4096 := by decide
    unfold visited
    rw [if_neg (not_not.mpr (lt_iff_toNat_lt.mpr (by omega)))]
    by_cases heq : o = offset
    · rw [heq]
      exact mem_cons_self
    · have hne : o.toNat ≠ offset.toNat := fun h => heq (UInt64.toNat_inj.mp h)
      have hnext : (offset + stride offset).toNat = offset.toNat + 4096 := by
        rw [hstride offset halign (by omega), UInt64.toNat_add, hpage]
        omega
      refine mem_cons_of_mem _ (ih _ ?_ ?_ o ho ?_ hlt)
      · omega
      · omega
      · omega

theorem mapStride_align (v : View) : (mapStride v).toNat % 4096 = 0 := by
  unfold mapStride
  split <;> decide

theorem unmapStride_align (v : View) : (unmapStride v).toNat % 4096 = 0 := by
  unfold unmapStride
  split <;> decide

def mapOffsets (s : MmuState) (virt size : UInt64) : List UInt64 :=
  visited (fun o => mapStride (view s (virt + o))) size (2 ^ 52) 0

def unmapOffsets (s : MmuState) (virt size : UInt64) : List UInt64 :=
  visited (fun o => unmapStride (view s (virt + o))) size (2 ^ 52) 0

/-! ## The loops, seen from one address -/

theorem mapStride_mapView (va entry x : UInt64) (v : View) :
    mapStride (mapView va entry x v) = mapStride v := by
  unfold mapView
  split
  · rfl
  · rename_i hleaf
    have hv := mapStride_of_not_1G hleaf
    rw [hv]
    split
    · rfl
    · split
      · unfold View.split
        split
        · rfl
        · exact hv
      · exact hv

theorem unmapStride_unmapView (va x : UInt64) (v : View) :
    unmapStride (unmapView va x v) = unmapStride v := by
  unfold unmapView
  split
  · rename_i e he
    split
    · simp [unmapStride, he]
    · rfl
  · rfl

/-- The call maps no table and no free page of the pool elsewhere or read-only. -/
def MapClear (s : MmuState) (virt phys size : UInt64) (perms : UInt32) (type : HalMemType) : Prop :=
  ∀ o < size, ∀ p, Owned s p → path p = path (virt + o) →
    (phys + o).toNat / 4096 = p.toNat / 4096 ∧ (requested perms type).writable = true

theorem mapLoop_view {phys : UInt64} {perms : UInt32} {type : HalMemType}
    (hclear : MapClear s virt phys size perms type) :
    ∀ (fuel : Nat) (t : MmuState) (offset : UInt64), SelfMapped t → (∀ p, Owned t p → Owned s p) →
    (∀ x, mapStride (view t x) = mapStride (view s x)) →
    mapLoop virt phys size perms type fuel t offset = some (.ok, s') →
    SelfMapped s' ∧ ∀ x, view s' x =
      (visited (fun o => mapStride (view s (virt + o))) size fuel offset).foldl
        (fun v o => mapView (virt + o) ((phys + o) ||| pteFlags perms type) x v) (view t x) := by
  intro fuel
  induction fuel with
  | zero =>
    intro t offset hself _ _ hret
    unfold mapLoop at hret
    unfold visited
    split at hret
    · rename_i hlt
      rw [if_pos hlt]
      obtain rfl := (Prod.mk.inj (some.inj hret)).2
      exact ⟨hself, fun _ => rfl⟩
    · cases hret
  | succ fuel ih =>
    intro t offset hself howned hstride hret
    unfold mapLoop at hret
    unfold visited
    split at hret
    · rename_i hlt
      rw [if_pos hlt]
      obtain rfl := (Prod.mk.inj (some.inj hret)).2
      exact ⟨hself, fun _ => rfl⟩
    · rename_i hlt
      rw [if_neg hlt]
      match hstep : mapStep t (virt + offset) (phys + offset) perms type with
      | none => simp [hstep] at hret
      | some (none, t') => simp [hstep] at hret
      | some (some stride, t') =>
        rw [hstep] at hret
        obtain ⟨hself', howned', rfl, hview⟩ := mapStep_spec hself
          (fun p hp => hclear offset (Decidable.not_not.mp hlt) p (howned p hp)) hstep
        dsimp only at hret
        rw [hstride] at hret
        refine (ih t' _ hself' (fun p hp => howned p (howned' p hp)) (fun y => ?_) hret).imp_right
          fun h x => ?_
        · rw [hview, mapStride_mapView, hstride]
        · rw [foldl_cons, ← hview x, h]

theorem unmapLoop_view {st : HalStatus} :
    ∀ (fuel : Nat) (t : MmuState) (offset : UInt64), WellFormed t →
    (∀ x, unmapStride (view t x) = unmapStride (view s x)) →
    unmapLoop virt size fuel t offset = some (st, s') →
    WellFormed s' ∧ ∀ x, view s' x =
      (visited (fun o => unmapStride (view s (virt + o))) size fuel offset).foldl
      (fun v o => unmapView (virt + o) x v) (view t x) := by
  intro fuel
  induction fuel with
  | zero =>
    intro t offset hwf _ hret
    unfold unmapLoop at hret
    unfold visited
    split at hret
    · rename_i hlt
      rw [if_pos hlt]
      obtain rfl := (Prod.mk.inj (some.inj hret)).2
      exact ⟨hwf, fun _ => rfl⟩
    · cases hret
  | succ fuel ih =>
    intro t offset hwf hstride hret
    unfold unmapLoop at hret
    unfold visited
    split at hret
    · rename_i hlt
      rw [if_pos hlt]
      obtain rfl := (Prod.mk.inj (some.inj hret)).2
      exact ⟨hwf, fun _ => rfl⟩
    · rename_i hlt
      rw [if_neg hlt]
      obtain ⟨hwf', hmove, hview⟩ := unmapStep_spec hwf (virt + offset)
      dsimp only at hret
      rw [hmove, hstride] at hret
      refine (ih _ _ hwf' (fun y => ?_) hret).imp_right fun h x => ?_
      · rw [hview, unmapStride_unmapView, hstride]
      · rw [foldl_cons, ← hview x, h]

/-! ## What a fold of rounds leaves -/

section Fold

variable {virt : UInt64} {entry : UInt64 → UInt64} {x : UInt64}

def Reached (offsets : List UInt64) (virt x : UInt64) : Prop :=
  ∃ o ∈ offsets, path (virt + o) = path x

def Touched (offsets : List UInt64) (virt x : UInt64) : Prop :=
  ∃ o ∈ offsets, (path (virt + o)).take 3 = (path x).take 3

variable {v : View} {w : UInt64}

theorem split_not_1G (h : ∀ e, v.leaf ≠ .page1G e) (x e : UInt64) :
    (v.split x).leaf ≠ .page1G e := by
  unfold View.split
  split
  · simp
  · exact h e

theorem foldl_mapView_far (offsets : List UInt64) (h : ¬ Touched offsets virt x) :
    offsets.foldl (fun v o => mapView (virt + o) (entry o) x v) v = v :=
  foldl_fixed offsets fun o ho => mapView_other fun heq => h ⟨o, ho, heq.symm⟩

theorem foldl_mapView_settled (h1G : ∀ e, v.leaf ≠ .page1G e) (hsplit : v.split x = v)
    (offsets : List UInt64) (h : ¬ Reached offsets virt x) :
    offsets.foldl (fun v o => mapView (virt + o) (entry o) x v) v = v := by
  refine foldl_fixed offsets fun o ho => ?_
  rw [mapView_of_not_1G h1G, if_neg fun heq => h ⟨o, ho, heq.symm⟩, hsplit, ite_self]

theorem foldl_mapView_near (h1G : ∀ e, v.leaf ≠ .page1G e) :
    ∀ offsets : List UInt64, ¬ Reached offsets virt x → Touched offsets virt x →
    offsets.foldl (fun v o => mapView (virt + o) (entry o) x v) v = v.split x := by
  intro offsets
  induction offsets with
  | nil =>
    rintro - ⟨o, ho, -⟩
    cases ho
  | cons o offsets ih =>
    intro h htouched
    have ho : path x ≠ path (virt + o) := fun heq => h ⟨o, mem_cons_self, heq.symm⟩
    have hrest : ¬ Reached offsets virt x :=
      fun ⟨o', ho', heq⟩ => h ⟨o', mem_cons_of_mem _ ho', heq⟩
    rw [foldl_cons, mapView_of_not_1G h1G, if_neg ho]
    by_cases hnear : (path x).take 3 = (path (virt + o)).take 3
    · rw [if_pos hnear]
      exact foldl_mapView_settled (split_not_1G h1G x)
        (by cases h : v.leaf <;> simp [View.split, h]) offsets hrest
    · rw [if_neg hnear]
      obtain ⟨o', ho', heq⟩ := htouched
      obtain rfl | ho' := mem_cons.mp ho'
      · exact absurd heq.symm hnear
      · exact ih hrest ⟨o', ho', heq⟩

theorem foldl_mapView_set (hv : v.leaf = .page4K w) (offsets : List UInt64)
    (hentry : ∀ o ∈ offsets, path (virt + o) = path x → entry o = w) :
    offsets.foldl (fun v o => mapView (virt + o) (entry o) x v) v = v := by
  refine foldl_fixed offsets fun o ho => ?_
  rw [mapView_of_not_1G (by simp [hv])]
  by_cases hpath : path x = path (virt + o)
  · rw [if_pos hpath, hentry o ho hpath.symm, ← hv]
  · rw [if_neg hpath, split_of_not_2M (by simp [hv]), ite_self]

theorem foldl_mapView_hit : ∀ (offsets : List UInt64) (v : View),
    (∀ e, v.leaf ≠ .page1G e) → Reached offsets virt x →
    (∀ o ∈ offsets, path (virt + o) = path x → entry o = w) →
    offsets.foldl (fun v o => mapView (virt + o) (entry o) x v) v =
      { v with leaf := .page4K w } := by
  intro offsets
  induction offsets with
  | nil =>
    rintro v - ⟨o, ho, -⟩
    cases ho
  | cons o offsets ih =>
    intro v h1G hreached hentry
    have hentry' : ∀ o' ∈ offsets, path (virt + o') = path x → entry o' = w :=
      fun o' ho' => hentry o' (mem_cons_of_mem _ ho')
    rw [foldl_cons, mapView_of_not_1G h1G]
    by_cases ho : path x = path (virt + o)
    · rw [if_pos ho, hentry o mem_cons_self ho.symm]
      exact foldl_mapView_set rfl offsets hentry'
    · have hreached' : Reached offsets virt x := by
        obtain ⟨o', ho', heq⟩ := hreached
        obtain rfl | ho' := mem_cons.mp ho'
        · exact absurd heq.symm ho
        · exact ⟨o', ho', heq⟩
      rw [if_neg ho]
      by_cases hnear : (path x).take 3 = (path (virt + o)).take 3
      · rw [if_pos hnear, ih _ (split_not_1G h1G x) hreached' hentry', split_withLeaf]
      · rw [if_neg hnear, ih v h1G hreached' hentry']

theorem foldl_unmapView_keep (h : ∀ w, v.leaf ≠ .page4K w) (offsets : List UInt64) :
    offsets.foldl (fun v o => unmapView (virt + o) x v) v = v :=
  foldl_fixed offsets fun _ _ => unmapView_of_not_4K h

theorem foldl_unmapView_far (offsets : List UInt64) (h : ¬ Reached offsets virt x) :
    offsets.foldl (fun v o => unmapView (virt + o) x v) v = v :=
  foldl_fixed offsets fun o ho => unmapView_other fun heq => h ⟨o, ho, heq.symm⟩

theorem foldl_unmapView_hit (hv : v.leaf = .page4K w) :
    ∀ offsets : List UInt64, Reached offsets virt x →
    (offsets.foldl (fun v o => unmapView (virt + o) x v) v).leaf = .absent := by
  intro offsets
  induction offsets with
  | nil =>
    rintro ⟨o, ho, -⟩
    cases ho
  | cons o offsets ih =>
    intro hreached
    rw [foldl_cons]
    by_cases ho : path x = path (virt + o)
    · have hround : unmapView (virt + o) x v = { v with leaf := .absent } := by
        simp only [unmapView, hv, if_pos ho]
      rw [hround, foldl_unmapView_keep (by simp)]
    · rw [unmapView_other ho]
      obtain ⟨o', ho', heq⟩ := hreached
      obtain rfl | ho' := mem_cons.mp ho'
      · exact absurd heq.symm ho
      · exact ih ⟨o', ho', heq⟩

end Fold

end AlJefra.Arch.X86
