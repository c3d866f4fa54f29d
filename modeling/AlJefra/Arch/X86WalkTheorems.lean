/-
What one round of `hal_mmu_map` or `hal_mmu_unmap` does to every walk.

The tables form a tree (`WellFormed`). For `hal_mmu_map` they and the free pages of the pool are
also mapped to themselves (`SelfMapped`): then each pointer of the code reaches the frame it names,
and a round that maps none of these pages elsewhere keeps that so (`mapStep_spec`).
-/
import AlJefra.Arch.X86Entries
import Mathlib.Data.List.Induction

namespace AlJefra.Arch.X86

open AlJefra.Lib AlJefra.Hal List UInt64

/-! ## Well-formed tables -/

abbrev MmuState.Table (s : MmuState) (π : List (Fin 512)) (p : UInt64) : Prop :=
  Reaches nextTable s.mem (frameAddr s.cr3) π p

/-- The tables form a tree that the free pages are not in, and a pointer to a table has no bit above
bit 51. -/
structure WellFormed (s : MmuState) : Prop where
  root : s.cr3.toNat < 2 ^ 52
  tree : IsTree nextTable s.mem (frameAddr s.cr3)
  pointers : ∀ π p i q, s.Table π p → nextTable π.length (s.mem p i) = some q →
    (s.mem p i).toNat < 2 ^ 52
  pool : ∀ i < 4096, s.pageBitmap i = false → ∀ π, ¬ s.Table π (poolPage i)

/-- The pages the code takes pointers to: the tables, and the pages of the pool that are free. -/
def Owned (s : MmuState) (p : UInt64) : Prop :=
  (∃ π, s.Table π p) ∨ ∃ k < 4096, s.pageBitmap k = false ∧ p = poolPage k

theorem table_root (s : MmuState) : s.Table [] (frameAddr s.cr3) := rfl

section Tables

variable {s : MmuState} {π : List (Fin 512)} {p : UInt64} {i : Fin 512}

theorem WellFormed.next (h : WellFormed s) (hp : s.Table π p) (hd : π.length ≤ 2)
    (hpresent : bit (s.mem p i) 0 = true) (hh : π.length = 0 ∨ bit (s.mem p i) 7 = false) :
    s.Table (π ++ [i]) (tableBase (s.mem p i)) := by
  have hn := nextTable_eq_some hd hpresent hh
  rw [tableBase_eq_frameAddr (h.pointers π p i _ hp hn)]
  exact reaches_snoc.mpr ⟨p, hp, hn⟩

theorem WellFormed.trace_spec (h : WellFormed s) : ∀ {π : List (Fin 512)} {p : UInt64},
    s.Table π p → (trace nextTable s.mem 0 (frameAddr s.cr3) π).length = π.length ∧
      ∀ e ∈ trace nextTable s.mem 0 (frameAddr s.cr3) π, e.toNat < 2 ^ 52 := by
  intro π
  induction π using reverseRecOn with
  | nil => intro p _; exact ⟨rfl, by simp [trace]⟩
  | append_singleton π i ih =>
    intro q hq
    obtain ⟨p, hp, hn⟩ := reaches_snoc.mp hq
    obtain ⟨hlen, hlt⟩ := ih hp
    rw [trace_append _ _ _ _ _ hp]
    simp only [trace, zero_add, hn]
    refine ⟨by simp [hlen], fun e he => ?_⟩
    obtain he | he := mem_append.mp he
    · exact hlt e he
    · obtain rfl := mem_singleton.mp he
      exact h.pointers π p i q hp hn

theorem WellFormed.write (h : WellFormed s) (hp : s.Table π p) {v : UInt64}
    (hold : nextTable π.length (s.mem p i) = none) (hnew : nextTable π.length v = none) :
    WellFormed (s.write p i v) ∧ ∀ ρ r, (s.write p i v).Table ρ r ↔ s.Table ρ r := by
  have hreach : ∀ ρ r, (s.write p i v).Table ρ r ↔ s.Table ρ r :=
    reaches_setWord h.tree hp hold hnew
  refine ⟨⟨h.root, isTree_setWord h.tree hp hold hnew, ?_, ?_⟩, hreach⟩
  · intro ρ r j q hr hn
    rw [hreach] at hr
    by_cases hslot : r = p ∧ j = i
    · obtain ⟨rfl, rfl⟩ := hslot
      obtain rfl := h.tree ρ π r hr hp
      simp only [MmuState.write, setWord_self] at hn
      rw [hnew] at hn
      cases hn
    · simp only [MmuState.write, setWord_ne s.mem v hslot] at hn ⊢
      exact h.pointers ρ r j q hr hn
  · intro k hk hfree ρ hr
    rw [hreach] at hr
    exact h.pool k hk hfree ρ hr

def MmuState.take (s : MmuState) (k : Nat) (c : Fin 512 → UInt64) : MmuState :=
  { s with
    pageBitmap := fun j => if j = k then true else s.pageBitmap j
    mem := setPage s.mem (poolPage k) c }

def MmuState.withTable (s : MmuState) (k : Nat) (c : Fin 512 → UInt64) (p : UInt64) (i : Fin 512) :
    MmuState :=
  (s.take k c).write p i (tableEntry (poolPage k))

theorem WellFormed.withTable (h : WellFormed s) (hp : s.Table π p) (hd : π.length ≤ 2)
    (hold : nextTable π.length (s.mem p i) = none) {k : Nat} (hk : k < 4096)
    (hfree : s.pageBitmap k = false) {c : Fin 512 → UInt64}
    (hc : ∀ j, nextTable (π.length + 1) (c j) = none) :
    WellFormed (s.withTable k c p i) ∧ (∀ ρ r, (s.withTable k c p i).Table ρ r ↔
      s.Table ρ r ∨ (ρ = π ++ [i] ∧ r = poolPage k)) ∧
      ∀ q, Owned (s.withTable k c p i) q → Owned s q := by
  have hq := h.pool k hk hfree
  have hv := nextTable_tableEntry (poolPage_align hk) (poolPage_lt hk) hd
  have hreach : ∀ ρ r, (s.withTable k c p i).Table ρ r ↔
      s.Table ρ r ∨ (ρ = π ++ [i] ∧ r = poolPage k) :=
    reaches_link h.tree hp hq hold hv hc
  have hstill : ∀ m, (s.withTable k c p i).pageBitmap m = false →
      m ≠ k ∧ s.pageBitmap m = false := by
    intro m hm
    simp only [MmuState.withTable, MmuState.write, MmuState.take] at hm
    split at hm
    · cases hm
    · exact ⟨by assumption, hm⟩
  refine ⟨⟨h.root, isTree_link h.tree hp hq hold hv hc, ?_, ?_⟩, hreach, ?_⟩
  · intro ρ r j q hr hn
    obtain hr | ⟨rfl, rfl⟩ := (hreach ρ r).mp hr
    · have hne : r ≠ poolPage k := by
        rintro rfl
        exact hq ρ hr
      by_cases hslot : r = p ∧ j = i
      · obtain ⟨rfl, rfl⟩ := hslot
        simp only [MmuState.withTable, MmuState.write, setWord_self]
        exact tableEntry_lt (poolPage_lt hk)
      · simp only [MmuState.withTable, MmuState.write, MmuState.take, setWord_ne _ _ hslot,
          setPage_ne s.mem c hne] at hn ⊢
        exact h.pointers ρ r j q hr hn
    · -- the fresh page points nowhere
      have hne : poolPage k ≠ p := fresh_ne hp hq
      have hslot : ¬ (poolPage k = p ∧ j = i) := fun hs => hne hs.1
      simp only [MmuState.withTable, MmuState.write, MmuState.take, setWord_ne _ _ hslot,
        setPage_self, length_append, length_singleton, hc j] at hn
      cases hn
  · intro m hm hmfree ρ hr
    obtain ⟨hmk, hmfree⟩ := hstill m hmfree
    obtain hr | ⟨-, hr⟩ := (hreach ρ _).mp hr
    · exact h.pool m hm hmfree ρ hr
    · exact hmk (poolPage_inj hm hk hr)
  · rintro q (⟨ρ, hr⟩ | ⟨m, hm, hmfree, rfl⟩)
    · obtain hr | ⟨-, rfl⟩ := (hreach ρ q).mp hr
      · exact .inl ⟨ρ, hr⟩
      · exact .inr ⟨k, hk, hfree, rfl⟩
    · exact .inr ⟨m, hm, (hstill m hmfree).2, rfl⟩

end Tables

/-! ## Views -/

def leafAt : Nat → UInt64 → Leaf
  | 1, entry => leafOf .page1G entry
  | 2, entry => leafOf .page2M entry
  | 3, entry => leafOf .page4K entry
  | _, _ => .absent

theorem readTrace_snoc (tables : List UInt64) (entry : UInt64) (h : tables.length ≤ 3) :
    readTrace (tables ++ [entry]) = viewOf tables (leafAt tables.length entry) := by
  match tables with
  | [] => rfl
  | [_] => rfl
  | [_, _] => rfl
  | [_, _, _] => rfl
  | _ :: _ :: _ :: _ :: _ =>
    simp only [length_cons] at h
    omega

theorem leafAt_absent (d : Nat) (h : bit entry 0 = false) : leafAt d entry = .absent := by
  match d with
  | 0 => rfl
  | 1 => simp [leafAt, leafOf, h]
  | 2 => simp [leafAt, leafOf, h]
  | 3 => simp [leafAt, leafOf, h]
  | _ + 4 => rfl

theorem viewOf_tableEntry (tables : List UInt64) (leaf : Leaf) (halign : page.toNat % 2 ^ 12 = 0)
    (hlt : page.toNat < 2 ^ 52) :
    viewOf (tables ++ [tableEntry page]) leaf = viewOf tables leaf := by
  have h1 : bit (tableEntry page) 1 = true := by rw [bit_tableEntry halign (by decide)]; rfl
  have h2 : bit (tableEntry page) 2 = true := by rw [bit_tableEntry halign (by decide)]; rfl
  have h63 : bit (tableEntry page) 63 = false := bit_of_lt (tableEntry_lt hlt) (by decide)
  simp [viewOf, h1, h2, h63]

section Views

variable {s : MmuState} {π : List (Fin 512)} {p : UInt64} {i : Fin 512} {x : UInt64}

def MmuState.upper (s : MmuState) (π : List (Fin 512)) : List UInt64 :=
  trace nextTable s.mem 0 (frameAddr s.cr3) π

variable {τ : List (Fin 512)} {k : Nat} {s' : MmuState} {v : View} {e entry pa stride va : UInt64}
  {perms : UInt32} {type : HalMemType}

theorem WellFormed.view_eq (h : WellFormed s) (hp : s.Table π p) (hd : π.length ≤ 3)
    (hn : nextTable π.length (s.mem p i) = none) (hx : path x = π ++ i :: τ) :
    view s x = viewOf (s.upper π) (leafAt π.length (s.mem p i)) := by
  have hlen : (s.upper π).length = π.length := (h.trace_spec hp).1
  unfold view
  rw [hx, trace_append _ _ _ _ _ hp]
  simp only [trace, zero_add, hn]
  rw [← hlen]
  exact readTrace_snoc (s.upper π) (s.mem p i) (by omega)

theorem WellFormed.upper_noExecute (h : WellFormed s) (hp : s.Table π p) :
    (s.upper π).any (bit · 63) = false := by
  rw [any_eq_false]
  intro e he
  rw [bit_of_lt ((h.trace_spec hp).2 e he) (by decide)]
  decide

theorem WellFormed.view_noExecute (h : WellFormed s) (x : UInt64) :
    (view s x).noExecute = false := by
  have hwalk : ∃ π i τ p, path x = π ++ i :: τ ∧
      follow nextTable s.mem 0 (frameAddr s.cr3) π = some p ∧
      (nextTable (0 + π.length) (s.mem p i) = none ∨ τ = []) :=
    walk_ends (path x) 0 (frameAddr s.cr3) (by simp [path])
  obtain ⟨π, i, τ, p, hx, hp, hend⟩ := hwalk
  have hlen := congrArg length hx
  rw [length_append, length_cons, show (path x).length = 4 from rfl] at hlen
  have hn : nextTable π.length (s.mem p i) = none := by
    obtain hn | rfl := hend
    · rwa [zero_add] at hn
    · exact nextTable_deep (by simp only [length_nil] at hlen; omega) _
  rw [h.view_eq hp (by omega) hn hx]
  exact h.upper_noExecute hp

theorem WellFormed.view_withTable (h : WellFormed s) (hp : s.Table π p) (hd : π.length ≤ 2)
    (hk : k < 4096) (hfree : s.pageBitmap k = false) {c : Fin 512 → UInt64}
    (hc : ∀ j, nextTable (π.length + 1) (c j) = none) :
    (∀ j τ, path x = π ++ i :: j :: τ →
      view (s.withTable k c p i) x = viewOf (s.upper π) (leafAt (π.length + 1) (c j))) ∧
    ((∀ τ, path x ≠ π ++ i :: τ) → view (s.withTable k c p i) x = view s x) := by
  have hq := h.pool k hk hfree
  constructor
  · intro j τ hx
    have hv := nextTable_tableEntry (poolPage_align hk) (poolPage_lt hk) hd
    have hlen : (s.upper π).length = π.length := (h.trace_spec hp).1
    have htrace : trace nextTable (s.withTable k c p i).mem 0 (frameAddr s.cr3) (path x) =
        s.upper π ++ [tableEntry (poolPage k)] ++ [c j] := by
      rw [hx, append_assoc]
      exact trace_link_self h.tree hp hq hv hc j τ
    change readTrace (trace nextTable (s.withTable k c p i).mem 0 (frameAddr s.cr3) (path x)) = _
    rw [htrace, readTrace_snoc _ _ (by simp only [length_append, length_singleton]; omega),
      viewOf_tableEntry _ _ (poolPage_align hk) (poolPage_lt hk)]
    simp only [length_append, length_singleton, hlen]
  · intro hx
    exact congrArg readTrace (trace_link_other h.tree hp hq hx)

theorem WellFormed.view_write (h : WellFormed s) (hp : s.Table π p) (hd : π.length ≤ 3) {v : UInt64}
    (hold : nextTable π.length (s.mem p i) = none) (hnew : nextTable π.length v = none) :
    (∀ τ, path x = π ++ i :: τ →
      view (s.write p i v) x = { view s x with leaf := leafAt π.length v }) ∧
    ((∀ τ, path x ≠ π ++ i :: τ) → view (s.write p i v) x = view s x) := by
  obtain ⟨hwf, hreach⟩ := h.write (i := i) hp hold hnew
  constructor
  · intro τ hx
    have hp' : (s.write p i v).Table π p := (hreach π p).mpr hp
    have hword : (s.write p i v).mem p i = v := setWord_self s.mem p i v
    have hupper : (s.write p i v).upper π = s.upper π := (follow_setWord_prior h.tree hp v).2
    rw [hwf.view_eq hp' hd (by rw [hword]; exact hnew) hx, h.view_eq hp hd hold hx, hword, hupper]
    rfl
  · intro hx
    exact congrArg readTrace (walk_setWord_other h.tree hp v hx).2

theorem WellFormed.view_take (h : WellFormed s) (hk : k < 4096) (hfree : s.pageBitmap k = false)
    (c : Fin 512 → UInt64) : view (s.take k c) x = view s x :=
  congrArg readTrace (walk_setPage (h.pool k hk hfree) c _).2

def View.split (v : View) (x : UInt64) : View :=
  match v.leaf with
  | .page2M entry => { v with leaf := .page4K (splitEntry entry (ptIndex x)) }
  | _ => v

/-! ## Pages mapped to themselves -/

def View.Direct (v : View) (p : UInt64) : Prop :=
  ∃ t, v.translate p = some t ∧ t.phys = p.toNat ∧ t.attrs.writable = true

structure SelfMapped (s : MmuState) : Prop extends WellFormed s where
  direct : ∀ p, Owned s p → Canonical p ∧ (view s p).Direct p

theorem View.Direct.spec (h : v.Direct x) : v.writable = true ∧ x.toNat < 2 ^ 52 := by
  obtain ⟨t, ht, hphys, hw⟩ := h
  unfold View.translate at ht
  split at ht
  · cases ht
  all_goals
    rw [← Option.some.inj ht] at hphys hw
    simp only [View.through, field, Bool.and_eq_true] at hphys hw
    exact ⟨hw.1, by omega⟩

theorem View.Direct.split (h : v.Direct x) : (v.split x).Direct x := by
  unfold View.split
  split
  · rename_i e hleaf
    obtain ⟨hw, -⟩ := h.spec
    obtain ⟨t, ht, hphys, -⟩ := h
    have hpt : (ptIndex x).val = x.toNat / 4096 % 512 := tableIndex_val (by decide) x
    have h1 := (bits_splitEntry e (ptIndex x)).1
    simp only [View.translate, hleaf, Option.some.injEq] at ht
    obtain rfl := ht
    refine ⟨_, rfl, ?_, by simp [View.through, hw, h1]⟩
    have hsame : (field e 21 31 * 512 + (ptIndex x).val) * 2 ^ 12 + x.toNat % 2 ^ 12 =
        field e 21 31 * 2 ^ 21 + x.toNat % 2 ^ 21 := by omega
    simp only [View.through, field_splitEntry, Nat.reduceSub]
    exact hsame.trans hphys
  · exact h

theorem View.Direct.set (h : v.Direct x) (hpage : pa.toNat / 4096 = x.toNat / 4096)
    (hw : (requested perms type).writable = true) :
    View.Direct { v with leaf := .page4K (pa ||| pteFlags perms type) } x := by
  obtain ⟨hwritable, hlt⟩ := h.spec
  refine ⟨_, rfl, ?_, by simp [View.through, hwritable, bit_pteFlags, hw]⟩
  simp only [View.through, field_pte, Nat.reduceSub]
  omega

theorem SelfMapped.of_step (h : SelfMapped s) (hwf : WellFormed s')
    (howned : ∀ p, Owned s' p → Owned s p)
    (hview : ∀ p, Owned s p → (view s p).Direct p → (view s' p).Direct p) : SelfMapped s' :=
  ⟨hwf, fun p hp => (h.direct p (howned p hp)).imp_right (hview p (howned p hp))⟩

theorem SelfMapped.deref (h : SelfMapped s) (hp : Owned s p) (hview : view s' p = view s p)
    (store : Bool) : s'.deref p store = some p := by
  obtain ⟨hc, t, ht, hphys, hw⟩ := h.direct p hp
  simp [MmuState.deref, translate, hc, hview, ht, hphys, hw]

theorem SelfMapped.load (h : SelfMapped s) (hp : s.Table π p) (i : Fin 512) :
    s.load p i = some (s.mem p i) := by
  rw [MmuState.load, h.deref (.inl ⟨π, hp⟩) rfl]
  rfl

theorem SelfMapped.store_take (h : SelfMapped s) (hp : s.Table π p) (hk : k < 4096)
    (hfree : s.pageBitmap k = false) (c : Fin 512 → UInt64) :
    (s.take k c).store p i (tableEntry (poolPage k)) = some (s.withTable k c p i) := by
  rw [MmuState.store, h.deref (.inl ⟨π, hp⟩) (h.view_take hk hfree c)]
  rfl

theorem SelfMapped.allocTable_cases (h : SelfMapped s) : allocTable s = some (0, s) ∨
    ∃ k, k < 4096 ∧ s.pageBitmap k = false ∧
      allocTable s = some (poolPage k, s.take k fun _ => 0) := by
  unfold allocTable
  cases hf : (range pagePoolPages).find? (fun i => !s.pageBitmap i) with
  | none => exact .inl rfl
  | some k =>
    have hk : k < 4096 := mem_range.mp (mem_of_find?_eq_some hf)
    have hfree : s.pageBitmap k = false := by simpa using find?_some hf
    refine .inr ⟨k, hk, hfree, ?_⟩
    have hderef : MmuState.deref
        { s with pageBitmap := fun j => if j = k then true else s.pageBitmap j } (poolPage k) true =
        some (poolPage k) :=
      h.deref (.inr ⟨k, hk, hfree, rfl⟩) rfl true
    simp only [MmuState.storePage, hderef]
    rfl

/-! ## The blocks of a round -/

theorem path_length (x : UInt64) : (path x).length = 4 := rfl

theorem path_tail (hx : path x = π ++ i :: τ) (hd : π.length ≤ 2) : ∃ j τ', τ = j :: τ' := by
  have hlen := congrArg length hx
  rw [path_length, length_append, length_cons] at hlen
  cases τ with
  | nil => simp only [length_nil] at hlen; omega
  | cons j τ' => exact ⟨j, τ', rfl⟩

theorem ensureTable_spec (h : SelfMapped s) (hp : s.Table π p) (hd : π.length ≤ 2)
    (hret : ensureTable s p i = some (true, s')) :
    SelfMapped s' ∧ s'.Table π p ∧ bit (s'.mem p i) 0 = true ∧ (∀ x, view s' x = view s x) ∧
      ∀ q, Owned s' q → Owned s q := by
  unfold ensureTable at hret
  rw [h.load hp, Option.bind_eq_bind, Option.bind_some] at hret
  by_cases hpresent : s.mem p i &&& pagePresent = 0
  · rw [if_pos hpresent] at hret
    have habsent := and_pagePresent.mp hpresent
    have hold : nextTable π.length (s.mem p i) = none := nextTable_absent habsent
    have hzero : ∀ j : Fin 512,
        nextTable (π.length + 1) ((fun _ => 0 : Fin 512 → UInt64) j) = none :=
      fun j => nextTable_absent (show bit 0 0 = false by decide)
    obtain halloc | ⟨k, hk, hfree, halloc⟩ := h.allocTable_cases
    · rw [halloc] at hret
      simp at hret
    · rw [halloc, Option.bind_eq_bind, Option.bind_some] at hret
      dsimp only at hret
      rw [if_neg (poolPage_ne_zero hk), ← tableEntry, h.store_take hp hk hfree] at hret
      obtain rfl : s.withTable k (fun _ => 0) p i = s' := (Prod.mk.inj (Option.some.inj hret)).2
      obtain ⟨hwf, hreach, howned⟩ := h.withTable hp hd hold hk hfree hzero
      have hview : ∀ x, view (s.withTable k (fun _ => 0) p i) x = view s x := by
        intro x
        obtain ⟨hself, hother⟩ := h.view_withTable (i := i) (x := x) hp hd hk hfree hzero
        by_cases hx : ∃ τ, path x = π ++ i :: τ
        · obtain ⟨τ, hx⟩ := hx
          obtain ⟨j, τ', rfl⟩ := path_tail hx hd
          rw [hself j τ' hx, h.view_eq hp (by omega) hold hx, leafAt_absent _ habsent,
            leafAt_absent _ (show bit 0 0 = false by decide)]
        · exact hother fun τ hτ => hx ⟨τ, hτ⟩
      refine ⟨h.of_step hwf howned fun q _ hq => by rwa [hview], (hreach π p).mpr (.inl hp), ?_,
        hview, howned⟩
      simp only [MmuState.withTable, MmuState.write, setWord_self]
      rw [bit_tableEntry (poolPage_align hk) (by decide)]
      rfl
  · rw [if_neg hpresent] at hret
    obtain rfl : s = s' := (Prod.mk.inj (Option.some.inj hret)).2
    refine ⟨h, hp, ?_, fun _ => rfl, fun _ => id⟩
    rw [and_pagePresent] at hpresent
    simpa using hpresent

theorem bit_splitEntry_zero (entry : UInt64) (j : Fin 512) : bit (splitEntry entry j) 0 = true := by
  simp [bit_splitEntry]

theorem splitHuge_spec (h : SelfMapped s) (hp : s.Table π p) (hd : π.length = 2)
    (hpresent : bit (s.mem p i) 0 = true) (hret : splitHuge s p i = some (true, s')) :
    SelfMapped s' ∧ s'.Table π p ∧ s'.Table (π ++ [i]) (tableBase (s'.mem p i)) ∧
      (∀ x, (∀ τ, path x = π ++ i :: τ → view s' x = (view s x).split x) ∧
        ((∀ τ, path x ≠ π ++ i :: τ) → view s' x = view s x)) ∧ ∀ q, Owned s' q → Owned s q := by
  unfold splitHuge at hret
  rw [h.load hp, Option.bind_eq_bind, Option.bind_some] at hret
  by_cases hhuge : s.mem p i &&& pageHuge = 0
  · -- a table already
    rw [if_neg (by simpa using hhuge)] at hret
    obtain rfl : s = s' := (Prod.mk.inj (Option.some.inj hret)).2
    have h7 := and_pageHuge.mp hhuge
    have hnext := h.next (i := i) hp (by omega) hpresent (.inr h7)
    refine ⟨h, hp, hnext, fun x => ⟨fun τ hx => ?_, fun _ => rfl⟩, fun _ => id⟩
    obtain ⟨j, τ', rfl⟩ := path_tail hx (by omega)
    have hlen : (π ++ [i]).length = 3 := by simp [hd]
    have hview := h.view_eq (i := j) hnext (by omega)
      (nextTable_deep (by omega) _) (by rw [hx, append_assoc]; rfl)
    rw [hview, hlen]
    unfold View.split leafAt leafOf
    by_cases hpt : bit (s.mem (tableBase (s.mem p i)) j) 0 = true <;> simp [viewOf, hpt]
  · rw [if_pos (by simpa using hhuge)] at hret
    have h7 : bit (s.mem p i) 7 = true := by
      rw [and_pageHuge] at hhuge
      simpa using hhuge
    have hold : nextTable π.length (s.mem p i) = none := nextTable_huge (by omega) h7
    have hc : ∀ j, nextTable (π.length + 1) (splitEntry (s.mem p i) j) = none :=
      fun j => nextTable_deep (by omega) _
    obtain halloc | ⟨k, hk, hfree, halloc⟩ := h.allocTable_cases
    · rw [halloc] at hret
      simp at hret
    · have hfill : (s.take k fun _ => 0).storePage (poolPage k) (splitEntry (s.mem p i)) =
          some (s.take k (splitEntry (s.mem p i))) := by
        rw [MmuState.storePage, h.deref (.inr ⟨k, hk, hfree, rfl⟩) (h.view_take hk hfree _),
          Option.map_some, MmuState.take, setPage_setPage]
        rfl
      rw [halloc, Option.bind_eq_bind, Option.bind_some] at hret
      dsimp only at hret
      rw [if_neg (poolPage_ne_zero hk), hfill, Option.bind_eq_bind, Option.bind_some, ← tableEntry,
        h.store_take hp hk hfree] at hret
      obtain rfl : s.withTable k (splitEntry (s.mem p i)) p i = s' :=
        (Prod.mk.inj (Option.some.inj hret)).2
      obtain ⟨hwf, hreach, howned⟩ := h.withTable hp (by omega) hold hk hfree hc
      have hword : (s.withTable k (splitEntry (s.mem p i)) p i).mem p i =
          tableEntry (poolPage k) := setWord_self _ p i _
      have hview : ∀ x, (∀ τ, path x = π ++ i :: τ →
          view (s.withTable k (splitEntry (s.mem p i)) p i) x = (view s x).split x) ∧
          ((∀ τ, path x ≠ π ++ i :: τ) →
            view (s.withTable k (splitEntry (s.mem p i)) p i) x = view s x) := by
        intro x
        obtain ⟨hself, hother⟩ := h.view_withTable (i := i) (x := x) hp (by omega) hk hfree hc
        refine ⟨fun τ hx => ?_, hother⟩
        obtain ⟨j, τ', rfl⟩ := path_tail hx (by omega)
        have hj : j = ptIndex x := by
          obtain ⟨a, b, rfl⟩ := length_eq_two.mp hd
          simp only [path, cons_append, nil_append, cons.injEq] at hx
          exact hx.2.2.2.1.symm
        rw [hself j τ' hx, h.view_eq hp (by omega) hold hx, hd, hj]
        simp [View.split, viewOf, leafAt, leafOf, hpresent, bit_splitEntry_zero]
      refine ⟨h.of_step hwf howned fun q _ hq => ?_, (hreach π p).mpr (.inl hp), ?_, hview, howned⟩
      · by_cases hx : ∃ τ, path q = π ++ i :: τ
        · obtain ⟨τ, hx⟩ := hx
          rw [(hview q).1 τ hx]
          exact hq.split
        · rwa [(hview q).2 fun τ hτ => hx ⟨τ, hτ⟩]
      · rw [hword, tableBase_eq_frameAddr (tableEntry_lt (poolPage_lt hk)), tableEntry_eq,
          frameAddr_or (poolPage_align hk) (poolPage_lt hk) (by decide)]
        exact (hreach _ _).mpr (.inr ⟨rfl, rfl⟩)

/-! ## One round -/

def mapStride (v : View) : UInt64 :=
  match v.leaf with
  | .page1G _ => halPage1G
  | _ => pageSize4K

def mapView (va entry x : UInt64) (v : View) : View :=
  match v.leaf with
  | .page1G _ => v
  | _ =>
    if path x = path va then { v with leaf := .page4K entry }
    else if (path x).take 3 = (path va).take 3 then v.split x
    else v

theorem split_of_not_2M (h : ∀ entry, v.leaf ≠ .page2M entry) (x : UInt64) : v.split x = v := by
  unfold View.split
  split
  · rename_i entry hentry
    exact absurd hentry (h entry)
  · rfl

theorem split_withLeaf (v : View) (x : UInt64) (l : Leaf) :
    { v.split x with leaf := l } = { v with leaf := l } := by
  unfold View.split
  split <;> rfl

theorem mapView_1G {x : UInt64} (h : v.leaf = .page1G e) : mapView va entry x v = v := by
  simp only [mapView, h]

theorem mapView_of_not_1G {x : UInt64} (h : ∀ e, v.leaf ≠ .page1G e) : mapView va entry x v =
      if path x = path va then { v with leaf := .page4K entry }
      else if (path x).take 3 = (path va).take 3 then v.split x
      else v := by
  unfold mapView
  split
  · rename_i e he
    exact absurd he (h e)
  · rfl

theorem mapView_other {x : UInt64} (h : (path x).take 3 ≠ (path va).take 3) :
    mapView va entry x v = v := by
  unfold mapView
  split
  · rfl
  · rw [if_neg fun hp => h (by rw [hp]), if_neg h]

theorem readTrace_1G {l : List UInt64} (h : (readTrace l).leaf = .page1G e) : l.length = 2 := by
  unfold readTrace at h
  split at h
  · cases h
  · rfl
  · simp only [viewOf, leafOf] at h
    split at h <;> cases h
  · simp only [viewOf, leafOf] at h
    split at h <;> cases h
  · cases h

theorem WellFormed.leaf_ne_1G (h : WellFormed s) (hp : s.Table π p) (hd : π.length = 2)
    (hx : path x = π ++ i :: τ) (e : UInt64) : (view s x).leaf ≠ .page1G e := by
  intro hleaf
  have hlen := readTrace_1G hleaf
  rw [hx, trace_append _ _ _ _ _ hp, length_append, (h.trace_spec hp).1, trace, length_cons] at hlen
  omega

theorem path_take_three {x : UInt64} : (path x).take 3 = (path va).take 3 ↔
    path x = [pml4Index va, pdptIndex va, pdIndex va, ptIndex x] := by
  simp [path]

theorem setEntry_spec (h : WellFormed s) {pt : UInt64}
    (hp : s.Table [pml4Index va, pdptIndex va, pdIndex va] pt) (v : UInt64) :
    WellFormed (s.write pt (ptIndex va) v) ∧
      (∀ q, Owned (s.write pt (ptIndex va) v) q → Owned s q) ∧
      ∀ x, view (s.write pt (ptIndex va) v) x =
        if path x = path va then { view s x with leaf := leafOf .page4K v } else view s x := by
  have hdeep : ∀ entry, nextTable 3 entry = none := nextTable_deep (by decide)
  obtain ⟨hwf, hreach⟩ := h.write (i := ptIndex va) hp (hdeep _) (hdeep v)
  refine ⟨hwf, fun q => Or.imp_left fun ⟨ρ, hr⟩ => ⟨ρ, (hreach ρ q).mp hr⟩, fun x => ?_⟩
  obtain ⟨hself, hother⟩ := h.view_write (i := ptIndex va) (x := x) hp (by simp) (hdeep _) (hdeep v)
  by_cases hx : path x = path va
  · rw [if_pos hx]
    exact hself [] hx
  · rw [if_neg hx]
    refine hother fun τ hτ => hx ?_
    simp only [path, cons_append, nil_append, cons.injEq] at hτ
    simp only [path, hτ]

theorem mapView_eq {x : UInt64} {w : View}
    (h1G : (path x).take 3 = (path va).take 3 → ∀ e, v.leaf ≠ .page1G e)
    (hnear : (path x).take 3 = (path va).take 3 → w = v.split x)
    (hfar : (path x).take 3 ≠ (path va).take 3 → w = v) :
    (if path x = path va then { w with leaf := .page4K entry } else w) = mapView va entry x v := by
  by_cases hx3 : (path x).take 3 = (path va).take 3
  · rw [mapView_of_not_1G (h1G hx3), hnear hx3, if_pos hx3, split_withLeaf]
  · rw [mapView_other hx3, hfar hx3, if_neg fun hx => hx3 (by rw [hx])]

theorem mapStride_of_not_1G (h : ∀ e, v.leaf ≠ .page1G e) : mapStride v = pageSize4K := by
  unfold mapStride
  split
  · rename_i e he
    exact absurd he (h e)
  · rfl

theorem bit_true_of_and_ne_zero {c : UInt64} (hc : c.toNat = 2 ^ k) (h : entry &&& c ≠ 0) :
    bit entry k = true := by
  rw [ne_eq, and_flag_eq_zero hc] at h
  simpa using h

theorem View.Direct.mapView (h : v.Direct x) (hclear : path x = path va →
      pa.toNat / 4096 = x.toNat / 4096 ∧ (requested perms type).writable = true) :
    (mapView va (pa ||| pteFlags perms type) x v).Direct x := by
  unfold X86.mapView
  split
  · exact h
  · split
    · rename_i hpath
      exact h.set (hclear hpath).1 (hclear hpath).2
    · split
      · exact h.split
      · exact h

theorem mapStep_cases (h : mapStep s va pa perms type = some (some stride, s')) :
    ∃ s1 s2 e4 e3, ensureTable s (tableBase s.cr3) (pml4Index va) = some (true, s1) ∧
      s1.load (tableBase s.cr3) (pml4Index va) = some e4 ∧
      ensureTable s1 (tableBase e4) (pdptIndex va) = some (true, s2) ∧
      s2.load (tableBase e4) (pdptIndex va) = some e3 ∧
      ((e3 &&& pageHuge ≠ 0 ∧ stride = halPage1G ∧ s' = s2) ∨
        (e3 &&& pageHuge = 0 ∧ stride = pageSize4K ∧
          ∃ s3 s4 e2, ensureTable s2 (tableBase e3) (pdIndex va) = some (true, s3) ∧
            splitHuge s3 (tableBase e3) (pdIndex va) = some (true, s4) ∧
            s4.load (tableBase e3) (pdIndex va) = some e2 ∧
            s4.store (tableBase e2) (ptIndex va) (pa ||| pteFlags perms type) = some s')) := by
  simp only [mapStep, Option.bind_eq_bind, Option.bind_eq_some_iff] at h
  obtain ⟨⟨ok4, s1⟩, he4, h⟩ := h
  cases ok4 with
  | false => simp at h
  | true =>
    simp only [Option.bind_eq_some_iff] at h
    obtain ⟨e4, hl4, ⟨ok3, s2⟩, he3, h⟩ := h
    cases ok3 with
    | false => simp at h
    | true =>
      simp only [Option.bind_eq_some_iff] at h
      obtain ⟨e3, hl3, h⟩ := h
      refine ⟨s1, s2, e4, e3, he4, hl4, he3, hl3, ?_⟩
      split at h
      · rename_i hhuge
        simp only [Option.pure_def, Option.some.injEq, Prod.mk.injEq] at h
        exact .inl ⟨hhuge, h.1.symm, h.2.symm⟩
      · rename_i hhuge
        simp only [Option.bind_eq_some_iff] at h
        obtain ⟨⟨ok2, s3⟩, he2, h⟩ := h
        cases ok2 with
        | false => simp at h
        | true =>
          simp only [Option.bind_eq_some_iff] at h
          obtain ⟨⟨ok1, s4⟩, hsplit, h⟩ := h
          cases ok1 with
          | false => simp at h
          | true =>
            simp only [Option.bind_eq_some_iff, Option.pure_def, Option.some.injEq,
              Prod.mk.injEq] at h
            obtain ⟨e2, hl2, s5, hstore, hstride, rfl⟩ := h
            exact .inr ⟨by simpa using hhuge, hstride.symm, s3, s4, e2, he2, hsplit, hl2, hstore⟩

/-- A round sets the entry of its page and splits the 2 MiB page that page was in; it keeps the
pointers of the code good unless it maps one of their pages elsewhere or read-only. -/
theorem mapStep_spec (h : SelfMapped s) (hclear : ∀ p, Owned s p → path p = path va →
      pa.toNat / 4096 = p.toNat / 4096 ∧ (requested perms type).writable = true)
    (hret : mapStep s va pa perms type = some (some stride, s')) :
    SelfMapped s' ∧ (∀ q, Owned s' q → Owned s q) ∧ stride = mapStride (view s va) ∧
      ∀ x, view s' x = mapView va (pa ||| pteFlags perms type) x (view s x) := by
  have hflags : bit (pa ||| pteFlags perms type) 0 = true := by simp [bit_pteFlags]
  obtain ⟨s1, s2, e4, e3, he4, hl4, he3, hl3, hrest⟩ := mapStep_cases hret
  rw [tableBase_eq_frameAddr h.root] at he4 hl4
  obtain ⟨h1, ht1, hp1, hv1, ho1⟩ := ensureTable_spec h (table_root s) (by simp) he4
  obtain rfl := Option.some.inj ((h1.load ht1 _).symm.trans hl4)
  have htab1 := h1.next ht1 (by simp) hp1 (.inl rfl)
  obtain ⟨h2, ht2, hp2, hv2, ho2⟩ := ensureTable_spec h1 htab1 (by simp) he3
  obtain rfl := Option.some.inj ((h2.load ht2 _).symm.trans hl3)
  have hview2 : ∀ x, view s2 x = view s x := fun x => (hv2 x).trans (hv1 x)
  obtain ⟨hhuge, rfl, rfl⟩ | ⟨hhuge, rfl, s3, s4, e2, he2, hsplit, hl2, hstore⟩ := hrest
  · -- a 1 GiB leaf is left alone
    have h7 := bit_true_of_and_ne_zero (k := 7) (by decide) hhuge
    have hleaf : ∀ x τ, path x = [pml4Index va] ++ pdptIndex va :: τ →
        ∃ e, (view s x).leaf = .page1G e := by
      intro x τ hx
      rw [← hview2, h2.view_eq ht2 (by simp) (nextTable_huge (by simp) h7) hx]
      simp [viewOf, leafAt, leafOf, hp2]
    refine ⟨h2, fun q hq => ho1 q (ho2 q hq), ?_, fun x => ?_⟩
    · obtain ⟨e, he⟩ := hleaf va _ rfl
      simp only [mapStride, he]
    · rw [hview2]
      by_cases hx : (path x).take 3 = (path va).take 3
      · obtain ⟨e, he⟩ := hleaf x _ (path_take_three.mp hx)
        rw [mapView_1G he]
      · rw [mapView_other hx]
  · -- the page table entry is set
    have htab2 := h2.next ht2 (by simp) hp2 (.inr (and_pageHuge.mp hhuge))
    obtain ⟨h3, ht3, hp3, hv3, ho3⟩ := ensureTable_spec h2 htab2 (by simp) he2
    have hview3 : ∀ x, view s3 x = view s x := fun x => (hv3 x).trans (hview2 x)
    obtain ⟨h4, ht4, htab4, hv4, ho4⟩ := splitHuge_spec h3 ht3 rfl hp3 hsplit
    obtain rfl := Option.some.inj ((h4.load ht4 _).symm.trans hl2)
    rw [MmuState.store, h4.deref (.inl ⟨_, htab4⟩) rfl, Option.map_some] at hstore
    obtain ⟨h5, ho5, hv5⟩ := setEntry_spec h4.toWellFormed htab4 (pa ||| pteFlags perms type)
    rw [Option.some.inj hstore] at h5 ho5 hv5
    have hnot : ∀ x, (path x).take 3 = (path va).take 3 → ∀ e, (view s x).leaf ≠ .page1G e := by
      intro x hx e
      rw [← hview2]
      exact h2.leaf_ne_1G htab2 rfl (path_take_three.mp hx) e
    have howned : ∀ q, Owned s' q → Owned s q :=
      fun q hq => ho1 q (ho2 q (ho3 q (ho4 q (ho5 q hq))))
    have hview : ∀ x, view s' x = mapView va (pa ||| pteFlags perms type) x (view s x) := by
      intro x
      rw [hv5, leafOf, if_pos hflags]
      refine mapView_eq (hnot x) (fun hx => ?_) fun hx => ?_
      · rw [(hv4 x).1 _ (path_take_three.mp hx), hview3]
      · rw [(hv4 x).2 fun τ hτ => hx ?_, hview3]
        simp only [path, cons_append, nil_append, cons.injEq] at hτ
        simp [path, hτ]
    refine ⟨h.of_step h5 howned fun q hq hdirect => ?_, howned,
      (mapStride_of_not_1G (hnot va rfl)).symm, hview⟩
    rw [hview]
    exact hdirect.mapView (hclear q hq)

def unmapStride (v : View) : UInt64 :=
  match v.leaf with
  | .page1G _ => halPage1G
  | .page2M _ => halPage2M
  | _ => pageSize4K

def unmapView (va x : UInt64) (v : View) : View :=
  match v.leaf with
  | .page4K _ => if path x = path va then { v with leaf := .absent } else v
  | _ => v

theorem view_congr {x : UInt64} (h : path x = path va) : view s x = view s va := by
  simp only [view, h]

theorem unmapView_of_not_4K {x : UInt64} (h : ∀ e, v.leaf ≠ .page4K e) : unmapView va x v = v := by
  unfold unmapView
  split
  · rename_i e he
    exact absurd he (h e)
  · rfl

theorem unmapView_other {x : UInt64} (h : path x ≠ path va) : unmapView va x v = v := by
  unfold unmapView
  split
  · rw [if_neg h]
  · rfl

theorem WellFormed.leaf_absent (h : WellFormed s) (hp : s.Table π p) (hd : π.length ≤ 3)
    (habsent : s.mem p i &&& pagePresent = 0) (hx : path x = π ++ i :: τ) :
    (view s x).leaf = .absent := by
  have hb := and_pagePresent.mp habsent
  rw [h.view_eq hp hd (nextTable_absent hb) hx, leafAt_absent _ hb]
  rfl

theorem WellFormed.leaf_huge (h : WellFormed s) (hp : s.Table π p) (hd : π.length ≤ 3)
    (hd0 : π.length ≠ 0) (hh : s.mem p i &&& pageHuge ≠ 0) (hx : path x = π ++ i :: τ) :
    (view s x).leaf = leafAt π.length (s.mem p i) := by
  rw [h.view_eq hp hd (nextTable_huge hd0 (bit_true_of_and_ne_zero (by decide) hh)) hx]
  rfl

theorem unmapStep_cases (h : WellFormed s) (va : UInt64) :
    ((∀ e, (view s va).leaf ≠ .page4K e) ∧ unmapStep s va = (unmapStride (view s va), s)) ∨
    ∃ pt, s.Table [pml4Index va, pdptIndex va, pdIndex va] pt ∧
      unmapStep s va = (pageSize4K, s.write pt (ptIndex va) 0) := by
  have hstop : ∀ l, (view s va).leaf = l → (∀ e, l ≠ .page4K e) →
      unmapStep s va = (unmapStride ⟨true, true, true, l⟩, s) →
      (∀ e, (view s va).leaf ≠ .page4K e) ∧ unmapStep s va = (unmapStride (view s va), s) := by
    intro l hl hne hret
    refine ⟨by rw [hl]; exact hne, hret.trans ?_⟩
    simp only [unmapStride, hl]
  have ht4 := table_root s
  rw [← tableBase_eq_frameAddr h.root] at ht4
  unfold unmapStep at hstop ⊢
  generalize tableBase s.cr3 = pml4 at ht4 hstop ⊢
  by_cases hp4 : s.mem pml4 (pml4Index va) &&& pagePresent = 0
  · exact .inl (hstop .absent (h.leaf_absent ht4 (by simp) hp4 rfl) (by simp) (if_pos hp4))
  simp only [if_neg hp4] at hstop ⊢
  have ht3 := h.next ht4 (by simp) (bit_true_of_and_ne_zero (by decide) hp4) (.inl rfl)
  generalize tableBase (s.mem pml4 (pml4Index va)) = pdpt at ht3 hstop ⊢
  by_cases hp3 : s.mem pdpt (pdptIndex va) &&& pagePresent = 0
  · exact .inl (hstop .absent (h.leaf_absent ht3 (by simp) hp3 rfl) (by simp) (if_pos hp3))
  simp only [if_neg hp3] at hstop ⊢
  have hb3 := bit_true_of_and_ne_zero (k := 0) (by decide) hp3
  by_cases hh3 : s.mem pdpt (pdptIndex va) &&& pageHuge = 0
  · have ht2 := h.next ht3 (by simp) hb3 (.inr (and_pageHuge.mp hh3))
    have hnh3 : ¬ s.mem pdpt (pdptIndex va) &&& pageHuge ≠ 0 := by simpa using hh3
    simp only [if_neg hnh3] at hstop ⊢
    generalize tableBase (s.mem pdpt (pdptIndex va)) = pd at ht2 hstop ⊢
    by_cases hp2 : s.mem pd (pdIndex va) &&& pagePresent = 0
    · exact .inl (hstop .absent (h.leaf_absent ht2 (by simp) hp2 rfl) (by simp) (if_pos hp2))
    simp only [if_neg hp2] at hstop ⊢
    have hb2 := bit_true_of_and_ne_zero (k := 0) (by decide) hp2
    by_cases hh2 : s.mem pd (pdIndex va) &&& pageHuge = 0
    · have ht1 := h.next ht2 (by simp) hb2 (.inr (and_pageHuge.mp hh2))
      exact .inr ⟨_, ht1, if_neg (by simpa using hh2)⟩
    · have hleaf := h.leaf_huge ht2 (by simp) (by simp) hh2 (x := va) rfl
      exact .inl (hstop (.page2M (s.mem pd (pdIndex va)))
        (by rw [hleaf]; simp [leafAt, leafOf, hb2]) (by simp) (if_pos hh2))
  · have hleaf := h.leaf_huge ht3 (by simp) (by simp) hh3 (x := va) rfl
    exact .inl (hstop (.page1G (s.mem pdpt (pdptIndex va)))
      (by rw [hleaf]; simp [leafAt, leafOf, hb3]) (by simp) (if_pos hh3))

theorem unmapStep_spec (h : WellFormed s) (va : UInt64) :
    WellFormed (unmapStep s va).2 ∧ (unmapStep s va).1 = unmapStride (view s va) ∧
      ∀ x, view (unmapStep s va).2 x = unmapView va x (view s x) := by
  obtain ⟨hne, hret⟩ | ⟨pt, hpt, hret⟩ := unmapStep_cases h va
  · rw [hret]
    refine ⟨h, rfl, fun x => ?_⟩
    by_cases hx : path x = path va
    · rw [unmapView_of_not_4K (by rw [view_congr hx]; exact hne)]
    · rw [unmapView_other hx]
  · obtain ⟨hwf, -, hview⟩ := setEntry_spec h hpt 0
    have hva := h.view_eq hpt (by simp) (nextTable_deep (by simp) _) (x := va) rfl
    rw [hret]
    refine ⟨hwf, ?_, fun x => ?_⟩
    · rw [hva]
      by_cases hb : bit (s.mem pt (ptIndex va)) 0 = true <;>
        simp [unmapStride, viewOf, leafAt, leafOf, hb]
    · rw [hview]
      by_cases hx : path x = path va
      · rw [if_pos hx, view_congr hx, hva]
        have h0 : bit 0 0 = false := by decide
        by_cases hb : bit (s.mem pt (ptIndex va)) 0 = true
        · simp [unmapView, viewOf, leafAt, leafOf, hb, hx, h0]
        · simp [unmapView, viewOf, leafAt, leafOf, hb, h0]
      · rw [if_neg hx, unmapView_other hx]

end Views

end AlJefra.Arch.X86
