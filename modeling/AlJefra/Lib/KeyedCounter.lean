/- A counter modulo `N` under changing keys. -/
import AlJefra.Lib.Run
import Mathlib.Data.List.Nodup

namespace AlJefra.Lib

open List

/-! ## The values of a counter -/

def Counts (N c : Nat) (l : List Nat) : Prop := ∀ i x, l[i]? = some x → (x + i) % N = c % N

theorem counts_nil (N c : Nat) : Counts N c [] := by
  intro i x h
  simp at h

variable {N c : Nat} {l : List Nat}

theorem Counts.next (h : Counts N c l) : Counts N ((c + 1) % N) ((c + 1) % N :: l) := by
  intro i x hx
  cases i with
  | zero =>
    cases hx
    rw [Nat.add_zero]
  | succ i =>
    have hi := h i x hx
    rw [Nat.mod_mod, ← Nat.add_assoc, Nat.add_mod, hi, ← Nat.add_mod]

theorem Counts.nodup (h : Counts N c l) (hlen : l.length ≤ N) : l.Nodup := by
  apply pairwise_iff_getElem.mpr
  intro i j hi hj hij heq
  -- equal values at two places are a whole turn apart
  have hmod : (l[i] + j) % N = (l[i] + i) % N := by
    rw [h i _ (getElem?_eq_getElem hi), heq, h j _ (getElem?_eq_getElem hj)]
  have hturn : (j - i) % N = 0 := by
    have h0 := Nat.sub_mod_eq_zero_of_mod_eq hmod
    rwa [Nat.add_sub_add_left] at h0
  rw [Nat.mod_eq_of_lt (by omega)] at hturn
  omega

/-! ## The sender -/

variable {κ : Type}

structure KeyedCounter (κ : Type) where
  key : Option κ
  ctr : Nat
  /-- The pairs used so far, newest first. -/
  used : List (κ × Nat)

inductive KeyOp (κ : Type) where
  | rekey (k : κ)
  | lapse (c : Nat)
  | use

def rekeyed (ops : List (KeyOp κ)) : List κ :=
  ops.filterMap fun
    | .rekey k => some k
    | _ => none

def keyStep (N : Nat) (s : KeyedCounter κ) : KeyOp κ → KeyedCounter κ
  | .rekey k => { s with key := some k }
  | .lapse c => { s with key := none, ctr := c }
  | .use =>
    { s with
      ctr := (s.ctr + 1) % N
      used := (s.key.map fun k => (k, (s.ctr + 1) % N)).toList ++ s.used }

theorem used_suffix_run : ∀ (ops : List (KeyOp κ)) (s : KeyedCounter κ),
    s.used <:+ (run (keyStep N) s ops).used
  | [], _ => suffix_rfl
  | op :: ops, s => by
    have hstep : s.used <:+ (keyStep N s op).used := by
      cases op with
      | rekey k | lapse c => exact suffix_rfl
      | use => exact suffix_append ..
    exact hstep.trans (used_suffix_run ops _)

section Unique

variable [DecidableEq κ] {N : Nat}

def numbersUnder (k : κ) (used : List (κ × Nat)) : List Nat :=
  (used.filter fun p => p.1 = k).map Prod.snd

theorem length_numbersUnder (k : κ) (used : List (κ × Nat)) :
    (numbersUnder k used).length = (used.map Prod.fst).count k := by
  induction used with
  | nil => rfl
  | cons p used ih =>
    by_cases h : p.1 = k
    · simp [numbersUnder, h] at ih ⊢
      omega
    · simp [numbersUnder, h] at ih ⊢
      omega

structure KeyedInv (N : Nat) (past : List κ) (s : KeyedCounter κ) : Prop where
  nodup : s.used.Nodup
  past_used : ∀ p ∈ s.used, p.1 ∈ past
  past_key : ∀ k, s.key = some k → k ∈ past
  counts : ∀ k, s.key = some k → Counts N s.ctr (numbersUnder k s.used)

variable {k : κ} {past : List κ} {s : KeyedCounter κ}

theorem numbersUnder_eq_nil {used : List (κ × Nat)} (h : ∀ p ∈ used, p.1 ≠ k) :
    numbersUnder k used = [] := by
  rw [numbersUnder, map_eq_nil_iff, filter_eq_nil_iff]
  simpa using h

theorem KeyedInv.rekey (h : KeyedInv N past s) (hk : k ∉ past) :
    KeyedInv N (k :: past) (keyStep N s (.rekey k)) where
  nodup := h.nodup
  past_used p hp := mem_cons_of_mem _ (h.past_used p hp)
  past_key k' hk' := by
    cases hk'
    exact List.mem_cons_self ..
  counts k' hk' := by
    cases hk'
    have hnone : numbersUnder k s.used = [] :=
      numbersUnder_eq_nil fun p hp heq => hk (heq ▸ h.past_used p hp)
    exact hnone ▸ counts_nil N s.ctr

theorem KeyedInv.lapse (h : KeyedInv N past s) (c : Nat) :
    KeyedInv N past (keyStep N s (.lapse c)) :=
  ⟨h.nodup, h.past_used, (fun _ hk => nomatch hk), (fun _ hk => nomatch hk)⟩

theorem KeyedInv.use (h : KeyedInv N past s)
    (hcount : ∀ k, ((keyStep N s .use).used.map Prod.fst).count k ≤ N) :
    KeyedInv N past (keyStep N s .use) := by
  cases hkey : s.key with
  | none =>
    have hused : (keyStep N s .use).used = s.used := by simp [keyStep, hkey]
    have hnone : (keyStep N s .use).key = none := hkey
    refine ⟨hused ▸ h.nodup, hused ▸ h.past_used, ?_, ?_⟩
    · intro k hk
      cases hnone.symm.trans hk
    · intro k hk
      cases hnone.symm.trans hk
  | some k =>
    have hused : (keyStep N s .use).used = (k, (s.ctr + 1) % N) :: s.used := by
      simp [keyStep, hkey]
    have hsame : (keyStep N s .use).key = some k := hkey
    have hcounts : Counts N ((s.ctr + 1) % N) (numbersUnder k (keyStep N s .use).used) := by
      have hnumbers : numbersUnder k (keyStep N s .use).used
          = (s.ctr + 1) % N :: numbersUnder k s.used := by
        simp [hused, numbersUnder]
      rw [hnumbers]
      exact (h.counts k hkey).next
    have hnodup := hcounts.nodup (by rw [length_numbersUnder]; exact hcount k)
    refine ⟨?_, ?_, ?_, ?_⟩
    · rw [hused, nodup_cons]
      refine ⟨fun hmem => ?_, h.nodup⟩
      have hnumber : (s.ctr + 1) % N ∈ numbersUnder k s.used :=
        mem_map.mpr ⟨_, mem_filter.mpr ⟨hmem, by simp⟩, rfl⟩
      simp only [hused, numbersUnder, filter_cons, decide_true, if_true, map_cons,
        nodup_cons] at hnodup
      exact hnodup.1 hnumber
    · rw [hused]
      exact forall_mem_cons.mpr ⟨h.past_key k hkey, h.past_used⟩
    · intro k' hk'
      exact h.past_key k' hk'
    · intro k' hk'
      cases hsame.symm.trans hk'
      exact hcounts

theorem KeyedInv.run : ∀ (ops : List (KeyOp κ)) (past : List κ) (s : KeyedCounter κ),
    KeyedInv N past s → (rekeyed ops ++ past).Nodup →
      (∀ k, ((Lib.run (keyStep N) s ops).used.map Prod.fst).count k ≤ N) →
        ∃ past', KeyedInv N past' (Lib.run (keyStep N) s ops)
  | [], past, _, h, _, _ => ⟨past, h⟩
  | op :: ops, past, s, h, hfresh, hcount => by
    have hnow : ∀ k, ((keyStep N s op).used.map Prod.fst).count k ≤ N := by
      intro k
      have hsub := (used_suffix_run (N := N) ops (keyStep N s op)).sublist.map Prod.fst
      exact Nat.le_trans (hsub.count_le k) (hcount k)
    cases op with
    | rekey k =>
      have hperm : (k :: (rekeyed ops ++ past)).Nodup := hfresh
      obtain ⟨hnot, -⟩ := nodup_cons.mp hperm
      have hk : k ∉ past := fun hmem => hnot (mem_append_right _ hmem)
      exact KeyedInv.run ops (k :: past) _ (h.rekey hk) (nodup_middle.mpr hperm) hcount
    | lapse c => exact KeyedInv.run ops past _ (h.lapse c) hfresh hcount
    | use => exact KeyedInv.run ops past _ (h.use hnow) hfresh hcount

theorem nodup_used (ops : List (KeyOp κ)) (c : Nat) (hfresh : (rekeyed ops).Nodup)
    (hcount : ∀ k, ((run (keyStep N) ⟨none, c, []⟩ ops).used.map Prod.fst).count k ≤ N) :
    (run (keyStep N) ⟨none, c, []⟩ ops).used.Nodup := by
  have hstart : KeyedInv N [] (⟨none, c, []⟩ : KeyedCounter κ) :=
    ⟨nodup_nil, (fun _ hp => nomatch hp), (fun _ hk => nomatch hk), (fun _ hk => nomatch hk)⟩
  obtain ⟨_, h⟩ := KeyedInv.run ops [] _ hstart (by simpa using hfresh) hcount
  exact h.nodup

end Unique

end AlJefra.Lib
