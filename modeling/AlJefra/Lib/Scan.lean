/- Loops over positions. -/
import Mathlib.Data.Fintype.Pigeonhole

namespace AlJefra.Lib

open Option

variable {σ ρ : Type}

inductive Round (σ ρ : Type) where
  | next (s : σ)
  | done (r : ρ)
  | stuck
  deriving DecidableEq, Repr

def posLoop (size : Nat) (pos : σ → Nat) (round : σ → Round σ ρ) (atEnd : σ → ρ) :
    Nat → σ → Option ρ
  | 0, s => if pos s < size then none else some (atEnd s)
  | n + 1, s =>
    if pos s < size then
      match round s with
      | .next s' => posLoop size pos round atEnd n s'
      | .done r => some r
      | .stuck => none
    else some (atEnd s)

section Rounds

variable {size : Nat} {pos : σ → Nat} {round : σ → Round σ ρ} {atEnd : σ → ρ} {s s' : σ} {r : ρ}
  {n : Nat}

theorem posLoop_next (hpos : pos s < size) (hround : round s = .next s') :
    posLoop size pos round atEnd (n + 1) s = posLoop size pos round atEnd n s' := by
  rw [posLoop, if_pos hpos, hround]

theorem posLoop_of_done (hpos : pos s < size) (hround : round s = .done r) :
    posLoop size pos round atEnd (n + 1) s = some r := by
  rw [posLoop, if_pos hpos, hround]

theorem posLoop_of_end (hpos : ¬ pos s < size) :
    posLoop size pos round atEnd n s = some (atEnd s) := by
  cases n with
  | zero | succ n => rw [posLoop, if_neg hpos]

end Rounds

/-! ## Runs that advance -/

inductive Advances (size width : Nat) (pos : σ → Nat) (round : σ → Round σ ρ) : σ → σ → Prop
  | refl (s : σ) : Advances size width pos round s s
  | next {s s' s'' : σ} : pos s < size → round s = .next s' → pos s + width ≤ pos s' →
      Advances size width pos round s' s'' → Advances size width pos round s s''

section Advances

variable {size width : Nat} {pos : σ → Nat} {round : σ → Round σ ρ} {atEnd : σ → ρ} {s s' s'' : σ}
  {r : ρ}

theorem Advances.single (hpos : pos s < size) (hround : round s = .next s')
    (hwidth : pos s + width ≤ pos s') : Advances size width pos round s s' :=
  .next hpos hround hwidth (.refl s')

theorem Advances.trans (h : Advances size width pos round s s')
    (h' : Advances size width pos round s' s'') : Advances size width pos round s s'' := by
  induction h with
  | refl _ => exact h'
  | next hpos hround hwidth _ ih => exact .next hpos hround hwidth (ih h')

theorem Advances.posLoop_eq (h : Advances size width pos round s s') (atEnd : σ → ρ) :
    ∀ n, size < pos s + width * n → ∃ m, size < pos s' + width * m ∧
      posLoop size pos round atEnd n s = posLoop size pos round atEnd m s' := by
  induction h with
  | refl _ => exact fun n hn => ⟨n, hn, rfl⟩
  | next hpos hround hwidth _ ih =>
    intro n hn
    cases n with
    | zero =>
      omega
    | succ n =>
      rw [Nat.mul_succ] at hn
      obtain ⟨m, hm, heq⟩ := ih n (by omega)
      exact ⟨m, hm, (posLoop_next hpos hround).trans heq⟩

theorem Advances.posLoop_done (h : Advances size width pos round s s') (atEnd : σ → ρ)
    (hpos : pos s' < size) (hround : round s' = .done r) {n : Nat}
    (hn : size < pos s + width * n) : posLoop size pos round atEnd n s = some r := by
  obtain ⟨m, hm, heq⟩ := h.posLoop_eq atEnd n hn
  rw [heq]
  cases m with
  | zero =>
    omega
  | succ m => exact posLoop_of_done hpos hround

end Advances

/-! ## Positions alone -/

abbrev scanChain (size : Nat) (next : Nat → Round Nat Unit) (n o : Nat) : Option Unit :=
  posLoop size id next (fun _ => ()) n o

def chain (size : Nat) (next : Nat → Round Nat Unit) (o : Nat) : Nat → Option Nat
  | 0 => some o
  | k + 1 =>
    (chain size next o k).bind fun p =>
      if p < size then
        match next p with
        | .next p' => some p'
        | _ => none
      else none

structure NeverReturns (size : Nat) (next : Nat → Round Nat Unit) (o : Nat) : Prop where
  notStuck : ∀ k p, chain size next o k = some p → p < size → next p ≠ .stuck
  injective : ∀ i j p, chain size next o i = some p → chain size next o j = some p → i = j

section Chain

variable {size : Nat} {next : Nat → Round Nat Unit} {o p : Nat} {k n : Nat}

theorem scanChain_of_end (ho : ¬ o < size) : scanChain size next n o = some () := posLoop_of_end ho

theorem scanChain_of_next {o' : Nat} (ho : o < size) (hnext : next o = .next o') :
    scanChain size next (n + 1) o = scanChain size next n o' := posLoop_next ho hnext

theorem scanChain_of_done (ho : o < size) (hnext : next o = .done ()) :
    scanChain size next (n + 1) o = some () := posLoop_of_done ho hnext

theorem chain_succ_eq_some {p' : Nat} : chain size next o (k + 1) = some p' ↔
    ∃ p, chain size next o k = some p ∧ p < size ∧ next p = .next p' := by
  rw [chain, bind_eq_some_iff]
  refine exists_congr fun p => and_congr_right fun _ => ?_
  split
  · next hp =>
    split
    · next q hq => simp [hp, hq]
    · next hnot =>
      simp only [reduceCtorEq, hp, true_and, false_iff]
      exact fun h => hnot p' h
  · next hp => simp [hp]

theorem chain_add (i j : Nat) (h : chain size next o i = some p) :
    chain size next o (i + j) = chain size next p j := by
  induction j with
  | zero => exact h
  | succ j ih => rw [← add_assoc, chain, ih, chain]

theorem scanChain_add : ∀ (k : Nat) {o p : Nat} (m : Nat), chain size next o k = some p →
    scanChain size next (k + m) o = scanChain size next m p
  | 0, o, p, m, h => by
    rw [chain, Option.some.injEq] at h
    rw [h, zero_add]
  | k + 1, o, p, m, h => by
    rw [chain_succ_eq_some] at h
    obtain ⟨q, hq, hlt, hnext⟩ := h
    rw [show k + 1 + m = k + (m + 1) by omega, scanChain_add k (m + 1) hq]
    exact scanChain_of_next hlt hnext

theorem scanChain_succ (n : Nat) : ∀ o, (scanChain size next n o).isSome →
    (scanChain size next (n + 1) o).isSome := by
  induction n with
  | zero =>
    intro o h
    by_cases ho : o < size
    · simp [scanChain, posLoop, ho] at h
    · rw [scanChain_of_end ho, isSome_some]
  | succ n ih =>
    intro o h
    by_cases ho : o < size
    · rw [scanChain, posLoop, if_pos (show id o < size from ho)] at h ⊢
      cases hnext : next o with
      | next o' =>
        rw [hnext] at h
        exact ih o' h
      | done r => rfl
      | stuck =>
        rw [hnext] at h
        exact h
    · rw [scanChain_of_end ho, isSome_some]

theorem scanChain_mono {m : Nat} (hnm : n ≤ m) (h : (scanChain size next n o).isSome) :
    (scanChain size next m o).isSome := by
  induction hnm with
  | refl => exact h
  | step _ ih => exact scanChain_succ _ _ ih

theorem scanChain_eq_none (h : chain size next o k = some p) (hn : n < k) :
    scanChain size next n o = none := by
  obtain ⟨d, rfl⟩ : ∃ d, k = n + 1 + d := ⟨k - (n + 1), by omega⟩
  have hstep : ∃ q, chain size next o (n + 1) = some q := by
    cases hc : chain size next o (n + 1) with
    | some q => exact ⟨q, rfl⟩
    | none =>
      -- a chain that has ended does not go on
      have hnone : ∀ d, chain size next o (n + 1 + d) = none := by
        intro d
        induction d with
        | zero => exact hc
        | succ d ih => rw [← add_assoc, chain, ih, bind_none]
      rw [hnone d] at h
      cases h
  obtain ⟨q, hq⟩ := hstep
  obtain ⟨q', hq', hlt, -⟩ := chain_succ_eq_some.mp hq
  have := scanChain_add n 0 hq'
  rw [add_zero] at this
  rw [this, scanChain, posLoop, if_pos (show id q' < size from hlt)]

theorem neverReturns_of_ends (h : (scanChain size next n o).isSome) : NeverReturns size next o := by
  have hends : ∀ {k p : Nat}, chain size next o k = some p → (scanChain size next n p).isSome := by
    intro k p hk
    rw [← scanChain_add k n hk]
    exact scanChain_mono (by omega) h
  -- two visits to one position would repeat for ever
  have hlt : ∀ i j p, i < j → chain size next o i = some p → chain size next o j = some p →
      False := by
    intro i j p hij hi hj
    obtain ⟨d, rfl⟩ : ∃ d, j = i + d := ⟨j - i, by omega⟩
    rw [chain_add i d hi] at hj
    have hperiod : ∀ m, (scanChain size next m p).isSome → False := by
      intro m
      induction m using Nat.strong_induction_on with
      | _ m ih =>
        intro hm
        by_cases hmd : m < d
        · rw [scanChain_eq_none hj hmd] at hm
          cases hm
        · obtain ⟨m', rfl⟩ : ∃ m', m = d + m' := ⟨m - d, by omega⟩
          rw [scanChain_add d m' hj] at hm
          exact ih m' (by omega) hm
    exact hperiod n (hends hi)
  refine ⟨fun k p hk hp hstuck => ?_, fun i j p hi hj => ?_⟩
  · have hp' := hends hk
    cases n with
    | zero => simp [scanChain, posLoop, hp] at hp'
    | succ n => simp [scanChain, posLoop, hp, hstuck] at hp'
  · rcases lt_trichotomy i j with hij | hij | hij
    · exact (hlt i j p hij hi hj).elim
    · exact hij
    · exact (hlt j i p hij hj hi).elim

theorem chain_of_scanChain_eq_none (hstuck : ∀ k p, chain size next o k = some p → p < size →
    next p ≠ .stuck) : ∀ n, scanChain size next n o = none →
    ∃ p, chain size next o n = some p ∧ p < size := by
  intro n
  induction n with
  | zero =>
    intro h
    refine ⟨o, rfl, ?_⟩
    by_contra ho
    rw [scanChain_of_end ho] at h
    cases h
  | succ n ih =>
    intro h
    have hn : scanChain size next n o = none := by
      by_contra hsome
      have := scanChain_succ n o (isSome_iff_ne_none.mpr hsome)
      rw [h] at this
      cases this
    obtain ⟨p, hp, hlt⟩ := ih hn
    have hone := scanChain_add n 1 hp
    rw [h] at hone
    cases hnext : next p with
    | next p' =>
      refine ⟨p', chain_succ_eq_some.mpr ⟨p, hp, hlt, hnext⟩, ?_⟩
      by_contra hp'
      rw [scanChain_of_next hlt hnext, scanChain_of_end hp'] at hone
      cases hone
    | done r =>
      rw [scanChain_of_done hlt hnext] at hone
      cases hone
    | stuck => exact absurd hnext (hstuck n p hp hlt)

theorem ends_of_neverReturns {width : Nat}
    (hdvd : ∀ k p, chain size next o k = some p → width ∣ p) (h : NeverReturns size next o) :
    (scanChain size next (size / width + 1) o).isSome := by
  rw [isSome_iff_ne_none]
  intro hnone
  have halive : ∀ k ≤ size / width + 1, ∃ p, chain size next o k = some p ∧ p < size := by
    intro k hk
    refine chain_of_scanChain_eq_none h.notStuck k ?_
    by_contra hsome
    have := scanChain_mono hk (isSome_iff_ne_none.mpr hsome)
    rw [hnone] at this
    cases this
  choose! visit hvisit using halive
  have hcell : ∀ k : Fin (size / width + 2), visit k / width < size / width + 1 := by
    intro k
    have := (hvisit k (by omega)).2
    have := Nat.div_le_div_right (c := width) (le_of_lt this)
    omega
  obtain ⟨i, j, hne, heq⟩ := Fintype.exists_ne_map_eq_of_card_lt
    (fun k : Fin (size / width + 2) => (⟨visit k / width, hcell k⟩ : Fin (size / width + 1)))
    (by simp)
  have hdiv : visit i / width = visit j / width := congrArg Fin.val heq
  have hi := (hvisit i (by omega)).1
  have hj := (hvisit j (by omega)).1
  have hsame : visit i = visit j := by
    rw [← Nat.div_mul_cancel (hdvd i _ hi), hdiv, Nat.div_mul_cancel (hdvd j _ hj)]
  rw [hsame] at hi
  exact hne (Fin.ext (h.injective i j _ hi hj))

end Chain

/-! ## Loops whose positions follow a chain -/

section Follows

variable {size : Nat} {pos : σ → Nat} {round : σ → Round σ ρ} {atEnd : σ → ρ}
  {next : Nat → Round Nat Unit}

def Round.Agrees (pos : σ → Nat) : Round σ ρ → Round Nat Unit → Prop
  | .next s', r => r = .next (pos s')
  | .done _, _ => True
  | .stuck, r => r = .stuck

def Follows (pos : σ → Nat) (round : σ → Round σ ρ) (next : Nat → Round Nat Unit) : Prop :=
  ∀ s, (round s).Agrees pos (next (pos s))

theorem Follows.ends (h : Follows pos round next) : ∀ (n : Nat) (s : σ),
    (scanChain size next n (pos s)).isSome → (posLoop size pos round atEnd n s).isSome := by
  intro n
  induction n with
  | zero =>
    intro s hs
    by_cases hpos : pos s < size
    · simp [scanChain, posLoop, hpos] at hs
    · rw [posLoop_of_end hpos, isSome_some]
  | succ n ih =>
    intro s hs
    have hagrees := h s
    by_cases hpos : pos s < size
    · cases hround : round s with
      | next s' =>
        rw [hround] at hagrees
        rw [scanChain_of_next hpos hagrees] at hs
        rw [posLoop_next hpos hround]
        exact ih s' hs
      | done r => rw [posLoop_of_done hpos hround, isSome_some]
      | stuck =>
        rw [hround] at hagrees
        rw [scanChain, posLoop, if_pos (show id _ < _ from hpos), hagrees] at hs
        cases hs
    · rw [posLoop_of_end hpos, isSome_some]

end Follows

end AlJefra.Lib
