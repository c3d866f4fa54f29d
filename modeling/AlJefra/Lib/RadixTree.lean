/- Tables of words that point to tables. -/
import Mathlib.Data.List.Basic

namespace AlJefra.Lib

open List Option

abbrev WordStore (P ι W : Type) := P → ι → W

section Walk

variable {P ι W : Type} (next : Nat → W → Option P)

def follow (mem : WordStore P ι W) : Nat → P → List ι → Option P
  | _, p, [] => some p
  | d, p, i :: π =>
    match next d (mem p i) with
    | none => none
    | some q => follow mem (d + 1) q π

def trace (mem : WordStore P ι W) : Nat → P → List ι → List W
  | _, _, [] => []
  | d, p, i :: π =>
    mem p i ::
      match next d (mem p i) with
      | none => []
      | some q => trace mem (d + 1) q π

def Reaches (mem : WordStore P ι W) (root : P) (π : List ι) (p : P) : Prop :=
  follow next mem 0 root π = some p

def IsTree (mem : WordStore P ι W) (root : P) : Prop :=
  ∀ π π' p, Reaches next mem root π p → Reaches next mem root π' p → π = π'

variable {next} {mem mem' : WordStore P ι W}

theorem follow_append (τ : List ι) : ∀ (π : List ι) (d : Nat) (p : P),
    follow next mem d p (π ++ τ) =
      (follow next mem d p π).bind fun q => follow next mem (d + π.length) q τ := by
  intro π
  induction π with
  | nil => intro d p; rfl
  | cons i π ih =>
    intro d p
    simp only [cons_append, follow]
    cases next d (mem p i) with
    | none => rfl
    | some q =>
      simp only [ih, length_cons]
      rw [show d + 1 + π.length = d + (π.length + 1) by omega]

theorem trace_append (τ : List ι) : ∀ (π : List ι) (d : Nat) (p q : P),
    follow next mem d p π = some q →
    trace next mem d p (π ++ τ) = trace next mem d p π ++ trace next mem (d + π.length) q τ := by
  intro π
  induction π with
  | nil =>
    intro d p q h
    obtain rfl := some.inj h
    rfl
  | cons i π ih =>
    intro d p q h
    simp only [cons_append, follow, trace] at h ⊢
    cases hn : next d (mem p i) with
    | none => rw [hn] at h; cases h
    | some r =>
      rw [hn] at h
      simp only [ih (d + 1) r q h, length_cons]
      rw [show d + 1 + π.length = d + (π.length + 1) by omega]

variable {π : List ι}

theorem reaches_snoc {root q : P} {i : ι} : Reaches next mem root (π ++ [i]) q ↔
      ∃ p, Reaches next mem root π p ∧ next π.length (mem p i) = some q := by
  unfold Reaches
  rw [follow_append]
  constructor
  · intro h
    obtain ⟨p, hp, hq⟩ := bind_eq_some_iff.mp h
    refine ⟨p, hp, ?_⟩
    simp only [follow, Nat.zero_add] at hq
    cases hn : next π.length (mem p i) with
    | none => rw [hn] at hq; cases hq
    | some r => rw [hn] at hq; exact hq
  · rintro ⟨p, hp, hq⟩
    rw [hp, bind_some]
    simp [follow, hq]

theorem walk_congr : ∀ (ρ : List ι) (d : Nat) (p : P),
    (∀ π j τ q, ρ = π ++ j :: τ → follow next mem d p π = some q → mem' q j = mem q j) →
    follow next mem' d p ρ = follow next mem d p ρ ∧
      trace next mem' d p ρ = trace next mem d p ρ := by
  intro ρ
  induction ρ with
  | nil => intro d p _; exact ⟨rfl, rfl⟩
  | cons i ρ ih =>
    intro d p h
    have hw : mem' p i = mem p i := h [] i ρ p rfl rfl
    simp only [follow, trace, hw]
    cases hn : next d (mem p i) with
    | none => exact ⟨rfl, rfl⟩
    | some q =>
      obtain ⟨hf, ht⟩ := ih (d + 1) q fun π j τ r hρ hr =>
        h (i :: π) j τ r (by rw [hρ]; rfl) (by simpa only [follow, hn] using hr)
      exact ⟨hf, congrArg (mem p i :: ·) ht⟩

theorem walk_ends : ∀ (ρ : List ι) (d : Nat) (p : P), ρ ≠ [] →
    ∃ π i τ q, ρ = π ++ i :: τ ∧ follow next mem d p π = some q ∧
      (next (d + π.length) (mem q i) = none ∨ τ = []) := by
  intro ρ
  induction ρ with
  | nil => intro d p h; exact absurd rfl h
  | cons i ρ ih =>
    intro d p _
    cases hn : next d (mem p i) with
    | none => exact ⟨[], i, ρ, p, rfl, rfl, .inl hn⟩
    | some q =>
      cases ρ with
      | nil => exact ⟨[], i, [], p, rfl, rfl, .inr rfl⟩
      | cons j ρ =>
        obtain ⟨π, k, τ, r, hρ, hr, hend⟩ := ih (d + 1) q (by simp)
        refine ⟨i :: π, k, τ, r, by rw [hρ]; rfl, by simpa only [follow, hn] using hr, ?_⟩
        rwa [length_cons, show d + (π.length + 1) = d + 1 + π.length by omega]

theorem fresh_ne {root p q : P} (hp : Reaches next mem root π p)
    (hq : ∀ π, ¬ Reaches next mem root π q) : q ≠ p := by
  rintro rfl
  exact hq π hp

end Walk

/-! ## Changes -/

section Update

variable {P ι W : Type} [DecidableEq P]

def setPage (mem : WordStore P ι W) (p : P) (c : ι → W) : WordStore P ι W :=
  fun q => if q = p then c else mem q

@[simp] theorem setPage_self (mem : WordStore P ι W) (p : P) (c : ι → W) :
    setPage mem p c p = c := by
  simp [setPage]

theorem setPage_ne (mem : WordStore P ι W) {p q : P} (c : ι → W) (h : q ≠ p) :
    setPage mem p c q = mem q := by
  simp [setPage, h]

theorem setPage_setPage (mem : WordStore P ι W) (p : P) (c c' : ι → W) :
    setPage (setPage mem p c) p c' = setPage mem p c' := by
  funext q
  by_cases h : q = p <;> simp [setPage, h]

variable {next : Nat → W → Option P} {mem : WordStore P ι W} {root p q : P} {π ρ : List ι} {i : ι}

theorem walk_setPage (hq : ∀ π, ¬ Reaches next mem root π q) (c : ι → W) (ρ : List ι) :
    follow next (setPage mem q c) 0 root ρ = follow next mem 0 root ρ ∧
      trace next (setPage mem q c) 0 root ρ = trace next mem 0 root ρ := by
  refine walk_congr ρ 0 root fun π j τ r _ hr => ?_
  have hne : r ≠ q := by
    rintro rfl
    exact hq π hr
  rw [setPage_ne mem c hne]

theorem isTree_setPage (ht : IsTree next mem root) (hq : ∀ π, ¬ Reaches next mem root π q)
    (c : ι → W) : IsTree next (setPage mem q c) root := by
  intro ρ ρ' r h h'
  unfold Reaches at h h'
  rw [(walk_setPage hq c _).1] at h h'
  exact ht ρ ρ' r h h'

theorem reaches_setPage (hp : Reaches next mem root π p) (hq : ∀ π, ¬ Reaches next mem root π q)
    (c : ι → W) : Reaches next (setPage mem q c) root π p := by
  unfold Reaches
  rw [(walk_setPage hq c _).1]
  exact hp

variable [DecidableEq ι]

def setWord (mem : WordStore P ι W) (p : P) (i : ι) (v : W) : WordStore P ι W :=
  fun q j => if q = p ∧ j = i then v else mem q j

@[simp] theorem setWord_self (mem : WordStore P ι W) (p : P) (i : ι) (v : W) :
    setWord mem p i v p i = v := by
  simp [setWord]

theorem setWord_ne (mem : WordStore P ι W) {p q : P} {i j : ι} (v : W)
    (h : ¬ (q = p ∧ j = i)) : setWord mem p i v q j = mem q j := by
  simp [setWord, h]

section

variable (ht : IsTree next mem root) (hp : Reaches next mem root π p)
include ht hp

theorem walk_setWord_other (v : W)
    (hρ : ∀ τ, ρ ≠ π ++ i :: τ) :
    follow next (setWord mem p i v) 0 root ρ = follow next mem 0 root ρ ∧
      trace next (setWord mem p i v) 0 root ρ = trace next mem 0 root ρ := by
  refine walk_congr ρ 0 root fun π' j τ r hsplit hr => setWord_ne mem v ?_
  rintro ⟨rfl, rfl⟩
  obtain rfl := ht π π' r hp hr
  exact hρ τ hsplit

theorem follow_setWord_prior (v : W) :
    follow next (setWord mem p i v) 0 root π = some p ∧
      trace next (setWord mem p i v) 0 root π = trace next mem 0 root π := by
  have hshort : ∀ τ, π ≠ π ++ i :: τ := by
    intro τ h
    have := congrArg length h
    simp at this
  obtain ⟨hf, htr⟩ := walk_setWord_other ht hp v hshort
  exact ⟨hf.trans hp, htr⟩

theorem trace_setWord_self (v : W)
    (τ : List ι) :
    trace next (setWord mem p i v) 0 root (π ++ i :: τ) = trace next mem 0 root π ++ v ::
        match next π.length v with
        | none => []
        | some q => trace next (setWord mem p i v) (π.length + 1) q τ := by
  obtain ⟨hf, htr⟩ := follow_setWord_prior (i := i) ht hp v
  rw [trace_append _ _ _ _ _ hf, htr]
  simp only [trace, setWord_self, Nat.zero_add]

theorem reaches_setWord {v : W}
    (hold : next π.length (mem p i) = none) (hnew : next π.length v = none) (ρ : List ι) (r : P) :
    Reaches next (setWord mem p i v) root ρ r ↔ Reaches next mem root ρ r := by
  unfold Reaches
  by_cases hρ : ∃ τ, ρ = π ++ i :: τ
  · obtain ⟨τ, rfl⟩ := hρ
    obtain ⟨hf, -⟩ := follow_setWord_prior (i := i) ht hp v
    rw [follow_append, follow_append, hf, hp]
    simp [follow, hold, hnew]
  · rw [(walk_setWord_other ht hp v fun τ h => hρ ⟨τ, h⟩).1]

theorem isTree_setWord {v : W}
    (hold : next π.length (mem p i) = none) (hnew : next π.length v = none) :
    IsTree next (setWord mem p i v) root := by
  intro ρ ρ' r h h'
  rw [reaches_setWord ht hp hold hnew] at h h'
  exact ht ρ ρ' r h h'

end

/-! ## A fresh page linked in -/

section Link

variable {v : W} {c : ι → W}

def link (mem : WordStore P ι W) (q : P) (c : ι → W) (p : P) (i : ι) (v : W) : WordStore P ι W :=
  setWord (setPage mem q c) p i v

variable (ht : IsTree next mem root) (hp : Reaches next mem root π p)
  (hq : ∀ π, ¬ Reaches next mem root π q)

include ht hp hq

theorem trace_link_other (hρ : ∀ τ, ρ ≠ π ++ i :: τ) :
    trace next (link mem q c p i v) 0 root ρ = trace next mem 0 root ρ := by
  unfold link
  rw [(walk_setWord_other (isTree_setPage ht hq c) (reaches_setPage hp hq c) v hρ).2,
    (walk_setPage hq c ρ).2]

theorem trace_link_self (hv : next π.length v = some q)
    (hc : ∀ j, next (π.length + 1) (c j) = none) (j : ι) (τ : List ι) :
    trace next (link mem q c p i v) 0 root (π ++ i :: j :: τ) =
      trace next mem 0 root π ++ [v, c j] := by
  have hword : link mem q c p i v q j = c j := by
    unfold link
    rw [setWord_ne _ v (fun h => fresh_ne hp hq h.1), setPage_self]
  unfold link at hword ⊢
  rw [trace_setWord_self (isTree_setPage ht hq c) (reaches_setPage hp hq c),
    (walk_setPage hq c π).2]
  simp only [hv, trace, hword, hc j]

theorem reaches_link (hold : next π.length (mem p i) = none) (hv : next π.length v = some q)
    (hc : ∀ j, next (π.length + 1) (c j) = none) (ρ : List ι) (r : P) :
    Reaches next (link mem q c p i v) root ρ r ↔
      Reaches next mem root ρ r ∨ (ρ = π ++ [i] ∧ r = q) := by
  have htree := isTree_setPage ht hq c
  have hreach := reaches_setPage hp hq c
  by_cases hρ : ∃ τ, ρ = π ++ i :: τ
  · obtain ⟨τ, rfl⟩ := hρ
    -- before, nothing was reached through the word
    have hnone : ¬ Reaches next mem root (π ++ i :: τ) r := by
      unfold Reaches
      rw [follow_append, hp]
      simp [follow, hold]
    obtain ⟨hf, -⟩ := follow_setWord_prior (i := i) htree hreach v
    have hword : ∀ j, setWord (setPage mem q c) p i v q j = c j := by
      intro j
      rw [setWord_ne _ v (fun h => fresh_ne hp hq h.1), setPage_self]
    unfold Reaches link
    rw [follow_append, hf]
    simp only [bind_some, follow, setWord_self, Nat.zero_add, hv]
    cases τ with
    | nil =>
      simp only [follow, some.injEq, true_and]
      exact ⟨fun h => .inr h.symm, fun h => h.elim (fun h => absurd h hnone) Eq.symm⟩
    | cons j τ =>
      simp only [follow, hword, hc j, append_cancel_left_eq, cons.injEq, true_and,
        reduceCtorEq, false_and, or_false, false_iff]
      exact hnone
  · have hne : ρ ≠ π ++ [i] := fun h => hρ ⟨[], h⟩
    unfold Reaches link
    rw [(walk_setWord_other htree hreach v fun τ h => hρ ⟨τ, h⟩).1, (walk_setPage hq c ρ).1]
    simp [hne]

theorem isTree_link (hold : next π.length (mem p i) = none) (hv : next π.length v = some q)
    (hc : ∀ j, next (π.length + 1) (c j) = none) : IsTree next (link mem q c p i v) root := by
  intro ρ ρ' r h h'
  rw [reaches_link ht hp hq hold hv hc] at h h'
  obtain h | ⟨hρ, rfl⟩ := h
  · obtain h' | ⟨-, rfl⟩ := h'
    · exact ht ρ ρ' r h h'
    · exact absurd h (hq ρ)
  · obtain h' | ⟨hρ', -⟩ := h'
    · exact absurd h' (hq ρ')
    · rw [hρ, hρ']

end Link

end Update

end AlJefra.Lib
