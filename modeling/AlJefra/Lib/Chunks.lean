/- A long transfer in pieces. -/
import Mathlib.Data.List.Basic

namespace AlJefra.Lib

open List

/-! ## Pieces -/

def piecesFrom (cap : Nat) : Nat → Nat → Nat → List (Nat × Nat)
  | 0, _, _ => []
  | fuel + 1, start, len =>
    if len = 0 then []
    else (start, min len cap)
      :: piecesFrom cap fuel (start + min len cap) (len - min len cap)

def pieces (cap len : Nat) : List (Nat × Nat) := piecesFrom cap len 0 len

def total : List (Nat × Nat) → Nat
  | [] => 0
  | piece :: rest => piece.2 + total rest

def Consecutive : Nat → List (Nat × Nat) → Prop
  | _, [] => True
  | start, piece :: rest => piece.1 = start ∧ Consecutive (start + piece.2) rest

variable {cap fuel len start : Nat} {ps : List (Nat × Nat)} {piece : Nat × Nat} {α : Type}

theorem Consecutive.take (h : Consecutive start ps) (j : Nat) : Consecutive start (ps.take j) := by
  induction ps generalizing start j with
  | nil => simpa using h
  | cons piece rest ih =>
    cases j with
    | zero => trivial
    | succ j => exact ⟨h.1, ih h.2 j⟩

theorem total_take_le (ps : List (Nat × Nat)) (j : Nat) : total (ps.take j) ≤ total ps := by
  induction ps generalizing j with
  | nil => simp
  | cons piece rest ih =>
    cases j with
    | zero => exact Nat.zero_le _
    | succ j => exact Nat.add_le_add_left (ih j) _

theorem Consecutive.flatMap_range' (h : Consecutive start ps) :
    ps.flatMap (fun piece => range' piece.1 piece.2) = range' start (total ps) := by
  induction ps generalizing start with
  | nil => rfl
  | cons piece rest ih =>
    obtain ⟨rfl, hrest⟩ := h
    rw [flatMap_cons, ih hrest, total, range'_append_1]

theorem Consecutive.start_eq {pre post : List (Nat × Nat)}
    (h : Consecutive start (pre ++ piece :: post)) : piece.1 = start + total pre := by
  induction pre generalizing start with
  | nil => exact h.1
  | cons first pre ih => rw [ih h.2, total, Nat.add_assoc]

theorem consecutive_piecesFrom (cap fuel start len : Nat) :
    Consecutive start (piecesFrom cap fuel start len) := by
  induction fuel generalizing start len with
  | zero => trivial
  | succ fuel ih =>
    rw [piecesFrom]
    split
    · trivial
    · exact ⟨rfl, ih _ _⟩

theorem consecutive_pieces (cap len : Nat) : Consecutive 0 (pieces cap len) :=
  consecutive_piecesFrom cap len 0 len

theorem total_piecesFrom (hcap : 0 < cap) (hfuel : len ≤ fuel) (start : Nat) :
    total (piecesFrom cap fuel start len) = len := by
  induction fuel generalizing start len with
  | zero => simp [piecesFrom, total, Nat.le_zero.mp hfuel]
  | succ fuel ih =>
    rw [piecesFrom]
    split
    · next hlen => rw [hlen, total]
    · next hlen =>
      rw [total, ih (by omega)]
      omega

theorem total_pieces (hcap : 0 < cap) (len : Nat) : total (pieces cap len) = len :=
  total_piecesFrom hcap (Nat.le_refl len) 0

theorem mem_piecesFrom (hcap : 0 < cap) (hfuel : len ≤ fuel) :
    piece ∈ piecesFrom cap fuel start len ↔
      ∃ k, k * cap < len ∧ piece = (start + k * cap, min (len - k * cap) cap) := by
  induction fuel generalizing start len with
  | zero => simp [piecesFrom, Nat.le_zero.mp hfuel]
  | succ fuel ih =>
    rw [piecesFrom]
    split
    · next hlen => simp [hlen]
    · next hlen =>
      rw [mem_cons, ih (by omega)]
      constructor
      · rintro (rfl | ⟨k, hk, rfl⟩)
        · exact ⟨0, by omega, by simp⟩
        · have hsucc : (k + 1) * cap = cap + k * cap := by rw [Nat.succ_mul, Nat.add_comm]
          have hfull : min len cap = cap := by omega
          refine ⟨k + 1, by omega, ?_⟩
          rw [hfull, hsucc, Nat.add_assoc, Nat.sub_sub]
      · rintro ⟨k, hk, rfl⟩
        cases k with
        | zero => left; simp
        | succ k =>
          right
          have hsucc : (k + 1) * cap = cap + k * cap := by rw [Nat.succ_mul, Nat.add_comm]
          have hfull : min len cap = cap := by omega
          refine ⟨k, by omega, ?_⟩
          rw [hfull, hsucc, Nat.add_assoc, Nat.sub_sub]

theorem mem_pieces (hcap : 0 < cap) :
    piece ∈ pieces cap len ↔ ∃ k, k * cap < len ∧ piece = (k * cap, min (len - k * cap) cap) := by
  rw [pieces, mem_piecesFrom hcap (Nat.le_refl len)]
  simp only [Nat.zero_add]

theorem map_range_append (f : Nat → α) (m k : Nat) :
    (range m).map f ++ ((range k).map fun i => f (m + i)) = (range (m + k)).map f := by
  rw [range_add, map_append, map_map]
  rfl

theorem Consecutive.flatMap_units (h : Consecutive start ps) (u : Nat) (g : Nat → α) :
    ps.flatMap (fun piece => (range (piece.2 * u)).map fun i => g (piece.1 * u + i))
      = (range (total ps * u)).map fun i => g (start * u + i) := by
  induction ps generalizing start with
  | nil => simp [total]
  | cons piece rest ih =>
    obtain ⟨rfl, hrest⟩ := h
    rw [flatMap_cons, ih hrest, total, Nat.add_mul piece.2, ← map_range_append]
    simp only [Nat.add_mul, Nat.add_assoc]

theorem Consecutive.no_wrap {m limit base : Nat} (h : Consecutive start ps)
    (hstart : base + start < m) (hlimit : limit < m)
    (hall : ∀ piece ∈ ps, (base + piece.1) % m + piece.2 ≤ limit) :
    ∀ piece ∈ ps, base + piece.1 < m := by
  induction ps generalizing start with
  | nil => exact fun piece hpiece => absurd hpiece not_mem_nil
  | cons first rest ih =>
    obtain ⟨hfirst, hrest⟩ := h
    obtain ⟨hend, hall⟩ := forall_mem_cons.mp hall
    have hlt : base + first.1 < m := by rw [hfirst]; exact hstart
    rw [Nat.mod_eq_of_lt hlt] at hend
    refine forall_mem_cons.mpr ⟨hlt, ih hrest ?_ hall⟩
    omega

/-! ## Commands until the first failure -/

section RunUntil

variable {σ α ε : Type} [DecidableEq ε] (good : ε)

def runUntil (step : σ → α → σ × ε) : σ → List α → σ × ε
  | s, [] => (s, good)
  | s, cmd :: cmds =>
    if (step s cmd).2 = good then runUntil step (step s cmd).1 cmds else step s cmd

def record (outcome : List α → α → ε) (issued : List α) (cmd : α) : List α × ε :=
  (issued ++ [cmd], outcome issued cmd)

variable {good}

variable {outcome : List α → α → ε} {issued : List α} {cmd : α}

theorem runUntil_record_cons_good (h : outcome issued cmd = good) (plan : List α) :
    runUntil good (record outcome) issued (cmd :: plan)
      = runUntil good (record outcome) (issued ++ [cmd]) plan := by
  simp [runUntil, record, h]

theorem runUntil_record (outcome : List α → α → ε) (issued plan : List α) :
    ∃ j, (runUntil good (record outcome) issued plan).1 = issued ++ plan.take j ∧
      ((runUntil good (record outcome) issued plan).2 = good → plan.take j = plan) := by
  induction plan generalizing issued with
  | nil => exact ⟨0, by simp [runUntil]⟩
  | cons cmd plan ih =>
    by_cases hgood : outcome issued cmd = good
    · obtain ⟨j, hissued, hall⟩ := ih (issued ++ [cmd])
      rw [runUntil_record_cons_good hgood]
      refine ⟨j + 1, ?_, ?_⟩
      · rw [hissued, take_succ_cons, append_assoc, singleton_append]
      · intro hok
        rw [take_succ_cons, hall hok]
    · exact ⟨1, by simp [runUntil, record, hgood]⟩

theorem runUntil_record_good (issued plan : List α) :
    (runUntil good (record fun _ _ => good) issued plan).1 = issued ++ plan := by
  induction plan generalizing issued with
  | nil => simp [runUntil]
  | cons cmd plan ih =>
    have hcons : runUntil good (record fun _ _ => good) issued (cmd :: plan)
        = runUntil good (record fun _ _ => good) (issued ++ [cmd]) plan :=
      runUntil_record_cons_good rfl plan
    rw [hcons, ih, append_assoc, singleton_append]

theorem runUntil_append (step : σ → α → σ × ε) (s : σ) (xs ys : List α) :
    runUntil good step s (xs ++ ys) = if (runUntil good step s xs).2 = good then
        runUntil good step (runUntil good step s xs).1 ys
      else runUntil good step s xs := by
  induction xs generalizing s with
  | nil => simp [runUntil]
  | cons x xs ih =>
    rw [cons_append, runUntil, runUntil]
    by_cases hgood : (step s x).2 = good
    · rw [if_pos hgood, if_pos hgood, ih]
    · rw [if_neg hgood, if_neg hgood, if_neg hgood]

end RunUntil

/-! ## The effect of a plan -/

section Effect

variable {α κ ε ι : Type}

def andThen (s t : Option (List α)) : Option (List α) := s.bind fun xs => t.map (xs ++ ·)

def collect : List (Option (List α)) → Option (List α)
  | [] => some []
  | x :: xs => andThen x (collect xs)

theorem andThen_nil (s : Option (List α)) : andThen s (some []) = s := by
  cases s <;> simp [andThen]

theorem nil_andThen (s : Option (List α)) : andThen (some []) s = s := by
  cases s <;> simp [andThen]

theorem andThen_assoc (s t u : Option (List α)) :
    andThen (andThen s t) u = andThen s (andThen t u) := by
  cases s <;> cases t <;> cases u <;> simp [andThen]

theorem collect_append (xs ys : List (Option (List α))) :
    collect (xs ++ ys) = andThen (collect xs) (collect ys) := by
  induction xs with
  | nil => exact (nil_andThen _).symm
  | cons x xs ih => rw [cons_append, collect, ih, collect, andThen_assoc]

theorem collect_flatMap (f : ι → List (Option (List α))) (l : List ι) :
    collect (l.flatMap f) = collect (l.map fun x => collect (f x)) := by
  induction l with
  | nil => rfl
  | cons x l ih => rw [flatMap_cons, collect_append, ih, map_cons, collect]

variable {l : List α}

theorem andThen_eq_some {s t : Option (List α)} :
    andThen s t = some l ↔ ∃ xs ys, s = some xs ∧ t = some ys ∧ l = xs ++ ys := by
  cases s <;> cases t <;> simp [andThen, eq_comm]

theorem length_collect {f : Nat × Nat → Option (List α)} {u : Nat} {ps : List (Nat × Nat)}
    (hlen : ∀ piece ∈ ps, ∀ v, f piece = some v → v.length = piece.2 * u)
    (h : collect (ps.map f) = some l) : l.length = total ps * u := by
  induction ps generalizing l with
  | nil => cases h; simp [total]
  | cons piece rest ih =>
    obtain ⟨hpiece, hrest⟩ := forall_mem_cons.mp hlen
    obtain ⟨xs, ys, hx, hy, rfl⟩ := andThen_eq_some.mp h
    rw [length_append, hpiece xs hx, ih hrest hy, total, Nat.add_mul]

theorem collect_eq_some_flatMap_iff {f : ι → Option (List α)} {g : ι → List α} {l : List ι}
    (hlen : ∀ x ∈ l, ∀ v, f x = some v → v.length = (g x).length) :
    collect (l.map f) = some (l.flatMap g) ↔ ∀ x ∈ l, f x = some (g x) := by
  induction l with
  | nil => simp [collect]
  | cons x l ih =>
    obtain ⟨hx, hl⟩ := forall_mem_cons.mp hlen
    rw [map_cons, collect, flatMap_cons, andThen_eq_some, forall_mem_cons, ← ih hl]
    constructor
    · rintro ⟨xs, ys, hxs, hys, hsplit⟩
      obtain ⟨rfl, rfl⟩ := append_inj hsplit (hx xs hxs).symm
      exact ⟨hxs, hys⟩
    · rintro ⟨hfirst, hrest⟩
      exact ⟨g x, l.flatMap g, hfirst, hrest, rfl⟩

variable [DecidableEq ε] {good bad : ε}

def carryOut (good bad : ε) (accepts : κ → Bool) (effect : κ → Option (List α))
    (s : Option (List α)) (cmd : κ) : Option (List α) × ε :=
  if accepts cmd then (andThen s (effect cmd), good) else (s, bad)

theorem runUntil_carryOut (hbad : bad ≠ good) {accepts : κ → Bool} {effect : κ → Option (List α)}
    (s : Option (List α)) (plan : List κ)
    (h : (runUntil good (carryOut good bad accepts effect) s plan).2 = good) :
    (∀ cmd ∈ plan, accepts cmd = true) ∧ (runUntil good (carryOut good bad accepts effect) s plan).1
        = andThen s (collect (plan.map effect)) := by
  induction plan generalizing s with
  | nil => exact ⟨by simp, (andThen_nil s).symm⟩
  | cons cmd plan ih =>
    rw [runUntil] at h ⊢
    by_cases hacc : accepts cmd = true
    · have hstep : carryOut good bad accepts effect s cmd = (andThen s (effect cmd), good) :=
        if_pos hacc
      rw [hstep, if_pos rfl] at h ⊢
      obtain ⟨hall, hrest⟩ := ih _ h
      refine ⟨forall_mem_cons.mpr ⟨hacc, hall⟩, ?_⟩
      rw [hrest, andThen_assoc, map_cons, collect]
    · have hstep : carryOut good bad accepts effect s cmd = (s, bad) := if_neg hacc
      rw [hstep, if_neg hbad] at h
      exact absurd h hbad

end Effect

end AlJefra.Lib
