/- Tables of rows with a key. -/
import AlJefra.Lib.Run

namespace AlJefra.Lib

open List

variable {α κ : Type} [DecidableEq κ] (key : α → κ)

def lookup (k : κ) (rows : List α) : Option α := rows.find? fun row => decide (key row = k)

def upsert : List α → α → List α
  | [], row => [row]
  | r :: rows, row => if key r = key row then row :: rows else r :: upsert rows row

def latest (k : κ) (rows : List α) : Option α := lookup key k rows.reverse

variable {key}

variable {k : κ} {rows : List α}

theorem latest_isSome_iff : (latest key k rows).isSome ↔ ∃ row ∈ rows, key row = k := by
  simp [latest, lookup, find?_isSome]

theorem lookup_cons (k : κ) (r : α) (rows : List α) :
    lookup key k (r :: rows) = if key r = k then some r else lookup key k rows := by
  by_cases hk : key r = k <;> simp [lookup, hk]

theorem lookup_upsert (k : κ) (rows : List α) (row : α) :
    lookup key k (upsert key rows row) = if key row = k then some row else lookup key k rows := by
  induction rows with
  | nil => rw [upsert, lookup_cons]
  | cons r rows ih =>
    rw [upsert]
    split
    · next hr =>
      rw [lookup_cons, lookup_cons, hr]
      by_cases hk : key row = k
      · rw [if_pos hk, if_pos hk]
      · rw [if_neg hk, if_neg hk, if_neg hk]
    · next hr =>
      rw [lookup_cons, ih, lookup_cons]
      by_cases hrk : key r = k
      · rw [if_pos hrk, if_neg (fun h => hr (hrk.trans h.symm)), if_pos hrk]
      · rw [if_neg hrk, if_neg hrk]

theorem latest_cons (k : κ) (row : α) (rows : List α) : latest key k (row :: rows)
      = (latest key k rows).or (if key row = k then some row else none) := by
  by_cases hk : key row = k <;> simp [latest, lookup, find?_append, hk]

theorem latest_map {β κ' : Type} [DecidableEq κ'] {key' : β → κ'} {f : α → β} {k' : κ'}
    (h : ∀ row ∈ rows, key' (f row) = k' ↔ key row = k) :
    latest key' k' (rows.map f) = (latest key k rows).map f := by
  induction rows with
  | nil => rfl
  | cons row rows ih =>
    obtain ⟨hrow, hrows⟩ := forall_mem_cons.mp h
    rw [map_cons, latest_cons, latest_cons, ih hrows]
    by_cases hk : key row = k <;> cases latest key k rows <;> simp [hk, hrow]

theorem lookup_run_upsert (k : κ) (news rows : List α) :
    lookup key k (run (upsert key) rows news) = (latest key k news).or (lookup key k rows) := by
  induction news generalizing rows with
  | nil => simp [latest, lookup]
  | cons row news ih =>
    rw [run_cons, ih, lookup_upsert, latest_cons]
    cases latest key k news with
    | some last => rfl
    | none => by_cases hk : key row = k <;> simp [hk]

end AlJefra.Lib
