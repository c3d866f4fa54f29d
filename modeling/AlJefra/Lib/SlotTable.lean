/-
Tables of slots closed by an end marker. `visible` is what a reader sees that skips deleted
slots and stops at the first end marker.
-/
import Mathlib.Algebra.Group.Nat.Defs
import Mathlib.Data.List.Perm.Basic

namespace AlJefra.Lib

open List

structure Table (α : Type) (n : Nat) where
  slots : List α
  length_slots : slots.length = n
  deriving DecidableEq

namespace Table

variable {α : Type} {n : Nat}

def get (t : Table α n) (i : Fin n) : α := t.slots.get (i.cast t.length_slots.symm)

def modify (t : Table α n) (i : Nat) (f : α → α) : Table α n :=
  ⟨t.slots.modify i f, by rw [length_modify, t.length_slots]⟩

def set (t : Table α n) (i : Nat) (x : α) : Table α n :=
  ⟨t.slots.set i x, by rw [length_set, t.length_slots]⟩

def write (t : Table α n) (i : Nat) : List α → Table α n
  | [] => t
  | x :: xs => (t.set i x).write (i + 1) xs

def ofFn (f : Fin n → α) : Table α n := ⟨List.ofFn f, length_ofFn⟩

def ofList (fill : α) (l : List α) : Table α n :=
  ⟨(l ++ List.replicate n fill).take n, by simp⟩

@[simp] theorem slots_modify (t : Table α n) (i : Nat) (f : α → α) :
    (t.modify i f).slots = t.slots.modify i f := rfl

@[simp] theorem slots_set (t : Table α n) (i : Nat) (x : α) :
    (t.set i x).slots = t.slots.set i x := rfl

theorem take_write (t : Table α n) (i : Nat) (xs : List α) (h : i + xs.length ≤ n) :
    (t.write i xs).slots.take (i + xs.length) = t.slots.take i ++ xs := by
  induction xs generalizing t i with
  | nil => simp [write]
  | cons x xs ih =>
    rw [length_cons] at h
    have hslot : (t.set i x).slots.take (i + 1) = t.slots.take i ++ [x] := by
      have hi : i < t.slots.length := by rw [t.length_slots]; omega
      have hlen : (t.slots.take i).length = i := length_take_of_le (Nat.le_of_lt hi)
      rw [slots_set, take_set, take_succ_eq_append_getElem hi,
        set_append_right _ _ (Nat.le_of_eq hlen), hlen, Nat.sub_self, set_cons_zero]
    rw [write, length_cons, add_comm xs.length, ← add_assoc, ih _ _ (by omega),
      hslot, append_assoc, singleton_append]

theorem slots_write_end (t : Table α n) (i : Nat) (xs : List α) (h : i + xs.length = n) :
    (t.write i xs).slots = t.slots.take i ++ xs := by
  have hall : (t.write i xs).slots.take n = (t.write i xs).slots :=
    take_of_length_le (Nat.le_of_eq (length_slots _))
  rw [← take_write t i xs (Nat.le_of_eq h), h, hall]

end Table

inductive Tag where
  | fin
  | deleted
  | live
  deriving DecidableEq, Repr

section SlotTable

variable {α : Type} (tag : α → Tag)

def visible : List α → List α
  | [] => []
  | x :: xs =>
    match tag x with
    | .fin => []
    | .deleted => visible xs
    | .live => x :: visible xs

def firstFree : List α → Option Nat
  | [] => none
  | x :: xs => if tag x = .live then (firstFree xs).map (· + 1) else some 0

def TailShape : List α → Prop
  | [] => True
  | x :: xs =>
    if tag x = .fin then (∀ y ∈ xs, tag y = .fin) ∨ (∀ y ∈ xs, tag y ≠ .fin)
    else TailShape xs

instance decidableTailShape : DecidablePred (TailShape tag)
  | [] => .isTrue trivial
  | x :: xs =>
    have := decidableTailShape xs
    inferInstanceAs (Decidable (if tag x = .fin then _ else _))

variable {tag}

variable {x : α} {pre xs : List α} {f : α → α}

theorem visible_cons_fin (h : tag x = .fin) (xs : List α) : visible tag (x :: xs) = [] := by
  simp [visible, h]

theorem visible_cons_deleted (h : tag x = .deleted) (xs : List α) :
    visible tag (x :: xs) = visible tag xs := by
  simp [visible, h]

theorem visible_cons_live (h : tag x = .live) (xs : List α) :
    visible tag (x :: xs) = x :: visible tag xs := by
  simp [visible, h]

theorem visible_append (hpre : ∀ y ∈ pre, tag y ≠ .fin) (post : List α) :
    visible tag (pre ++ post) = visible tag pre ++ visible tag post := by
  induction pre with
  | nil => rfl
  | cons x pre ih =>
    have hx := hpre x mem_cons_self
    have ih := ih (fun y hy => hpre y (mem_cons_of_mem _ hy))
    cases htag : tag x with
    | fin => exact absurd htag hx
    | deleted | live => simp [visible, htag, ih]

theorem visible_of_live (hpre : ∀ y ∈ pre, tag y = .live) : visible tag pre = pre := by
  induction pre with
  | nil => rfl
  | cons x pre ih =>
    rw [visible_cons_live (hpre x mem_cons_self),
        ih (fun y hy => hpre y (mem_cons_of_mem _ hy))]

theorem visible_of_fin (h : ∀ y ∈ xs, tag y = .fin) : visible tag xs = [] := by
  cases xs with
  | nil => rfl
  | cons x xs => exact visible_cons_fin (h x mem_cons_self) xs

theorem visible_eq_nil_iff (h : ∀ y ∈ xs, tag y ≠ .fin) :
    visible tag xs = [] ↔ ∀ y ∈ xs, tag y ≠ .live := by
  induction xs with
  | nil => simp [visible]
  | cons x xs ih =>
    have hx := h x mem_cons_self
    have ih := ih (fun y hy => h y (mem_cons_of_mem _ hy))
    cases htag : tag x with
    | fin => exact absurd htag hx
    | deleted => simp [visible, htag, ih]
    | live => simp [visible, htag]

theorem firstFree_eq_some : ∀ {xs : List α} {k : Nat}, firstFree tag xs = some k →
    ∃ pre x post, xs = pre ++ x :: post ∧ pre.length = k ∧
      (∀ y ∈ pre, tag y = .live) ∧ tag x ≠ .live
  | [], _, h => by simp [firstFree] at h
  | x :: xs, k, h => by
    by_cases hx : tag x = .live
    · simp only [firstFree, hx, if_true, Option.map_eq_some_iff] at h
      obtain ⟨j, hj, rfl⟩ := h
      obtain ⟨pre, y, post, rfl, hlen, hpre, hy⟩ := firstFree_eq_some hj
      refine ⟨x :: pre, y, post, rfl, by simp [hlen], ?_, hy⟩
      intro z hz
      rcases mem_cons.mp hz with rfl | hz
      · exact hx
      · exact hpre z hz
    · simp only [firstFree, hx, if_false, Option.some.injEq] at h
      exact ⟨[], x, xs, rfl, h, by simp, hx⟩

theorem tailShape_append (hpre : ∀ y ∈ pre, tag y ≠ .fin) (post : List α) :
    TailShape tag (pre ++ post) ↔ TailShape tag post := by
  induction pre with
  | nil => rfl
  | cons x pre ih =>
    have hx := hpre x mem_cons_self
    simp only [cons_append, TailShape, hx, if_false]
    exact ih (fun y hy => hpre y (mem_cons_of_mem _ hy))

theorem tailShape_cons_fin (h : tag x = .fin) (xs : List α) :
    TailShape tag (x :: xs) ↔ (∀ y ∈ xs, tag y = .fin) ∨ (∀ y ∈ xs, tag y ≠ .fin) := by
  simp [TailShape, h]

theorem tailShape_cons (h : tag x ≠ .fin) (xs : List α) :
    TailShape tag (x :: xs) ↔ TailShape tag xs := by
  simp [TailShape, h]

theorem tailShape_of_fin (h : ∀ y ∈ xs, tag y = .fin) : TailShape tag xs := by
  cases xs with
  | nil => trivial
  | cons x xs =>
    rw [tailShape_cons_fin (h x mem_cons_self)]
    exact Or.inl (fun y hy => h y (mem_cons_of_mem _ hy))

theorem map_visible_modify {β : Type} (g : α → β) (htag : ∀ x, tag (f x) = tag x)
    (hg : ∀ x, g (f x) = g x) : ∀ (xs : List α) (i : Nat),
    (visible tag (xs.modify i f)).map g = (visible tag xs).map g
  | [], i => by simp
  | x :: xs, 0 => by
    rw [modify_zero_cons]
    cases hx : tag x <;> simp [visible, htag, hx, hg]
  | x :: xs, i + 1 => by
    rw [modify_succ_cons]
    cases hx : tag x <;> simp [visible, hx, map_visible_modify g htag hg xs i]

theorem map_tag_modify (htag : ∀ x, tag (f x) = tag x) (xs : List α) (i : Nat) :
    (xs.modify i f).map tag = xs.map tag := by
  induction xs generalizing i with
  | nil => simp
  | cons x xs ih => cases i <;> simp [htag, ih]

theorem tailShape_congr : ∀ {xs ys : List α}, xs.map tag = ys.map tag →
    TailShape tag xs → TailShape tag ys
  | [], [], _, h => h
  | x :: xs, y :: ys, heq, h => by
    simp only [map_cons, cons.injEq] at heq
    obtain ⟨hxy, hrest⟩ := heq
    by_cases hx : tag x = .fin
    · have hy : tag y = .fin := hxy ▸ hx
      rw [tailShape_cons_fin hx] at h
      rw [tailShape_cons_fin hy]
      have hmem : ∀ P : Tag → Prop, (∀ z ∈ xs, P (tag z)) ↔ ∀ z ∈ ys, P (tag z) := by
        intro P
        rw [← forall_mem_map (f := tag) (P := P), hrest, forall_mem_map]
      rwa [← hmem (· = .fin), ← hmem (· ≠ .fin)]
    · have hy : tag y ≠ .fin := hxy ▸ hx
      rw [tailShape_cons hx] at h
      rw [tailShape_cons hy]
      exact tailShape_congr hrest h

end SlotTable

theorem modify_append_cons {α : Type} (pre : List α) (x : α) (post : List α) (f : α → α) :
    (pre ++ x :: post).modify pre.length f = pre ++ f x :: post := by
  simp [modify_eq_take_drop]

end AlJefra.Lib
