/-
A ring of cells that keeps the last entries. `Recent` relates the cells to the list of all
entries ever written.
-/
import Mathlib.Data.List.Basic

namespace AlJefra.Lib

open List

variable {α : Type}

def setCell (cells : Nat → α) (k : Nat) (e : α) : Nat → α := fun i => if i = k then e else cells i

def Recent (size : Nat) (cells : Nat → α) (posted : List α) : Prop :=
  ∀ i e, posted[i]? = some e → posted.length ≤ i + size → cells (i % size) = e

variable {size : Nat} {cells : Nat → α} {posted : List α}

theorem Recent.nil : Recent size cells [] := by
  intro i e he
  simp at he

theorem Recent.push (h : Recent size cells posted) (e : α) :
    Recent size (setCell cells (posted.length % size) e) (posted ++ [e]) := by
  intro i x hx hrecent
  rw [length_append, length_singleton] at hrecent
  rcases Nat.lt_trichotomy i posted.length with hlt | rfl | hgt
  · rw [getElem?_append_left hlt] at hx
    have hne : i % size ≠ posted.length % size := by
      intro heq
      have hzero := Nat.sub_mod_eq_zero_of_mod_eq heq.symm
      rw [Nat.mod_eq_of_lt (by omega)] at hzero
      omega
    rw [setCell, if_neg hne]
    exact h i x hx (by omega)
  · rw [getElem?_concat_length, Option.some.injEq] at hx
    rw [setCell, if_pos rfl, hx]
  · rw [getElem?_eq_none (by rw [length_append, length_singleton]; omega)] at hx
    cases hx

def oldestCell (size count head : Nat) : Nat := if count < size then 0 else head

theorem Recent.oldestFirst (h : Recent size cells posted) {count head : Nat}
    (hcount : count = min posted.length size) (hhead : head = posted.length % size) :
    (List.range count).map (fun i => cells ((oldestCell size count head + i) % size)) =
      posted.drop (posted.length - count) := by
  refine ext_getElem? fun i => ?_
  rw [getElem?_map, getElem?_drop]
  by_cases hi : i < count
  · have hin : posted.length - count + i < posted.length := by omega
    have hcell := h _ _ (getElem?_eq_getElem hin) (by omega)
    have hidx : (oldestCell size count head + i) % size = (posted.length - count + i) % size := by
      unfold oldestCell
      split
      · have hzero : posted.length - count = 0 := by omega
        rw [hzero]
      · -- the ring is full: one pass lies between the two positions
        have hone : posted.length = posted.length - count + size := by omega
        rw [hhead, Nat.mod_add_mod, hone, Nat.add_right_comm, Nat.add_mod_right, Nat.add_sub_assoc]
        · congr 2
          omega
        · omega
    rw [getElem?_range hi, Option.map_some, hidx, hcell, getElem?_eq_getElem hin]
  · rw [getElem?_eq_none (by rw [length_range]; omega), Option.map_none,
      getElem?_eq_none (by omega)]

end AlJefra.Lib
