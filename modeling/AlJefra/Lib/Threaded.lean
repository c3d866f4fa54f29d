/- A list threaded through the cells of a table. -/
import Mathlib.Data.List.Basic

namespace AlJefra.Lib

inductive Threaded (link : Nat → Option Nat) : Nat → List Nat → Prop
  | last {a : Nat} : link a = none → Threaded link a [a]
  | cons {a b : Nat} {l : List Nat} : link a = some b → Threaded link b l → Threaded link a (a :: l)

def walk (link : Nat → Option Nat) : Nat → Nat → List Nat
  | 0, _ => []
  | n + 1, i =>
    i :: match link i with
      | none => []
      | some j => walk link n j

variable {link link' : Nat → Option Nat} {a b : Nat} {l : List Nat}

theorem Threaded.head (h : Threaded link a (b :: l)) : a = b := by
  cases h with
  | last _ | cons _ _ => rfl

theorem Threaded.tail {c : Nat} (h : Threaded link a (b :: c :: l)) :
    link a = some c ∧ Threaded link c (c :: l) := by
  cases h with
  | cons hlink htail =>
    obtain rfl := htail.head
    exact ⟨hlink, htail⟩

theorem Threaded.congr (h : Threaded link a l) (hlink : ∀ i ∈ l, link' i = link i) :
    Threaded link' a l := by
  induction h with
  | last hlast => exact .last ((hlink _ (by simp)).trans hlast)
  | cons hnext _ ih =>
    refine .cons ((hlink _ (by simp)).trans hnext) (ih fun i hi => hlink i ?_)
    exact List.mem_cons_of_mem _ hi

theorem Threaded.walk_eq (h : Threaded link a l) : ∀ n, l.length ≤ n → walk link n a = l := by
  induction h with
  | last hlast =>
    intro n hn
    cases n with
    | zero => simp at hn
    | succ n => rw [walk, hlast]
  | cons hnext _ ih =>
    intro n hn
    cases n with
    | zero => simp at hn
    | succ n =>
      simp only [List.length_cons, Nat.add_le_add_iff_right] at hn
      simp only [walk, hnext, ih n hn]

theorem threaded_range' : ∀ (n a : Nat), (∀ i, a ≤ i → i < a + n → link i = some (i + 1)) →
    link (a + n) = none → Threaded link a (List.range' a (n + 1))
  | 0, a, _, hend => .last hend
  | n + 1, a, hnext, hend => by
    rw [List.range'_succ]
    refine .cons (hnext a (Nat.le_refl a) (by omega)) (threaded_range' n (a + 1) ?_ ?_)
    · intro i hi hlt
      exact hnext i (by omega) (by omega)
    · rw [show a + 1 + n = a + (n + 1) by omega]
      exact hend

end AlJefra.Lib
