/- A map of cells under a list of writes (`store`). -/
import Mathlib.Data.List.Basic

namespace AlJefra.Lib

open List

variable {K V : Type} [DecidableEq K]

def store (m : K → V) : List (K × V) → K → V
  | [] => m
  | w :: ws => store (Function.update m w.1 w.2) ws

theorem store_of_not_mem {k : K} : ∀ (ws : List (K × V)) (m : K → V),
    (∀ w ∈ ws, w.1 ≠ k) → store m ws k = m k := by
  intro ws
  induction ws with
  | nil => intro m _; rfl
  | cons w ws ih =>
    intro m h
    rw [store, ih _ fun x hx => h x (mem_cons_of_mem _ hx),
      Function.update_of_ne (h w List.mem_cons_self).symm]

theorem store_of_mem {k : K} {v : V} : ∀ (ws : List (K × V)) (m : K → V),
    (∃ w ∈ ws, w.1 = k) → (∀ w ∈ ws, w.1 = k → w.2 = v) → store m ws k = v := by
  intro ws
  induction ws with
  | nil =>
    rintro m ⟨w, hw, -⟩ _
    exact absurd hw not_mem_nil
  | cons w ws ih =>
    rintro m ⟨x, hx, hk⟩ hagree
    rw [store]
    by_cases hlater : ∃ y ∈ ws, y.1 = k
    · exact ih _ hlater fun y hy => hagree y (mem_cons_of_mem _ hy)
    · rw [store_of_not_mem ws _ fun y hy heq => hlater ⟨y, hy, heq⟩]
      rcases mem_cons.mp hx with rfl | hx
      · rw [← hk, Function.update_self]
        exact hagree x List.mem_cons_self hk
      · exact absurd ⟨x, hx, hk⟩ hlater

theorem erases_iff {α β γ : Type} {f g : α → Option β} {cleared : α → Prop}
    (inside : α → Prop) (view : β → γ) (hcleared : ∀ a, cleared a → g a = none)
    (hkept : ∀ a, ¬ cleared a → g a = f a) :
    ((∀ a, inside a → g a = none) ∧ ∀ a, ¬ inside a → (g a).map view = (f a).map view) ↔
      ∀ a, f a ≠ none → (inside a ↔ cleared a) := by
  constructor
  · rintro ⟨hin, hout⟩ a hf
    by_cases hc : cleared a
    · refine iff_of_true (by_contra fun hno => hf ?_) hc
      simpa [hcleared a hc] using (hout a hno).symm
    · exact iff_of_false (fun hi => hf ((hkept a hc).symm.trans (hin a hi))) hc
  · intro h
    refine ⟨fun a hi => ?_, fun a hno => ?_⟩
    · by_cases hc : cleared a
      · exact hcleared a hc
      · rw [hkept a hc]
        exact by_contra fun hf => hc ((h a hf).mp hi)
    · by_cases hc : cleared a
      · have hf : f a = none := by_contra fun hf => hno ((h a hf).mpr hc)
        rw [hcleared a hc, hf]
      · rw [hkept a hc]

end AlJefra.Lib
