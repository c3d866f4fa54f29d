/-
What a list of uses takes from a pool, where each key is provided at its first use if it is
missing then.
-/
import Mathlib.Data.Finset.Card

namespace AlJefra.Lib

variable {K : Type} [DecidableEq K]

def demand (missing : K → Prop) [DecidablePred missing] (ks : List K) : Finset K :=
  ks.toFinset.filter missing

section Demand

variable {missing missing' : K → Prop} [DecidablePred missing] [DecidablePred missing'] {k : K}

theorem demand_cons (ks : List K) : demand missing (k :: ks) =
    if missing k then insert k (demand missing ks) else demand missing ks := by
  unfold demand
  rw [List.toFinset_cons, Finset.filter_insert]

theorem card_demand_cons (h : ∀ i, missing' i ↔ missing i ∧ i ≠ k) (ks : List K) :
    (demand missing (k :: ks)).card = (demand missing' ks).card + if missing k then 1 else 0 := by
  have hrest : demand missing' ks = (demand missing ks).erase k := by
    ext i
    simp only [demand, Finset.mem_filter, Finset.mem_erase, h]
    exact ⟨fun ⟨hm, ha, hi⟩ => ⟨hi, hm, ha⟩, fun ⟨hi, hm, ha⟩ => ⟨hm, ha, hi⟩⟩
  rw [hrest, demand_cons]
  by_cases hk : missing k
  · have hcard := Finset.card_erase_add_one (Finset.mem_insert_self k (demand missing ks))
    rw [Finset.erase_insert_eq_erase] at hcard
    rw [if_pos hk, if_pos hk, hcard]
  · rw [if_neg hk, if_neg hk, Finset.erase_eq_of_notMem (by simp [demand, hk])]
    rfl

theorem card_demand_pos (hk : missing k) (ks : List K) : 0 < (demand missing (k :: ks)).card := by
  rw [demand_cons, if_pos hk]
  exact Finset.card_pos.mpr ⟨k, Finset.mem_insert_self _ _⟩

end Demand

end AlJefra.Lib
