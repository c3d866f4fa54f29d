/- First-fit placement among ranges of naturals. -/
import Mathlib.Algebra.Group.Nat.Defs
import Mathlib.Order.Basic
import Mathlib.Data.List.Basic

namespace AlJefra.Lib

open List

structure Range where
  start : Nat
  count : Nat
  deriving DecidableEq, Repr

def Range.stop (r : Range) : Nat := r.start + r.count
def Range.Mem (r : Range) (x : Nat) : Prop := r.start ≤ x ∧ x < r.stop

instance (r : Range) (x : Nat) : Decidable (r.Mem x) := inferInstanceAs (Decidable (_ ∧ _))

def Clear (c n : Nat) (r : Range) : Prop := c + n ≤ r.start ∨ r.stop ≤ c

instance (c n : Nat) (r : Range) : Decidable (Clear c n r) :=
  inferInstanceAs (Decidable (_ ∨ _))

theorem Clear.not_mem {c n x : Nat} {r : Range} (h : Clear c n r) (hx : Range.Mem ⟨c, n⟩ x) :
    ¬ r.Mem x := by
  simp only [Clear, Range.Mem, Range.stop] at *
  omega

def scan (n : Nat) : Nat → List Range → Nat
  | c, [] => c
  | c, r :: rs => if c + n ≤ r.start then c else scan n (max c r.stop) rs

theorem le_scan (n : Nat) : ∀ (c : Nat) (rs : List Range), c ≤ scan n c rs
  | c, [] => Nat.le_refl c
  | c, r :: rs => by
    unfold scan
    split
    · exact Nat.le_refl c
    · exact Nat.le_trans (Nat.le_max_left c r.stop) (le_scan n _ rs)

theorem scan_le (n : Nat) {d : Nat} : ∀ (c : Nat) (rs : List Range), c ≤ d →
    (∀ r ∈ rs, Clear d n r) → scan n c rs ≤ d
  | _, [], hcd, _ => hcd
  | c, r :: rs, hcd, hclear => by
    unfold scan
    split
    · exact hcd
    · rename_i hroom
      -- there is no room for `d` in front of `r` either
      have hstop : r.stop ≤ d := by
        rcases hclear r List.mem_cons_self with h | h
        · exact absurd (Nat.le_trans (Nat.add_le_add_right hcd n) h) hroom
        · exact h
      exact scan_le n _ rs (Nat.max_le.mpr ⟨hcd, hstop⟩)
        (fun r' hr' => hclear r' (mem_cons_of_mem _ hr'))

theorem scan_clear (n : Nat) : ∀ (c : Nat) (rs : List Range),
    rs.Pairwise (fun a b => a.start ≤ b.start) → ∀ r ∈ rs, Clear (scan n c rs) n r
  | _, [], _, _, hr => by cases hr
  | c, r :: rs, hsorted, r', hr' => by
    obtain ⟨hfirst, hrest⟩ := pairwise_cons.mp hsorted
    unfold scan
    split
    · rename_i hroom
      rcases mem_cons.mp hr' with rfl | hr'
      · exact Or.inl hroom
      · exact Or.inl (Nat.le_trans hroom (hfirst r' hr'))
    · rcases mem_cons.mp hr' with rfl | hr'
      · exact Or.inr (Nat.le_trans (Nat.le_max_right c r'.stop) (le_scan n _ rs))
      · exact scan_clear n _ rs hrest r' hr'

end AlJefra.Lib
