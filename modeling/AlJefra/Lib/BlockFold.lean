/- Folding a byte stream block by block. -/
import Mathlib.Algebra.Group.Nat.Defs
import Mathlib.Data.List.Basic

namespace AlJefra.Lib

open List

section BlockFold

variable {α σ : Type} (n : Nat)

def blocks (xs : List α) : List (List α) :=
  (List.range (xs.length / n)).map fun i => (xs.drop (n * i)).take n

variable {n}

@[simp] theorem blocks_nil : blocks n ([] : List α) = [] := by
  simp [blocks]

variable {b pend piece xs : List α} {s : σ}

theorem blocks_append_of_length (hn : 0 < n) (hb : b.length = n) (xs : List α) :
    blocks n (b ++ xs) = b :: blocks n xs := by
  have hcount : (b ++ xs).length / n = xs.length / n + 1 := by
    rw [length_append, hb, Nat.add_div_left _ hn]
  simp only [blocks, hcount, range_succ_eq_map, map_cons, map_map]
  congr 1
  · rw [Nat.mul_zero, drop_zero, take_left' hb]
  · apply map_congr_left
    intro i _
    have hdrop : (b ++ xs).drop (n * (i + 1)) = xs.drop (n * i) := by
      rw [Nat.mul_succ, add_comm, ← drop_drop, drop_left' hb]
    simp only [Function.comp_apply, Nat.succ_eq_add_one, hdrop]

theorem blocks_eq_singleton (hn : 0 < n) (hb : b.length = n) : blocks n b = [b] := by
  have h := blocks_append_of_length hn hb []
  rwa [append_nil, blocks_nil] at h

theorem blocks_append (hn : 0 < n) (k : Nat) : ∀ {xs : List α}, xs.length = n * k →
    ∀ ys, blocks n (xs ++ ys) = blocks n xs ++ blocks n ys := by
  induction k with
  | zero =>
    intro xs hxs ys
    have hnil : xs = [] := length_eq_zero_iff.mp (by simpa using hxs)
    simp [hnil]
  | succ k ih =>
    intro xs hxs ys
    have hhead : (xs.take n).length = n := by
      rw [length_take, hxs, Nat.mul_succ]
      omega
    have htail : (xs.drop n).length = n * k := by
      rw [length_drop, hxs, Nat.mul_succ]
      omega
    rw [← take_append_drop n xs, append_assoc, blocks_append_of_length hn hhead,
      blocks_append_of_length hn hhead, ih htail, cons_append]

variable (n) (f : σ → List α → σ) (s₀ : σ)

structure Consumed (xs : List α) (s : σ) (pend : List α) : Prop where
  open_block : pend.length < n
  cut : ∃ full k, xs = full ++ pend ∧ full.length = n * k ∧ s = (blocks n full).foldl f s₀

variable {n f s₀}

theorem Consumed.nil (hn : 0 < n) : Consumed n f s₀ [] s₀ [] where
  open_block := hn
  cut := ⟨[], 0, rfl, rfl, by simp⟩

section

variable (h : Consumed n f s₀ xs s pend)
include h

theorem Consumed.append_open
    (hopen : pend.length + piece.length < n) : Consumed n f s₀ (xs ++ piece) s (pend ++ piece) := by
  obtain ⟨full, k, rfl, hfull, hs⟩ := h.cut
  constructor
  · rwa [length_append]
  · exact ⟨full, k, append_assoc .., hfull, hs⟩

theorem Consumed.append_fill
    (hfill : pend.length + piece.length = n) :
    Consumed n f s₀ (xs ++ piece) (f s (pend ++ piece)) [] := by
  have hn : 0 < n := Nat.zero_lt_of_lt h.open_block
  have hblock : (pend ++ piece).length = n := by rwa [length_append]
  obtain ⟨full, k, rfl, hfull, rfl⟩ := h.cut
  refine ⟨hn, full ++ (pend ++ piece), k + 1, by simp, ?_, ?_⟩
  · rw [length_append, hfull, hblock, Nat.mul_succ]
  · rw [blocks_append hn k hfull, blocks_eq_singleton hn hblock, foldl_append,
      foldl_cons, foldl_nil]

theorem Consumed.fold (ys : List α) :
    (blocks n (xs ++ ys)).foldl f s₀ = (blocks n (pend ++ ys)).foldl f s := by
  have hn : 0 < n := Nat.zero_lt_of_lt h.open_block
  obtain ⟨full, k, rfl, hfull, rfl⟩ := h.cut
  rw [append_assoc, blocks_append hn k hfull, foldl_append]

theorem Consumed.length_pend : pend.length = xs.length % n := by
  have hlt := h.open_block
  obtain ⟨full, k, rfl, hfull, -⟩ := h.cut
  rw [length_append, hfull, Nat.mul_add_mod, Nat.mod_eq_of_lt hlt]

end

end BlockFold

end AlJefra.Lib
