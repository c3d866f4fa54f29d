/- Allocation of runs of consecutive indexes from a bitmap. -/
import AlJefra.Lib.FirstFit

namespace AlJefra.Lib

open List

def Range.Apart (a b : Range) : Prop := ∀ p, ¬ (a.Mem p ∧ b.Mem p)

variable {a b e : Range} {count p s : Nat}

theorem Range.Apart.symm (h : a.Apart b) : b.Apart a := fun p hp => h p hp.symm

theorem Range.Apart.scale (h : a.Apart b) (origin : Nat) {unit : Nat} (hunit : 0 < unit) :
    Range.Apart ⟨origin + unit * a.start, unit * a.count⟩
      ⟨origin + unit * b.start, unit * b.count⟩ := by
  rintro p ⟨⟨ha1, ha2⟩, hb1, hb2⟩
  have hin : ∀ e : Range, origin + unit * e.start ≤ p →
      p < origin + unit * e.start + unit * e.count → e.Mem ((p - origin) / unit) := by
    intro e h1 h2
    have hdist : unit * (e.start + e.count) = unit * e.start + unit * e.count := Nat.mul_add _ _ _
    constructor
    · rw [Nat.le_div_iff_mul_le hunit, mul_comm]
      omega
    · rw [Nat.div_lt_iff_lt_mul hunit, mul_comm, Range.stop, hdist]
      omega
  exact h _ ⟨hin a ha1 ha2, hin b hb1 hb2⟩

/-! ## The search -/

def findRun (used : Nat → Bool) (count : Nat) : Nat → Nat → Nat → Nat → Option Nat
  | 0, _, _, _ => none
  | n + 1, p, found, start =>
    if used p then findRun used count n (p + 1) 0 start
    else
      let start := if found = 0 then p else start
      if found + 1 = count then some start else findRun used count n (p + 1) (found + 1) start

theorem findRun_sound {used : Nat → Bool} {lo : Nat} : ∀ (n p found start : Nat),
    lo ≤ p → (found ≠ 0 → start + found = p ∧ lo ≤ start ∧ ∀ q, start ≤ q → q < p →
      used q = false) →
    findRun used count n p found start = some s →
    0 < count ∧ lo ≤ s ∧ s + count ≤ p + n ∧ ∀ q, s ≤ q → q < s + count → used q = false := by
  intro n
  induction n with
  | zero => intro p found start _ _ h; simp [findRun] at h
  | succ n ih =>
    intro p found start hlo hrun h
    rw [findRun] at h
    split at h
    · obtain ⟨hpos, hs, hend, hfree⟩ := ih (p + 1) 0 start (by omega) (by simp) h
      exact ⟨hpos, hs, by omega, hfree⟩
    · rename_i hp
      -- the free indexes before `p`, extended by `p` itself
      have hext : ∀ start', start' = (if found = 0 then p else start) →
          start' + (found + 1) = p + 1 ∧ lo ≤ start' ∧
            ∀ q, start' ≤ q → q < p + 1 → used q = false := by
        rintro start' rfl
        by_cases h0 : found = 0
        · rw [if_pos h0]
          refine ⟨by omega, hlo, fun q h1 h2 => ?_⟩
          obtain rfl : q = p := by omega
          simpa using hp
        · obtain ⟨hsum, hls, hfree⟩ := hrun h0
          rw [if_neg h0]
          refine ⟨by omega, hls, fun q h1 h2 => ?_⟩
          by_cases hq : q = p
          · subst hq; simpa using hp
          · exact hfree q h1 (by omega)
      obtain ⟨hsum, hls, hfree⟩ := hext _ rfl
      simp only at h
      split at h
      · obtain rfl := Option.some.inj h
        exact ⟨by omega, hls, by omega, fun q h1 h2 => hfree q h1 (by omega)⟩
      · obtain ⟨hpos, hs, hend, hrest⟩ :=
          ih (p + 1) (found + 1) _ (by omega) (fun _ => ⟨hsum, hls, hfree⟩) h
        exact ⟨hpos, hs, by omega, hrest⟩

theorem findRun_isSome_of_free {used : Nat → Bool} : ∀ (n p found start : Nat),
    found < count → count ≤ found + n → (∀ q, p ≤ q → q < p + (count - found) → used q = false) →
    (findRun used count n p found start).isSome := by
  intro n
  induction n with
  | zero => intro p found start h1 h2; omega
  | succ n ih =>
    intro p found start h1 h2 hfree
    have hp : used p = false := hfree p (Nat.le_refl p) (by omega)
    rw [findRun, hp]
    simp only [Bool.false_eq_true, if_false]
    split
    · rfl
    · exact ih (p + 1) (found + 1) _ (by omega) (by omega)
        fun q hq1 hq2 => hfree q (by omega) (by omega)

theorem findRun_complete {used : Nat → Bool} (hpos : 0 < count)
    (hfree : ∀ q, s ≤ q → q < s + count → used q = false) : ∀ (n p found start : Nat),
    found < count → p ≤ s → s + count ≤ p + n → (findRun used count n p found start).isSome := by
  intro n
  induction n with
  | zero => intro p found start _ h1 h2; omega
  | succ n ih =>
    intro p found start hfound hps hend
    by_cases hp : p = s
    · subst hp
      exact findRun_isSome_of_free (n + 1) p found start hfound (by omega)
        fun q h1 h2 => hfree q h1 (by omega)
    · rw [findRun]
      split
      · exact ih (p + 1) 0 start hpos (by omega) (by omega)
      · simp only
        split
        · rfl
        · exact ih (p + 1) (found + 1) _ (by omega) (by omega) (by omega)

/-! ## Marking a run -/

def mark (b : Bool) (used : Nat → Bool) (e : Range) : Nat → Bool := fun p =>
  if e.start ≤ p ∧ p < e.start + e.count then b else used p

theorem mark_of_mem {b : Bool} {used : Nat → Bool} (h : e.Mem p) : mark b used e p = b := if_pos h

theorem mark_of_not_mem {b : Bool} {used : Nat → Bool} (h : ¬ e.Mem p) :
    mark b used e p = used p := if_neg h

theorem mark_succ (b : Bool) (used : Nat → Bool) (start len : Nat) : mark b used ⟨start, len + 1⟩ =
      fun p => if p = start + len then b else mark b used ⟨start, len⟩ p := by
  funext p
  simp only [mark]
  split <;> split <;> first | rfl | (split <;> first | rfl | omega) | omega

/-! ## The ranges handed out -/

structure Owned (lo hi : Nat) (reserved used : Nat → Bool) (out : List Range) : Prop where
  inRange : ∀ e ∈ out, lo ≤ e.start ∧ e.start + e.count ≤ hi
  marked : ∀ e ∈ out, ∀ p, e.Mem p → used p = true
  kept : ∀ p, reserved p = true → used p = true
  clear : ∀ e ∈ out, ∀ p, e.Mem p → reserved p = false
  apart : out.Pairwise Range.Apart

variable {lo hi : Nat} {reserved used : Nat → Bool} {out : List Range}

theorem owned_nil : Owned lo hi reserved reserved [] where
  inRange := by simp
  marked := by simp
  kept := fun _ h => h
  clear := by simp
  apart := List.Pairwise.nil

theorem Owned.mark (h : Owned lo hi reserved used out) (e : Range) :
    Owned lo hi reserved (mark true used e) out := by
  have hmono : ∀ p, used p = true → Lib.mark true used e p = true := by
    intro p hp
    by_cases he : e.Mem p
    · exact mark_of_mem he
    · rw [mark_of_not_mem he, hp]
  exact ⟨h.inRange, fun a ha p hp => hmono p (h.marked a ha p hp),
    fun p hp => hmono p (h.kept p hp), h.clear, h.apart⟩

theorem Owned.alloc (h : Owned lo hi reserved used out)
    (hrange : lo ≤ e.start ∧ e.start + e.count ≤ hi) (hfree : ∀ p, e.Mem p → used p = false) :
    Owned lo hi reserved (Lib.mark true used e) (e :: out) := by
  have hm := h.mark e
  refine ⟨?_, ?_, hm.kept, ?_, pairwise_cons.mpr ⟨?_, h.apart⟩⟩
  · intro a ha
    rcases mem_cons.mp ha with rfl | ha
    · exact hrange
    · exact h.inRange a ha
  · intro a ha p hp
    rcases mem_cons.mp ha with rfl | ha
    · exact mark_of_mem hp
    · exact hm.marked a ha p hp
  · intro a ha p hp
    rcases mem_cons.mp ha with rfl | ha
    · by_contra hres
      have := h.kept p (by simpa using hres)
      rw [hfree p hp] at this
      contradiction
    · exact h.clear a ha p hp
  · intro a ha p hp
    have := h.marked a ha p hp.2
    rw [hfree p hp.1] at this
    contradiction

theorem Owned.free (h : Owned lo hi reserved used out) {rest : List Range}
    (hperm : out.Perm (e :: rest)) : Owned lo hi reserved (Lib.mark false used e) rest := by
  have hmem : e ∈ out := hperm.mem_iff.mpr List.mem_cons_self
  have hsub : ∀ a ∈ rest, a ∈ out := fun a ha => hperm.mem_iff.mpr (mem_cons_of_mem _ ha)
  have happart := (hperm.pairwise_iff (fun hab => Range.Apart.symm hab)).mp h.apart
  obtain ⟨hhead, hrest⟩ := pairwise_cons.mp happart
  refine ⟨fun a ha => h.inRange a (hsub a ha), ?_, ?_, fun a ha => h.clear a (hsub a ha), hrest⟩
  · intro a ha p hp
    rw [mark_of_not_mem fun he => hhead a ha p ⟨he, hp⟩]
    exact h.marked a (hsub a ha) p hp
  · intro p hp
    have hout : ¬ e.Mem p := by
      intro he
      have := h.clear e hmem p he
      rw [hp] at this
      contradiction
    rw [mark_of_not_mem hout]
    exact h.kept p hp

end AlJefra.Lib
