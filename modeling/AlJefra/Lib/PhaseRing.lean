/- A ring of cells with a phase tag. -/
import AlJefra.Lib.Ring

namespace AlJefra.Lib

open List

def phaseOf (size i : Nat) : Bool := decide (i / size % 2 = 0)

theorem phaseOf_succ (size i : Nat) :
    phaseOf size (i + 1) = if (i + 1) % size = 0 then !phaseOf size i else phaseOf size i := by
  have hdiv : (i + 1) / size = i / size + if size ∣ i + 1 then 1 else 0 := Nat.succ_div
  unfold phaseOf
  by_cases hmod : (i + 1) % size = 0
  · rw [if_pos hmod, hdiv, if_pos (Nat.dvd_of_mod_eq_zero hmod)]
    rcases Nat.mod_two_eq_zero_or_one (i / size) with h | h
    · have hsucc : (i / size + 1) % 2 = 1 := by omega
      simp [h, hsucc]
    · have hsucc : (i / size + 1) % 2 = 0 := by omega
      simp [h, hsucc]
  · have hndvd : ¬ size ∣ i + 1 := fun h => hmod (Nat.mod_eq_zero_of_dvd h)
    rw [if_neg hmod, hdiv, if_neg hndvd, Nat.add_zero]

theorem phaseOf_add_size {size : Nat} (hsize : 0 < size) (i : Nat) :
    phaseOf size (i + size) = !phaseOf size i := by
  unfold phaseOf
  rw [Nat.add_div_right i hsize]
  rcases Nat.mod_two_eq_zero_or_one (i / size) with h | h
  · have hsucc : (i / size).succ % 2 = 1 := by omega
    simp [h, hsucc]
  · have hsucc : (i / size).succ % 2 = 0 := by omega
    simp [h, hsucc]

variable {α : Type} (tag : α → Bool) (size : Nat)

structure RingHolds (cells : Nat → α) (posted : List α) : Prop where
  tagged : ∀ i e, posted[i]? = some e → tag e = phaseOf size i
  recent : ∀ i e, posted[i]? = some e → posted.length ≤ i + size → cells (i % size) = e
  fresh : ∀ i, posted.length ≤ i → i < size → tag (cells i) = false

variable {tag size} {cells : Nat → α} {posted : List α}

theorem RingHolds.nil (h : ∀ i, tag (cells i) = false) : RingHolds tag size cells [] where
  tagged i e he := by simp at he
  recent i e he := by simp at he
  fresh i _ _ := h i

variable {e : α} {n : Nat}

theorem RingHolds.post (h : RingHolds tag size cells posted)
    (htag : tag e = phaseOf size posted.length) :
    RingHolds tag size (setCell cells (posted.length % size) e) (posted ++ [e]) where
  tagged i x hx := by
    rcases Nat.lt_trichotomy i posted.length with hlt | rfl | hgt
    · rw [getElem?_append_left hlt] at hx
      exact h.tagged i x hx
    · rw [getElem?_concat_length, Option.some.injEq] at hx
      rw [← hx, htag]
    · rw [getElem?_eq_none (by rw [length_append, length_singleton]; omega)] at hx
      cases hx
  recent := Recent.push h.recent e
  fresh i hi hlt := by
    rw [length_append, length_singleton] at hi
    have hne : i ≠ posted.length % size := by
      rw [Nat.mod_eq_of_lt (by omega)]
      omega
    rw [setCell, if_neg hne]
    exact h.fresh i (by omega) hlt

theorem RingHolds.cell_eq (h : RingHolds tag size cells posted) (he : posted[n]? = some e)
    (hroom : posted.length ≤ n + size) : cells (n % size) = e :=
  h.recent n e he hroom

theorem RingHolds.isNew_iff (hsize : 0 < size) (h : RingHolds tag size cells posted)
    (hn : n ≤ posted.length) (hroom : posted.length ≤ n + size) :
    tag (cells (n % size)) = phaseOf size n ↔ n < posted.length := by
  constructor
  · intro htag
    refine Nat.lt_of_le_of_ne hn ?_
    rintro rfl
    by_cases hfirst : posted.length < size
    · have hphase : phaseOf size posted.length = true := by
        rw [phaseOf, Nat.div_eq_of_lt hfirst]
        rfl
      rw [Nat.mod_eq_of_lt hfirst, h.fresh _ (Nat.le_refl _) hfirst, hphase] at htag
      cases htag
    · -- what stands in the cell is the entry of the pass before
      obtain ⟨i, hi⟩ : ∃ i, posted.length = i + size := ⟨posted.length - size, by omega⟩
      have hlt : i < posted.length := by omega
      have hcell := h.recent i _ (getElem?_eq_getElem hlt) (by omega)
      have hold := h.tagged i _ (getElem?_eq_getElem hlt)
      rw [hi, Nat.add_mod_right, hcell, hold, phaseOf_add_size hsize] at htag
      cases hphase : phaseOf size i <;> simp [hphase] at htag
  · intro hlt
    rw [h.recent n _ (getElem?_eq_getElem hlt) hroom]
    exact h.tagged n _ (getElem?_eq_getElem hlt)

/-! ## Both ends -/

structure Channel (tag : α → Bool) (size : Nat) (cells : Nat → α) (posted : List α)
    (tail : Nat) (phase : Bool) (consumed head : Nat) (headPhase : Bool) : Prop where
  size_pos : 0 < size
  ring : RingHolds tag size cells posted
  tail_eq : tail = posted.length % size
  phase_eq : phase = phaseOf size posted.length
  head_eq : head = consumed % size
  headPhase_eq : headPhase = phaseOf size consumed
  consumed_le : consumed ≤ posted.length
  room : posted.length < consumed + size

section Channel

variable {tail consumed head : Nat} {phase headPhase : Bool}

theorem Channel.nil (hsize : 0 < size) (h : ∀ i, tag (cells i) = false) :
    Channel tag size cells [] 0 true 0 0 true where
  size_pos := hsize
  ring := RingHolds.nil h
  tail_eq := (Nat.zero_mod size).symm
  phase_eq := by simp [phaseOf]
  head_eq := (Nat.zero_mod size).symm
  headPhase_eq := by simp [phaseOf]
  consumed_le := Nat.le_refl 0
  room := by simpa using hsize

variable {e : α}

section

variable (h : Channel tag size cells posted tail phase consumed head headPhase)
include h

theorem Channel.post
    (hfull : (tail + 1) % size ≠ head) (htag : tag e = phase) :
    Channel tag size (setCell cells tail e) (posted ++ [e]) ((tail + 1) % size)
      (if (tail + 1) % size = 0 then !phase else phase) consumed head headPhase := by
  have hnext : (tail + 1) % size = (posted.length + 1) % size := by
    rw [h.tail_eq, Nat.mod_add_mod]
  have hroom : posted.length + 1 < consumed + size := by
    refine Nat.lt_of_le_of_ne h.room ?_
    intro heq
    apply hfull
    rw [hnext, heq, Nat.add_mod_right, h.head_eq]
  have hring := h.ring.post (htag.trans h.phase_eq)
  exact
    { size_pos := h.size_pos
      ring := by
        rw [h.tail_eq]
        exact hring
      tail_eq := by rw [hnext, length_append, length_singleton]
      phase_eq := by
        rw [hnext, length_append, length_singleton, phaseOf_succ, h.phase_eq]
      head_eq := h.head_eq
      headPhase_eq := h.headPhase_eq
      consumed_le := by
        have := h.consumed_le
        rw [length_append]
        omega
      room := by simpa using hroom }

theorem Channel.isNew_iff :
    tag (cells head) = headPhase ↔ consumed < posted.length := by
  rw [h.head_eq, h.headPhase_eq]
  exact h.ring.isNew_iff h.size_pos h.consumed_le (Nat.le_of_lt h.room)

theorem Channel.cell_eq
    (he : posted[consumed]? = some e) : cells head = e := by
  rw [h.head_eq]
  exact h.ring.cell_eq he (Nat.le_of_lt h.room)

theorem Channel.consume
    (hlt : consumed < posted.length) :
    Channel tag size cells posted tail phase (consumed + 1) ((head + 1) % size)
      (if (head + 1) % size = 0 then !headPhase else headPhase) := by
  have hhead : (head + 1) % size = (consumed + 1) % size := by
    rw [h.head_eq, Nat.mod_add_mod]
  exact
    { size_pos := h.size_pos
      ring := h.ring
      tail_eq := h.tail_eq
      phase_eq := h.phase_eq
      head_eq := hhead
      headPhase_eq := by rw [hhead, phaseOf_succ, h.headPhase_eq]
      consumed_le := hlt
      room := by
        have := h.room
        omega }

end

end Channel

end AlJefra.Lib
