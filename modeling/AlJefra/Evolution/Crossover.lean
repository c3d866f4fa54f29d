/-
`crossover` of `experiment_b/src/ga/crossover.c`. A division by zero and a copy beyond the genome
have no result. The offspring respects the instructions exactly if there are fewer than four, or not
four and the chosen one starts where a cut is safe.
-/
import Mathlib.Order.Basic
import Mathlib.Data.List.Basic

namespace AlJefra.Evolution

open List Option

structure Instr where
  length : Nat
  pos : 0 < length

def codeSize : List Instr → Nat
  | [] => 0
  | i :: is => i.length + codeSize is

def offset (is : List Instr) (k : Nat) : Nat := codeSize (is.take k)
def immStart : Nat := 0x10
def immEnd : Nat := 0xA8

def margin (numInstructions : Nat) : Nat :=
  if numInstructions / 10 < 2 then 2 else numInstructions / 10

-- `rand() % 0` is undefined.
def crossIdx (numInstructions rand : Nat) : Option Nat :=
  if numInstructions - 2 * margin numInstructions = 0 then none
  else some (margin numInstructions + rand % (numInstructions - 2 * margin numInstructions))

def moveCut (size crossOffset : Nat) : Nat :=
  let crossOffset := if crossOffset ≥ size then size / 2 else crossOffset
  if crossOffset ≥ immStart ∧ crossOffset ≤ immEnd then immEnd + 1 else crossOffset

def crossOffset (is : List Instr) (rand : Nat) : Option Nat :=
  (crossIdx is.length rand).map fun idx => moveCut (codeSize is) (offset is idx)

def fromA (size cut i : Nat) : Prop := i < cut ∨ (immEnd ≤ size ∧ immStart ≤ i ∧ i < immEnd)

instance (size cut i : Nat) : Decidable (fromA size cut i) := inferInstanceAs (Decidable (_ ∨ _))

def crossover (a b : Nat → UInt8) (is : List Instr) (rand : Nat) : Option (Nat → UInt8) :=
  if is.length < 4 then some a
  else
    (crossOffset is rand).bind fun cut =>
      if cut ≤ codeSize is then some fun i => if fromA (codeSize is) cut i then a i else b i
      else none

/-! ## Boundaries -/

def Boundary (is : List Instr) (c : Nat) : Prop := ∃ k ≤ is.length, offset is k = c

variable {is : List Instr} {c cut k rand : Nat}

theorem codeSize_append (is js : List Instr) : codeSize (is ++ js) = codeSize is + codeSize js := by
  induction is with
  | nil => simp [codeSize]
  | cons i is ih => simp [codeSize, ih, Nat.add_assoc]

theorem offset_length : offset is is.length = codeSize is := by rw [offset, take_length]

theorem offset_lt_succ (h : k < is.length) : offset is k < offset is (k + 1) := by
  rw [offset, offset, take_succ_eq_append_getElem h, codeSize_append]
  have hpos := is[k].pos
  simp only [codeSize]
  omega

theorem offset_mono {j : Nat} (h : j ≤ k) : offset is j ≤ offset is k := by
  obtain ⟨d, rfl⟩ := Nat.exists_eq_add_of_le h
  rw [offset, offset, take_add, codeSize_append]
  omega

theorem Boundary.le (h : Boundary is c) : c ≤ codeSize is := by
  obtain ⟨k, hk, rfl⟩ := h
  exact offset_length ▸ offset_mono hk

theorem boundary_iff (hc : c ≤ codeSize is) :
    Boundary is c ↔ ∀ k < is.length, c ≤ offset is k ∨ offset is (k + 1) ≤ c := by
  constructor
  · rintro ⟨j, -, rfl⟩ k hk
    rcases Nat.lt_or_ge k j with h | h
    · exact .inr (offset_mono h)
    · exact .inl (offset_mono h)
  · intro h
    have hreach : ∀ k ≤ is.length, Boundary is c ∨ offset is k ≤ c := by
      intro k
      induction k with
      | zero => exact fun _ => .inr (Nat.zero_le c)
      | succ k ih =>
        intro hk
        rcases ih (by omega) with hb | hle
        · exact .inl hb
        · rcases h k hk with hge | hnext
          · exact .inl ⟨k, by omega, Nat.le_antisymm hle hge⟩
          · exact .inr hnext
    rcases hreach is.length (Nat.le_refl _) with hb | hle
    · exact hb
    · exact ⟨is.length, Nat.le_refl _, by rw [offset_length] at hle ⊢; omega⟩

/-! ## Parents -/

/-- Every instruction comes from one parent, and the table from `A`. -/
def Unmixed (is : List Instr) (cut : Nat) : Prop :=
  (∀ k < is.length, (∀ i, offset is k ≤ i → i < offset is (k + 1) → fromA (codeSize is) cut i) ∨
    ∀ i, offset is k ≤ i → i < offset is (k + 1) → ¬ fromA (codeSize is) cut i) ∧
  ∀ i, immStart ≤ i → i < immEnd → i < codeSize is → fromA (codeSize is) cut i

theorem unmixed_of_behind (hcut : Boundary is cut) (h : immEnd ≤ cut) : Unmixed is cut := by
  simp only [Unmixed, fromA, immStart, immEnd] at h ⊢
  refine ⟨fun k hk => ?_, fun i _ hi _ => .inl (by omega)⟩
  rcases (boundary_iff hcut.le).mp hcut k hk with hge | hlt
  · exact .inr fun i hi _ => by omega
  · exact .inl fun i _ hi => .inl (by omega)

theorem unmixed_before_iff (hcut : Boundary is cut) (h : cut < immStart) :
    Unmixed is cut ↔ codeSize is ≤ immStart ∨
      immEnd ≤ codeSize is ∧ Boundary is immStart ∧ Boundary is immEnd := by
  have hc := (boundary_iff hcut.le).mp hcut
  simp only [immStart, immEnd] at h ⊢
  constructor
  · rintro ⟨hone, htable⟩
    simp only [fromA, immStart, immEnd] at hone htable
    by_cases hsmall : codeSize is ≤ 0x10
    · exact .inl hsmall
    · have hsize := htable 0x10 (by omega) (by omega) (by omega)
      refine .inr ⟨by omega, (boundary_iff (by omega)).mpr fun k hk => ?_,
        (boundary_iff (by omega)).mpr fun k hk => ?_⟩
      · by_contra hcross
        have hck := hc k hk
        rcases hone k hk with ha | hb
        · have := ha 0xF (by omega) (by omega); omega
        · have := hb 0x10 (by omega) (by omega); omega
      · by_contra hcross
        have hck := hc k hk
        rcases hone k hk with ha | hb
        · have := ha 0xA8 (by omega) (by omega); omega
        · have := hb 0xA7 (by omega) (by omega); omega
  · intro hsafe
    simp only [Unmixed, fromA, immStart, immEnd]
    rcases hsafe with hsmall | ⟨hsize, hstart, hend⟩
    · refine ⟨fun k hk => ?_, fun i _ _ _ => by omega⟩
      rcases hc k hk with hge | hlt
      · exact .inr fun i _ _ => by omega
      · exact .inl fun i _ _ => by omega
    · have hs := (boundary_iff (by omega)).mp hstart
      have he := (boundary_iff hsize).mp hend
      refine ⟨fun k hk => ?_, fun i _ _ _ => by omega⟩
      have hck := hc k hk
      have hsk := hs k hk
      have hek := he k hk
      by_cases hin : offset is (k + 1) ≤ cut ∨ 0x10 ≤ offset is k ∧ offset is (k + 1) ≤ 0xA8
      · exact .inl fun i _ _ => by omega
      · exact .inr fun i _ _ => by omega

/-! ## Crossover -/

/-- The cut is a boundary outside the table, and instructions and table are not mixed. -/
def Respects (is : List Instr) (rand : Nat) : Prop :=
  (4 ≤ is.length → ∃ cut, crossOffset is rand = some cut ∧ Boundary is cut ∧
    (cut ≤ immStart ∨ immEnd ≤ cut)) ∧
  ∀ a b, ∃ genome, crossover a b is rand = some genome ∧
    (∀ k < is.length, (∀ i, offset is k ≤ i → i < offset is (k + 1) → genome i = a i) ∨
      ∀ i, offset is k ≤ i → i < offset is (k + 1) → genome i = b i) ∧
    ∀ i, immStart ≤ i → i < immEnd → i < codeSize is → genome i = a i

def SafeCut (is : List Instr) (c : Nat) : Prop :=
  immEnd < c ∨ (immStart ≤ c ∧ c ≤ immEnd ∧ Boundary is (immEnd + 1)) ∨
    c < immStart ∧ (codeSize is ≤ immStart ∨
      immEnd ≤ codeSize is ∧ Boundary is immStart ∧ Boundary is immEnd)

theorem crossIdx_eq {n : Nat} (hn : 5 ≤ n) (rand : Nat) :
    crossIdx n rand = some (margin n + rand % (n - 2 * margin n)) ∧
      margin n + rand % (n - 2 * margin n) < n := by
  have hpos : 0 < n - 2 * margin n := by
    unfold margin
    split <;> omega
  have hmod := Nat.mod_lt rand hpos
  exact ⟨if_neg (Nat.ne_of_gt hpos), by omega⟩

theorem respects_iff_unmixed (hn : ¬ is.length < 4) (hcut : crossOffset is rand = some cut) :
    Respects is rand ↔ Boundary is cut ∧ (cut ≤ immStart ∨ immEnd ≤ cut) ∧ Unmixed is cut := by
  have hgenome : Boundary is cut → ∀ a b, crossover a b is rand
      = some fun i => if fromA (codeSize is) cut i then a i else b i := by
    intro hb a b
    rw [crossover, if_neg hn, hcut]
    exact if_pos hb.le
  constructor
  · rintro ⟨hbound, hparents⟩
    obtain ⟨cut', hcut', hb, hout⟩ := hbound (by omega)
    obtain rfl : cut = cut' := some.inj (hcut.symm.trans hcut')
    obtain ⟨genome, hg, hone, htable⟩ := hparents (fun _ => 0) (fun _ => 1)
    obtain rfl := some.inj ((hgenome hb _ _).symm.trans hg)
    exact ⟨hb, hout, by simpa using hone, by simpa using htable⟩
  · rintro ⟨hb, hout, hone, htable⟩
    refine ⟨fun _ => ⟨cut, hcut, hb, hout⟩, fun a b => ⟨_, hgenome hb a b, fun k hk => ?_, ?_⟩⟩
    · exact (hone k hk).imp (fun h i hi hi' => if_pos (h i hi hi'))
        (fun h i hi hi' => if_neg (h i hi hi'))
    · exact fun i hi hi' hs => if_pos (htable i hi hi' hs)

theorem crossOffset_eq {idx : Nat} (hidx : crossIdx is.length rand = some idx)
    (hidxlt : idx < is.length) :
    crossOffset is rand = some (if immStart ≤ offset is idx ∧ offset is idx ≤ immEnd
      then immEnd + 1 else offset is idx) := by
  have hlt : offset is idx < codeSize is := by
    have hnext := offset_lt_succ hidxlt
    have hlast : offset is (idx + 1) ≤ offset is is.length := offset_mono hidxlt
    rw [offset_length] at hlast
    omega
  simp only [crossOffset, hidx, map_some, moveCut, ge_iff_le, Nat.not_le.mpr hlt, if_false]

theorem respects_iff_safeCut {idx : Nat} (hn : ¬ is.length < 4)
    (hidx : crossIdx is.length rand = some idx) (hlt : idx < is.length) :
    Respects is rand ↔ SafeCut is (offset is idx) := by
  have hstart : Boundary is (offset is idx) := ⟨idx, Nat.le_of_lt hlt, rfl⟩
  rw [respects_iff_unmixed hn (crossOffset_eq hidx hlt), SafeCut]
  by_cases hin : immStart ≤ offset is idx ∧ offset is idx ≤ immEnd
  · rw [if_pos hin]
    constructor
    · rintro ⟨hb, -⟩
      exact .inr (.inl ⟨hin.1, hin.2, hb⟩)
    · rintro (h | ⟨-, -, hb⟩ | ⟨h, -⟩)
      · omega
      · exact ⟨hb, .inr (Nat.le_succ _), unmixed_of_behind hb (Nat.le_succ _)⟩
      · omega
  · rw [if_neg hin]
    by_cases hbehind : immEnd < offset is idx
    · have hle := Nat.le_of_lt hbehind
      exact iff_of_true ⟨hstart, .inr hle, unmixed_of_behind hstart hle⟩ (.inl hbehind)
    · have hbefore : offset is idx < immStart := by omega
      rw [unmixed_before_iff hstart hbefore]
      constructor
      · rintro ⟨-, -, hsafe⟩
        exact .inr (.inr ⟨hbefore, hsafe⟩)
      · rintro (h | ⟨h, h', -⟩ | ⟨-, hsafe⟩)
        · exact absurd h hbehind
        · exact absurd ⟨h, h'⟩ hin
        · exact ⟨hstart, .inl (Nat.le_of_lt hbefore), hsafe⟩

/-- A crossover goes well exactly with fewer than four instructions, or with other than four and a
safe cut before the instruction that `rand` picks. -/
theorem crossover_respects_iff (is : List Instr) (rand : Nat) :
    Respects is rand ↔ is.length < 4 ∨ is.length ≠ 4 ∧
      SafeCut is (offset is (margin is.length + rand % (is.length - 2 * margin is.length))) := by
  by_cases hn : is.length < 4
  · refine iff_of_true ⟨fun h => absurd hn (by omega), fun a b => ?_⟩ (.inl hn)
    exact ⟨a, if_pos hn, fun _ _ => .inl fun _ _ _ => rfl, fun _ _ _ _ => rfl⟩
  · by_cases hfour : is.length = 4
    · refine iff_of_false (fun h => ?_) (by simp [hfour])
      obtain ⟨cut, hcut, -⟩ := h.1 (by omega)
      rw [crossOffset, hfour] at hcut
      cases hcut
    · obtain ⟨hidx, hlt⟩ := crossIdx_eq (show 5 ≤ is.length by omega) rand
      rw [respects_iff_safeCut hn hidx hlt]
      simp [hn, hfour]

/-- With four instructions the random range is empty; with twenty the cut is moved beyond the last,
with forty inside one. -/
theorem crossover_breaks :
    crossover (fun _ => 0) (fun _ => 1) (List.replicate 4 ⟨1, by decide⟩) 7 = none ∧
      crossover (fun _ => 0) (fun _ => 1) (List.replicate 20 ⟨5, by decide⟩) 2 = none ∧
      crossOffset (List.replicate 40 ⟨5, by decide⟩) 0 = some 169 ∧
      offset (List.replicate 40 ⟨5, by decide⟩) 33 = 165 ∧
      offset (List.replicate 40 ⟨5, by decide⟩) 34 = 170 :=
  ⟨rfl, rfl, by decide, by decide, by decide⟩

end AlJefra.Evolution
