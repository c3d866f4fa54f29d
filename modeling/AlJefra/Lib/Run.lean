/-
Runs of a deterministic machine. What the environment decides is part of the input, so a
statement over every input list is one over every behaviour of the environment.
-/
import Mathlib.Data.List.Basic

namespace AlJefra.Lib

variable {σ ι : Type}

def run (step : σ → ι → σ) : σ → List ι → σ
  | s, [] => s
  | s, op :: ops => run step (step s op) ops

@[simp] theorem run_nil (step : σ → ι → σ) (s : σ) : run step s [] = s := rfl

@[simp] theorem run_cons (step : σ → ι → σ) (s : σ) (op : ι) (ops : List ι) :
    run step s (op :: ops) = run step (step s op) ops := rfl

theorem run_append (step : σ → ι → σ) : ∀ (s : σ) (ops ops' : List ι),
    run step s (ops ++ ops') = run step (run step s ops) ops'
  | _, [], _ => rfl
  | s, op :: ops, ops' => run_append step (step s op) ops ops'

variable {step : σ → ι → σ} {P : σ → Prop} {C D : σ → ι → Prop}

theorem run_invariant (hstep : ∀ s op, P s → P (step s op)) :
    ∀ (ops : List ι) (s : σ), P s → P (run step s ops)
  | [], _, h => h
  | op :: ops, s, h => run_invariant hstep ops (step s op) (hstep s op h)

def Steps (step : σ → ι → σ) (C : σ → ι → Prop) : σ → List ι → Prop
  | _, [] => True
  | s, op :: ops => C s op ∧ Steps step C (step s op) ops

instance decidableSteps (step : σ → ι → σ) (C : σ → ι → Prop) [∀ s op, Decidable (C s op)] :
    ∀ (s : σ) (ops : List ι), Decidable (Steps step C s ops)
  | _, [] => inferInstanceAs (Decidable True)
  | s, op :: ops =>
    haveI := decidableSteps step C (step s op) ops
    inferInstanceAs (Decidable (_ ∧ _))

theorem steps_congr (h : ∀ s op, C s op ↔ D s op) :
    ∀ (ops : List ι) (s : σ), Steps step C s ops ↔ Steps step D s ops
  | [], _ => Iff.rfl
  | op :: ops, s => and_congr (h s op) (steps_congr h ops (step s op))

theorem steps_congr_of_invariant (hstep : ∀ s op, P s → P (step s op))
    (h : ∀ s op, P s → (C s op ↔ D s op)) :
    ∀ (ops : List ι) (s : σ), P s → (Steps step C s ops ↔ Steps step D s ops)
  | [], _, _ => Iff.rfl
  | op :: ops, s, hs =>
    and_congr (h s op hs) (steps_congr_of_invariant hstep h ops (step s op) (hstep s op hs))

theorem run_invariant_of_steps (hstep : ∀ s op, P s → C s op → P (step s op)) :
    ∀ (ops : List ι) (s : σ), P s → Steps step C s ops → P (run step s ops)
  | [], _, h, _ => h
  | op :: ops, s, h, hC =>
    run_invariant_of_steps hstep ops (step s op) (hstep s op h hC.1) hC.2

theorem steps_take : ∀ (ops : List ι) (s : σ) (k : Nat),
    Steps step C s ops → Steps step C s (ops.take k)
  | [], _, _, _ => by simp [Steps]
  | _ :: _, _, 0, _ => trivial
  | op :: ops, s, k + 1, h => ⟨h.1, steps_take ops (step s op) k h.2⟩

theorem forall_take_iff_steps {I : σ → Prop} (hP : ∀ s, I s → P s)
    (hkeep : ∀ s op, I s → C s op → I (step s op))
    (hbreak : ∀ s op, I s → ¬ C s op → ¬ P (step s op)) : ∀ (ops : List ι) (s : σ), I s →
    ((∀ k, P (run step s (ops.take k))) ↔ Steps step C s ops) := by
  intro ops
  induction ops with
  | nil =>
    intro s hs
    simpa [Steps] using hP s hs
  | cons op ops ih =>
    intro s hs
    by_cases hC : C s op
    · rw [Steps, ← ih _ (hkeep s op hs hC)]
      constructor
      · intro hall
        exact ⟨hC, fun k => hall (k + 1)⟩
      · rintro ⟨-, hrest⟩ k
        cases k with
        | zero => exact hP s hs
        | succ k => exact hrest k
    · constructor
      · intro hall
        exact absurd (hall 1) (hbreak s op hs hC)
      · intro hsteps
        exact absurd hsteps.1 hC

theorem foldl_fixed {s : σ} : ∀ ops : List ι, (∀ op ∈ ops, step s op = s) → ops.foldl step s = s
  | [], _ => rfl
  | op :: ops, h => by
    rw [List.foldl_cons, h op List.mem_cons_self]
    exact foldl_fixed ops fun a ha => h a (List.mem_cons_of_mem _ ha)

/-! ## Loops that end by their own state -/

def taken (stop : σ → Bool) (step : σ → ι → σ) : σ → List ι → List ι
  | _, [] => []
  | s, op :: ops => if stop s then [] else op :: taken stop step (step s op) ops

theorem taken_append_drop (stop : σ → Bool) (step : σ → ι → σ) : ∀ (s : σ) (ops : List ι),
    taken stop step s ops ++ ops.drop (taken stop step s ops).length = ops
  | _, [] => rfl
  | s, op :: ops => by
    unfold taken
    split
    · rfl
    · simpa using taken_append_drop stop step (step s op) ops

theorem steps_taken (stop : σ → Bool) (step : σ → ι → σ) : ∀ (s : σ) (ops : List ι),
    Steps step (fun s _ => stop s = false) s (taken stop step s ops)
  | _, [] => trivial
  | s, op :: ops => by
    unfold taken
    split
    · trivial
    · rename_i h
      exact ⟨by simpa using h, steps_taken stop step (step s op) ops⟩

end AlJefra.Lib
