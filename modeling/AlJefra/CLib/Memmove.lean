/-
`memcpy`, `memset` and `memmove` of `lib/string.c`: a byte loop, a loop over 64-bit words, a byte
loop. Blocks inside the address space are filled, or copied as if all bytes were read first.
-/
import Mathlib.Algebra.Group.Nat.Defs
import Mathlib.Order.Basic

namespace AlJefra.CLib

abbrev Memory := Nat → UInt8

def copy (k d s : Nat) (mem : Memory) : Memory :=
  fun a => if d ≤ a ∧ a < d + k then mem (s + (a - d)) else mem a

structure Move where
  mem : Memory
  d : Nat
  s : Nat
  n : Nat

def Move.forward (k : Nat) (c : Move) : Move := ⟨copy k c.d c.s c.mem, c.d + k, c.s + k, c.n - k⟩

def Move.backward (k : Nat) (c : Move) : Move :=
  ⟨copy k (c.d - k) (c.s - k) c.mem, c.d - k, c.s - k, c.n - k⟩

-- Every round lowers `n`, so `n` rounds are enough.
def loop (go : Move → Bool) (body : Move → Move) : Nat → Move → Move
  | 0, c => c
  | fuel + 1, c => if go c then loop go body fuel (body c) else c

def copyLoops (dir : Nat → Move → Move) (c : Move) : Move :=
  let c := loop (fun c => c.n ≠ 0 ∧ c.d % 8 ≠ 0) (dir 1) c.n c
  let c := loop (fun c => c.n ≥ 8) (dir 8) c.n c
  loop (fun c => c.n ≠ 0) (dir 1) c.n c

def memcpy (mem : Memory) (dst src n : Nat) : Memory :=
  (copyLoops Move.forward ⟨mem, dst, src, n⟩).mem

def memmove (mem : Memory) (dst src n : Nat) : Memory :=
  if dst < src ∨ dst ≥ (src + n) % 2 ^ 64 then (copyLoops Move.forward ⟨mem, dst, src, n⟩).mem
  else (copyLoops Move.backward ⟨mem, dst + n, src + n, n⟩).mem

/-! ## The loops -/

section Loops

variable {I : Move → Prop} {dir : Nat → Move → Move} {c : Move}

theorem loop_keeps {go : Move → Bool} {body : Move → Move}
    (hbody : ∀ c, go c = true → I c → I (body c)) (fuel : Nat) (h : I c) :
    I (loop go body fuel c) := by
  induction fuel generalizing c with
  | zero => exact h
  | succ fuel ih =>
    rw [loop]
    split
    · rename_i hgo
      exact ih (hbody c hgo h)
    · exact h

theorem loop_ends (hn : ∀ k c, (dir k c).n = c.n - k) (fuel : Nat) (h : c.n ≤ fuel) :
    (loop (fun c => c.n ≠ 0) (dir 1) fuel c).n = 0 := by
  induction fuel generalizing c with
  | zero => exact Nat.le_zero.mp h
  | succ fuel ih =>
    rw [loop]
    split
    · exact ih (by rw [hn]; omega)
    · rename_i hgo
      simpa using hgo

theorem copyLoops_keeps (hdir : ∀ k c, k ≤ c.n → I c → I (dir k c))
    (hn : ∀ k c, (dir k c).n = c.n - k) (h : I c) :
    I (copyLoops dir c) ∧ (copyLoops dir c).n = 0 := by
  refine ⟨?_, loop_ends hn _ (Nat.le_refl _)⟩
  refine loop_keeps (fun c hgo => hdir 1 c ?_) _ (loop_keeps (fun c hgo => hdir 8 c ?_) _
    (loop_keeps (fun c hgo => hdir 1 c ?_) _ h))
  · simp at hgo; omega
  · simpa using hgo
  · simp at hgo; omega

end Loops

/-! ## Pieces -/

variable {mem : Memory} {dst src n : Nat}

theorem copy_zero : copy 0 dst src mem = mem := funext fun _ => if_neg (by omega)

theorem copy_forward {j k : Nat} (h : dst ≤ src ∨ src + (j + k) ≤ dst) :
    copy k (dst + j) (src + j) (copy j dst src mem) = copy (j + k) dst src mem := by
  funext a
  simp only [copy]
  split_ifs
  all_goals first | omega | rfl | (congr 1; omega)

theorem copy_backward {j k : Nat} (h : src ≤ dst) :
    copy k dst src (copy j (dst + k) (src + k) mem) = copy (k + j) dst src mem := by
  funext a
  simp only [copy]
  split_ifs
  all_goals first | omega | rfl | (congr 1; omega)

def CopiedFirst (mem : Memory) (dst src n : Nat) (c : Move) : Prop :=
  c.n ≤ n ∧ c.mem = copy (n - c.n) dst src mem ∧ c.d = dst + (n - c.n) ∧ c.s = src + (n - c.n)

def CopiedLast (mem : Memory) (dst src n : Nat) (c : Move) : Prop :=
  c.n ≤ n ∧ c.mem = copy (n - c.n) (dst + c.n) (src + c.n) mem ∧ c.d = dst + c.n ∧ c.s = src + c.n

theorem CopiedFirst.forward (h : dst ≤ src ∨ src + n ≤ dst) (k : Nat) (c : Move) (hk : k ≤ c.n)
    (hc : CopiedFirst mem dst src n c) : CopiedFirst mem dst src n (c.forward k) := by
  obtain ⟨hn, hmem, hd, hs⟩ := hc
  have hleft : n - (c.n - k) = n - c.n + k := by omega
  refine ⟨Nat.le_trans (Nat.sub_le _ _) hn, ?_, ?_, ?_⟩
  · simp only [Move.forward, hmem, hd, hs, hleft]
    exact copy_forward (by omega)
  · simp only [Move.forward, hd, hleft, add_assoc]
  · simp only [Move.forward, hs, hleft, add_assoc]

theorem CopiedLast.backward (h : src ≤ dst) (k : Nat) (c : Move) (hk : k ≤ c.n)
    (hc : CopiedLast mem dst src n c) : CopiedLast mem dst src n (c.backward k) := by
  obtain ⟨hn, hmem, hd, hs⟩ := hc
  have hleft : n - (c.n - k) = k + (n - c.n) := by omega
  have hd' : dst + c.n - k = dst + (c.n - k) := by omega
  have hs' : src + c.n - k = src + (c.n - k) := by omega
  have hadd : ∀ p, p + c.n = p + (c.n - k) + k := by omega
  refine ⟨Nat.le_trans (Nat.sub_le _ _) hn, ?_, ?_, ?_⟩
  · simp only [Move.backward, hmem, hd, hs, hleft, hd', hs']
    rw [hadd dst, hadd src]
    exact copy_backward (by omega)
  · simp only [Move.backward, hd, hd']
  · simp only [Move.backward, hs, hs']

theorem memcpy_eq_copy (h : dst ≤ src ∨ src + n ≤ dst) :
    memcpy mem dst src n = copy n dst src mem := by
  have hinit : CopiedFirst mem dst src n ⟨mem, dst, src, n⟩ := by simp [CopiedFirst, copy_zero]
  obtain ⟨⟨-, hmem, -⟩, hn⟩ := copyLoops_keeps (CopiedFirst.forward h) (fun _ _ => rfl) hinit
  rw [memcpy, hmem, hn, Nat.sub_zero]

theorem memmove_eq_copy (hd : dst + n ≤ 2 ^ 64) (hs : src + n ≤ 2 ^ 64) :
    memmove mem dst src n = copy n dst src mem := by
  unfold memmove
  split
  · exact memcpy_eq_copy (by omega)
  · have hle : src ≤ dst := by omega
    have hinit : CopiedLast mem dst src n ⟨mem, dst + n, src + n, n⟩ := by
      simp [CopiedLast, copy_zero]
    obtain ⟨⟨-, hmem, -⟩, hn⟩ := copyLoops_keeps (CopiedLast.backward hle) (fun _ _ => rfl) hinit
    rw [hmem, hn]
    rfl

/-- `memmove` copies all bytes at once, whatever the overlap. -/
theorem memmove_simultaneous (mem : Memory) (dst src n : Nat) (hd : dst + n ≤ 2 ^ 64)
    (hs : src + n ≤ 2 ^ 64) : (∀ i < n, memmove mem dst src n (dst + i) = mem (src + i)) ∧
      ∀ a, a < dst ∨ dst + n ≤ a → memmove mem dst src n a = mem a := by
  rw [memmove_eq_copy hd hs]
  constructor
  · intro i hi
    rw [copy, if_pos (by omega), Nat.add_sub_cancel_left]
  · intro a ha
    exact if_neg (by omega)

theorem memmove_simultaneous_overlap : memmove UInt8.ofNat 3 1 10 (3 + 9) = 10 :=
  (memmove_simultaneous UInt8.ofNat 3 1 10 (by decide) (by decide)).1 9 (by decide)

/-! ## `memset` -/

def wide (val : UInt8) : UInt64 :=
  let wide := val.toUInt64
  let wide := wide ||| wide <<< 8
  let wide := wide ||| wide <<< 16
  wide ||| wide <<< 32

def Move.fill (val : UInt8) (k : Nat) (c : Move) : Move where
  mem := fun a =>
    if c.d ≤ a ∧ a < c.d + k then
      if k = 8 then (wide val >>> (8 * (a - c.d)).toUInt64).toUInt8 else val
    else c.mem a
  d := c.d + k
  s := c.s
  n := c.n - k

def memset (mem : Memory) (dst : Nat) (val : UInt8) (n : Nat) : Memory :=
  (copyLoops (Move.fill val) ⟨mem, dst, 0, n⟩).mem

theorem wide_byte (val : UInt8) {i : Nat} (h : i < 8) :
    (wide val >>> (8 * i).toUInt64).toUInt8 = val := by
  have hall : ∀ (v : Fin 256) (i : Fin 8),
      (wide (.ofFin v) >>> (8 * i.val).toUInt64).toUInt8 = .ofFin v := by decide +kernel
  exact hall val.toFin ⟨i, h⟩

def Filled (mem : Memory) (dst : Nat) (val : UInt8) (n : Nat) (c : Move) : Prop :=
  dst ≤ c.d ∧ c.d + c.n = dst + n ∧ c.mem = fun a => if dst ≤ a ∧ a < c.d then val else mem a

theorem Filled.fill {val : UInt8} (k : Nat) (c : Move) (hk : k ≤ c.n)
    (h : Filled mem dst val n c) : Filled mem dst val n (c.fill val k) := by
  obtain ⟨hle, hend, hmem⟩ := h
  refine ⟨Nat.le_trans hle (Nat.le_add_right _ _), by simp only [Move.fill]; omega, ?_⟩
  funext a
  change (if c.d ≤ a ∧ a < c.d + k then _ else _) = if dst ≤ a ∧ a < c.d + k then val else mem a
  by_cases ha : c.d ≤ a ∧ a < c.d + k
  · rw [if_pos ha, if_pos (show dst ≤ a ∧ a < c.d + k by omega)]
    split
    · exact wide_byte val (by omega)
    · rfl
  · rw [if_neg ha, hmem]
    exact if_congr (by omega) rfl rfl

/-- The word loop of `memset` writes the byte eight times, and nothing else is written. -/
theorem memset_fills (mem : Memory) (dst : Nat) (val : UInt8) (n : Nat) (_ : dst + n ≤ 2 ^ 64) :
    memset mem dst val n = fun a => if dst ≤ a ∧ a < dst + n then val else mem a := by
  have hinit : Filled mem dst val n ⟨mem, dst, 0, n⟩ :=
    ⟨Nat.le_refl _, rfl, funext fun a => (if_neg (by dsimp only; omega)).symm⟩
  obtain ⟨⟨-, hend, hmem⟩, hn⟩ := copyLoops_keeps Filled.fill (fun _ _ => rfl) hinit
  rw [memset, hmem, ← hend, hn]
  rfl

theorem memset_fills_unaligned :
    memset (fun _ => 0) 3 7 21 = fun a => if 3 ≤ a ∧ a < 24 then 7 else 0 :=
  memset_fills (fun _ => 0) 3 7 21 (by decide)

end AlJefra.CLib
