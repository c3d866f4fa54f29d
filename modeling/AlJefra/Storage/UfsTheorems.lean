/- The commands of a UFS transfer. -/
import AlJefra.Lib.Chunks
import AlJefra.Storage.Ufs

namespace AlJefra.Storage.Ufs

open AlJefra.Hal List
open AlJefra.Lib

/-! ## Pieces -/

def maxXfer : Nat := ufsMaxPrdtEntries * ufsPrdtMaxBytes
def blockCap (blockSize : Nat) : Nat := min 65535 (maxXfer / blockSize)

theorem blockSize_pos (ctrl : UfsController) : 0 < ctrl.blockSize := by
  unfold UfsController.blockSize
  split
  · decide
  · next h => exact Nat.pos_of_ne_zero fun h0 => h (UInt32.toNat_inj.mp h0)

theorem maxBlocks_pos (ctrl : UfsController) : 0 < maxBlocks ctrl := by
  simp only [maxBlocks]
  split
  · exact Nat.one_pos
  · next h => exact Nat.pos_of_ne_zero h

variable {blockSize fuel remaining : Nat} {count : UInt32}

theorem blockCap_pos (hpos : 0 < blockSize) (hle : blockSize ≤ maxXfer) : 0 < blockCap blockSize :=
  Nat.lt_min.mpr ⟨by decide, Nat.div_pos hle hpos⟩

theorem nextChunk_eq (hpos : 0 < blockSize) (remaining : Nat) :
    nextChunk blockSize remaining = min remaining (blockCap blockSize) := by
  have hmin : (if remaining > 65535 then 65535 else remaining) = min remaining 65535 := by
    split <;> omega
  have hxfer : ufsMaxPrdtEntries * ufsPrdtMaxBytes = maxXfer := rfl
  simp only [nextChunk, hmin, hxfer, blockCap, ← Nat.min_assoc]
  split
  · next hmore =>
    exact (Nat.min_eq_right (Nat.le_of_lt ((Nat.div_lt_iff_lt_mul hpos).mpr hmore))).symm
  · next hfits =>
    exact (Nat.min_eq_left ((Nat.le_div_iff_mul_le hpos).mpr (Nat.le_of_not_lt hfits))).symm

/-! ## One part of the buffer -/

variable {σ : Type} {ctrl : UfsController} (io : σ → Staged × ScsiCommand → σ × HalStatus)

def command (ctrl : UfsController) (op : Op) (lba bufPhys : Nat) (piece : Nat × Nat) :
    ScsiCommand :=
  buildCommand op ((lba + piece.1) % 2 ^ 64) piece.2
    ((bufPhys + piece.1 * ctrl.blockSize) % 2 ^ 64) (piece.2 * ctrl.blockSize)

theorem ufsLoop_eq (io : σ → ScsiCommand → σ × HalStatus) (hle : ctrl.blockSize ≤ maxXfer) (op : Op)
    (lba bufPhys : Nat) (hfuel : remaining ≤ fuel) (s : σ) (done : Nat) :
    ufsLoop ctrl io op bufPhys fuel s ((lba + done) % 2 ^ 64) remaining (done * ctrl.blockSize)
      = (fun r => (r.1, some r.2)) (runUntil .ok io s
          ((piecesFrom (blockCap ctrl.blockSize) fuel done remaining).map
            (command ctrl op lba bufPhys))) := by
  induction fuel generalizing s done remaining with
  | zero =>
    rw [Nat.le_zero.mp hfuel]
    simp [ufsLoop, piecesFrom, runUntil]
  | succ fuel ih =>
    rw [ufsLoop, piecesFrom]
    by_cases hzero : remaining = 0
    · simp [hzero, runUntil]
    · have hcap := blockCap_pos (blockSize_pos ctrl) hle
      have hlba : ((lba + done) % 2 ^ 64 + min remaining (blockCap ctrl.blockSize)) % 2 ^ 64
          = (lba + (done + min remaining (blockCap ctrl.blockSize))) % 2 ^ 64 := by omega
      have hrest := fun s => ih
        (by omega : remaining - min remaining (blockCap ctrl.blockSize) ≤ fuel) s
        (done + min remaining (blockCap ctrl.blockSize))
      have hcmd : buildCommand op ((lba + done) % 2 ^ 64) (min remaining (blockCap ctrl.blockSize))
          ((bufPhys + done * ctrl.blockSize) % 2 ^ 64)
          (min remaining (blockCap ctrl.blockSize) * ctrl.blockSize)
          = command ctrl op lba bufPhys (done, min remaining (blockCap ctrl.blockSize)) := rfl
      rw [if_neg hzero, if_neg hzero, map_cons, runUntil]
      simp only [nextChunk_eq (blockSize_pos ctrl), hcmd, hlba, ← Nat.add_mul, hrest]
      cases io s (command ctrl op lba bufPhys (done, min remaining (blockCap ctrl.blockSize))) with
      | mk s' st => cases st <;> simp

theorem ufsLoop_stuck (io : σ → ScsiCommand → σ × HalStatus) (hlarge : maxXfer < ctrl.blockSize)
    (op : Op) (bufPhys fuel : Nat) (s : σ) (curLba : Nat) (hpos : 0 < remaining) (offset : Nat) :
    (ufsLoop ctrl io op bufPhys fuel s curLba remaining offset).2 ≠ some .ok := by
  have hchunk : nextChunk ctrl.blockSize remaining = 0 := by
    rw [nextChunk_eq (blockSize_pos ctrl), blockCap, Nat.div_eq_of_lt hlarge, Nat.min_zero,
      Nat.min_zero]
  induction fuel generalizing s curLba offset with
  | zero =>
    rw [ufsLoop, if_neg (Nat.pos_iff_ne_zero.mp hpos)]
    exact nofun
  | succ fuel ih =>
    rw [ufsLoop, if_neg (Nat.pos_iff_ne_zero.mp hpos)]
    simp only [hchunk, Nat.sub_zero]
    generalize io s _ = result
    obtain ⟨s', st⟩ := result
    cases st with
    | ok => exact ih s' _ _
    | error | timeout | busy | noDevice | noMemory | notSupported => exact nofun

/-! ## The whole request -/

def staged (ctrl : UfsController) (buf : Nat) (piece : Nat × Nat) : Staged :=
  ⟨(buf + piece.1 * ctrl.blockSize) % 2 ^ 64, piece.2 * ctrl.blockSize⟩

def pieceCommands (ctrl : UfsController) (op : Op) (lba buf : Nat) (piece : Nat × Nat) :
    List (Staged × ScsiCommand) :=
  (pieces (blockCap ctrl.blockSize) piece.2).map fun inner =>
    (staged ctrl buf piece,
      command ctrl op ((lba + piece.1) % 2 ^ 64) ctrl.dataBufPhys.toNat inner)

theorem runUntil_map {α β : Type} (f : α → β) (step : σ → β → σ × HalStatus) (s : σ) (xs : List α) :
    runUntil .ok (fun s x => step s (f x)) s xs = runUntil .ok step s (xs.map f) := by
  induction xs generalizing s with
  | nil => rfl
  | cons x xs ih => simp only [runUntil, map_cons, ih]

theorem ufsRw_eq (hinit : ctrl.initialized = true)
    (hle : ctrl.blockSize ≤ maxXfer) (op : Op) (s : σ) (lba buf : Nat) (piece : Nat × Nat) :
    ufsRw ctrl (fun s cmd => io s (staged ctrl buf piece, cmd)) op s ((lba + piece.1) % 2 ^ 64)
        piece.2 ctrl.dataBufPhys.toNat
      = (fun r => (r.1, some r.2)) (runUntil .ok io s (pieceCommands ctrl op lba buf piece)) := by
  have hloop := ufsLoop_eq (fun s cmd => io s (staged ctrl buf piece, cmd)) hle op
    ((lba + piece.1) % 2 ^ 64) ctrl.dataBufPhys.toNat (Nat.le_refl piece.2) s 0
  rw [Nat.add_zero, Nat.mod_mod, Nat.zero_mul] at hloop
  rw [ufsRw, hinit, Bool.not_true, if_neg Bool.false_ne_true, hloop, runUntil_map, map_map]
  rfl

theorem drvLoop_eq (hinit : ctrl.initialized = true)
    (hle : ctrl.blockSize ≤ maxXfer) (op : Op) (buf lba : Nat) (hfuel : remaining ≤ fuel) (s : σ)
    (done : Nat) :
    drvLoop ctrl io op buf fuel s ((lba + done) % 2 ^ 64) remaining (done * ctrl.blockSize)
      = (fun r => (r.1, some r.2)) (runUntil .ok io s
          ((piecesFrom (maxBlocks ctrl) fuel done remaining).flatMap
            (pieceCommands ctrl op lba buf))) := by
  induction fuel generalizing s done remaining with
  | zero => simp [drvLoop, piecesFrom, runUntil]
  | succ fuel ih =>
    rw [drvLoop, piecesFrom]
    by_cases hzero : remaining = 0
    · simp [hzero, runUntil]
    · have hpos : 0 < remaining := Nat.pos_of_ne_zero hzero
      have hblocks := maxBlocks_pos ctrl
      have hmin : (if remaining > maxBlocks ctrl then maxBlocks ctrl else remaining)
          = min remaining (maxBlocks ctrl) := by
        split <;> omega
      have hlba : ((lba + done) % 2 ^ 64 + min remaining (maxBlocks ctrl)) % 2 ^ 64
          = (lba + (done + min remaining (maxBlocks ctrl))) % 2 ^ 64 := by omega
      have hrest := fun s => ih (by omega : remaining - min remaining (maxBlocks ctrl) ≤ fuel) s
        (done + min remaining (maxBlocks ctrl))
      have hrw := ufsRw_eq io hinit hle op s lba buf (done, min remaining (maxBlocks ctrl))
      simp only [staged] at hrw
      rw [if_pos hpos, if_neg hzero, flatMap_cons, runUntil_append]
      simp only [hmin, hlba, ← Nat.add_mul, hrest, hrw]
      generalize runUntil .ok io s (pieceCommands ctrl op lba buf
        (done, min remaining (maxBlocks ctrl))) = result
      obtain ⟨s', st⟩ := result
      cases st <;> simp

def commands (ctrl : UfsController) (op : Op) (buf lba : UInt64) (count : UInt32) :
    List (Staged × ScsiCommand) :=
  (pieces (maxBlocks ctrl) count.toNat).flatMap (pieceCommands ctrl op lba.toNat buf.toNat)

theorem drvLoop_fails (op : Op) (buf : Nat)
    (hfail : ∀ part s curLba chunk, 0 < chunk →
      (ufsRw ctrl (fun s cmd => io s (part, cmd)) op s curLba chunk ctrl.dataBufPhys.toNat).2
        ≠ some .ok)
    (hpos : 0 < remaining) (hfuel : remaining ≤ fuel) (s : σ) (curLba offset : Nat) :
    (drvLoop ctrl io op buf fuel s curLba remaining offset).2 ≠ some .ok := by
  cases fuel with
  | zero => omega
  | succ fuel =>
    have hblocks := maxBlocks_pos ctrl
    have hchunk : 0 < if remaining > maxBlocks ctrl then maxBlocks ctrl else remaining := by
      split <;> omega
    rw [drvLoop, if_pos hpos]
    simp only
    generalize (if remaining > maxBlocks ctrl then maxBlocks ctrl else remaining) = chunk at *
    have hpart := hfail ⟨(buf + offset) % 2 ^ 64, chunk * ctrl.blockSize⟩ s curLba chunk hchunk
    generalize ufsRw ctrl _ op s curLba chunk _ = result at *
    obtain ⟨s', st⟩ := result
    cases st with
    | none => exact nofun
    | some st =>
      cases st with
      | ok => exact absurd rfl hpart
      | _ => exact nofun

theorem drvLoop_ok (op : Op) (s : σ) (buf lba : UInt64) (count : UInt32)
    (hret : (ufsDrvRw ctrl io op s buf lba count).2 = some (count.toNat : Int)) :
    (drvLoop ctrl io op buf.toNat count.toNat s lba.toNat count.toNat 0).2 = some .ok ∧
      (ufsDrvRw ctrl io op s buf lba count).1
        = (drvLoop ctrl io op buf.toNat count.toNat s lba.toNat count.toNat 0).1 := by
  rw [ufsDrvRw] at hret ⊢
  generalize drvLoop ctrl io op buf.toNat count.toNat s lba.toNat count.toNat 0 = result at *
  obtain ⟨s', st⟩ := result
  cases st with
  | none => cases hret
  | some st =>
    cases st with
    | ok => exact ⟨rfl, rfl⟩
    | _ =>
      have hneg : (-1 : Int) = count.toNat := Option.some.inj hret
      omega

theorem ready_of_success (op : Op) (s : σ) (buf lba : UInt64) (hpos : 0 < count.toNat)
    (hret : (ufsDrvRw ctrl io op s buf lba count).2 = some (count.toNat : Int)) :
    ctrl.initialized = true ∧ ctrl.blockSize ≤ maxXfer := by
  have hok := (drvLoop_ok io op s buf lba count hret).1
  refine ⟨?_, ?_⟩
  · cases hinit : ctrl.initialized with
    | true => rfl
    | false =>
      refine absurd hok (drvLoop_fails io op _ (fun part s curLba chunk _ => ?_) hpos
        (Nat.le_refl _) _ _ _)
      rw [ufsRw, hinit]
      exact nofun
  · refine Nat.le_of_not_lt fun hlarge => ?_
    refine absurd hok (drvLoop_fails io op _ (fun part s curLba chunk hchunk => ?_) hpos
      (Nat.le_refl _) _ _ _)
    rw [ufsRw]
    split
    · exact nofun
    · exact ufsLoop_stuck _ hlarge op _ _ _ _ hchunk _

theorem commands_of_success (op : Op) (s : σ) (buf lba : UInt64) (hpos : 0 < count.toNat)
    (hret : (ufsDrvRw ctrl io op s buf lba count).2 = some (count.toNat : Int)) :
    (runUntil .ok io s (commands ctrl op buf lba count)).2 = .ok ∧
      (ufsDrvRw ctrl io op s buf lba count).1
        = (runUntil .ok io s (commands ctrl op buf lba count)).1 := by
  obtain ⟨hinit, hle⟩ := ready_of_success io op s buf lba hpos hret
  obtain ⟨hok, hstate⟩ := drvLoop_ok io op s buf lba count hret
  have hloop := drvLoop_eq io hinit hle op buf.toNat lba.toNat (Nat.le_refl count.toNat) s 0
  rw [Nat.add_zero, Nat.mod_eq_of_lt lba.toNat_lt, Nat.zero_mul] at hloop
  rw [hloop] at hok hstate
  exact ⟨Option.some.inj hok, hstate⟩

end AlJefra.Storage.Ufs
