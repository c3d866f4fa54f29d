/- An update that is interrupted. -/
import AlJefra.Kernel.OtaTheorems
import AlJefra.Lib.Cells

namespace AlJefra.Kernel.Ota

open AlJefra.Lib AlJefra.Hal AlJefra.Store List

/-! ## The writes of a call -/

structure WriteOutcome where
  ok : Bool
  stored : Bool
  stored_of_ok : ok = true → stored = true

def OtaEvent.sectorWrite : OtaEvent → Option (Nat × List UInt8)
  | .kernelWrite lba sector => some (lba, sector)
  | .rollbackWrite sector => some (otaRollbackLba, sector)
  | _ => none

def reached (stor : Nat → WriteOutcome) : Nat → List (Nat × List UInt8) →
    List (Nat × List UInt8)
  | _, [] => []
  | n, w :: ws =>
    if (stor n).stored then w :: reached stor (n + 1) ws else reached stor (n + 1) ws

def applyWrites (stor : Nat → WriteOutcome) (s : OtaState) : List (Nat × List UInt8) :=
  (otaApply (some fun n => (stor n).ok) { s with log := [] }).2.log.reverse.filterMap
    OtaEvent.sectorWrite

def interruptedDisk (stor : Nat → WriteOutcome) (s : OtaState) (disk : Nat → List UInt8)
    (k : Nat) : Nat → List UInt8 :=
  store disk (reached stor 0 ((applyWrites stor s).take k))

def kernelWrites (s : OtaState) (i n : Nat) : List (Nat × List UInt8) :=
  (List.range' i n).map fun j => (otaKernelStartLba + j, stagedSector s (UInt32.ofNat j))

theorem kernelWrites_emit (s : OtaState) (e : OtaEvent) (i n : Nat) :
    kernelWrites (s.emit e) i n = kernelWrites s i n := rfl

theorem writeSectors_log (writeOk : Nat → Bool) : ∀ (n i : Nat) (s : OtaState),
    ∃ m ≤ n, (writeSectors writeOk n i s).2.log.reverse.filterMap OtaEvent.sectorWrite =
        s.log.reverse.filterMap OtaEvent.sectorWrite ++ kernelWrites s i m ∧
      ((writeSectors writeOk n i s).1 = true →
        m = n ∧ ∀ j, i ≤ j → j < i + n → writeOk (j + 1) = true) := by
  intro n
  induction n with
  | zero =>
    intro i s
    refine ⟨0, Nat.le_refl 0, by simp [writeSectors, kernelWrites], fun _ => ⟨rfl, ?_⟩⟩
    intro j h1 h2
    omega
  | succ n ih =>
    intro i s
    unfold writeSectors
    split
    · rename_i hok
      obtain ⟨m, hm, hlog, hall⟩ := ih (i + 1) (s.emit (.kernelWrite (otaKernelStartLba + i)
        (stagedSector s (UInt32.ofNat i))))
      refine ⟨m + 1, by omega, ?_, fun hdone => ⟨?_, ?_⟩⟩
      · rw [hlog, kernelWrites_emit]
        simp [OtaState.emit, OtaEvent.sectorWrite, kernelWrites, range'_succ]
      · rw [(hall hdone).1]
      · intro j h1 h2
        by_cases hj : j = i
        · rw [hj]
          exact hok
        · exact (hall hdone).2 j (by omega) (by omega)
    · refine ⟨1, by omega, ?_, fun h => absurd h (by simp)⟩
      simp [OtaState.emit, OtaEvent.sectorWrite, kernelWrites]

def flagged (s : OtaState) : OtaState :=
  (s.setStatus .applying).emit (.rollbackWrite (rollbackSector s))

variable {s : OtaState} {stor : Nat → WriteOutcome} {w : Nat × List UInt8}
  {ws : List (Nat × List UInt8)} {i n : Nat}

theorem otaApply_log_eq {writeOk : Nat → Bool} (hs : s.status = .ready) :
    (otaApply (some writeOk) s).2.log = if writeOk 0 = true then
        let r := writeSectors writeOk (sectorCount s).toNat 0 (flagged s)
        if r.1 = true then .rollbackWrite (replicate otaSectorSize.toNat 0) :: r.2.log
        else r.2.log
      else (flagged s).log := by
  have hcount : sectorCount ((s.setStatus .applying).emit (.rollbackWrite (rollbackSector
    (s.setStatus .applying)))) = sectorCount s := rfl
  have hflagged : (s.setStatus .applying).emit (.rollbackWrite (rollbackSector
    (s.setStatus .applying))) = flagged s := rfl
  rw [otaApply, if_neg (not_not.mpr hs)]
  dsimp only
  rw [hcount, hflagged]
  by_cases hflag : writeOk 0 = true
  · rw [if_pos hflag, if_neg (by simp [hflag])]
    rcases writeSectors writeOk (sectorCount s).toNat 0 (flagged s) with ⟨_ | _, s'⟩ <;> rfl
  · rw [if_neg hflag, if_pos (by simp [hflag])]
    rfl

theorem applyWrites_eq (stor : Nat → WriteOutcome) (hs : s.status = .ready) :
    ∃ m ≤ (sectorCount s).toNat, ∃ last : List (Nat × List UInt8),
      applyWrites stor s = (otaRollbackLba, rollbackSector s) :: (kernelWrites s 0 m ++ last) ∧
      ((stor 0).ok = false → m = 0 ∧ last = []) ∧
      (last = [] ∨ last = [(otaRollbackLba, replicate otaSectorSize.toNat 0)] ∧
        m = (sectorCount s).toNat ∧ ∀ j < (sectorCount s).toNat, (stor (j + 1)).ok = true) := by
  obtain ⟨m, hm, hlog, hall⟩ := writeSectors_log (fun n => (stor n).ok) (sectorCount s).toNat 0
    (flagged { s with log := [] })
  have hcount : sectorCount { s with log := [] } = sectorCount s := rfl
  unfold applyWrites
  rw [otaApply_log_eq (show ({ s with log := [] } : OtaState).status = .ready from hs), hcount]
  by_cases hflag : (stor 0).ok = true
  · rw [if_pos hflag]
    by_cases hdone : (writeSectors (fun n => (stor n).ok) (sectorCount s).toNat 0
        (flagged { s with log := [] })).1 = true
    · refine ⟨m, hm, _, ?_, fun h => absurd (hflag.symm.trans h) (by simp), .inr ⟨rfl, ?_⟩⟩
      · rw [if_pos hdone, reverse_cons, filterMap_append, hlog]
        rfl
      · exact ⟨(hall hdone).1, fun j hj => (hall hdone).2 j (Nat.zero_le j) (by omega)⟩
    · refine ⟨m, hm, [], ?_, fun h => absurd (hflag.symm.trans h) (by simp), .inl rfl⟩
      rw [if_neg hdone, hlog, append_nil]
      rfl
  · rw [if_neg hflag]
    exact ⟨0, Nat.zero_le _, [], rfl, fun _ => ⟨rfl, rfl⟩, .inl rfl⟩

theorem applyWrites_not_ready (stor : Nat → WriteOutcome) (hs : s.status ≠ .ready) :
    applyWrites stor s = [] := by
  simp [applyWrites, otaApply, hs]

/-! ## The disk after some of them -/

theorem mem_reached : ∀ {ws : List (Nat × List UInt8)} {n : Nat},
      w ∈ reached stor n ws ↔ ∃ j, ws[j]? = some w ∧ (stor (n + j)).stored = true := by
  intro ws
  induction ws with
  | nil => intro n; simp [reached]
  | cons v ws ih =>
    intro n
    have hcons : (∃ j, (v :: ws)[j]? = some w ∧ (stor (n + j)).stored = true) ↔
        (v = w ∧ (stor n).stored = true) ∨ w ∈ reached stor (n + 1) ws := by
      rw [ih]
      constructor
      · rintro ⟨j, hj, hstored⟩
        cases j with
        | zero => exact .inl ⟨by simpa using hj, hstored⟩
        | succ j => exact .inr ⟨j, by simpa using hj, by rw [Nat.add_right_comm]; exact hstored⟩
      · rintro (⟨hv, hstored⟩ | ⟨j, hj, hstored⟩)
        · exact ⟨0, by simp [hv], hstored⟩
        · exact ⟨j + 1, by simpa using hj, by
            rw [← Nat.add_assoc, Nat.add_right_comm]; exact hstored⟩
    rw [hcons, reached]
    by_cases h : (stor n).stored = true
    · simp [h, eq_comm]
    · simp [h]

theorem mem_of_mem_reached (h : w ∈ reached stor n ws) : w ∈ ws := by
  obtain ⟨j, hj, -⟩ := mem_reached.mp h
  exact mem_of_getElem? hj

theorem addr_kernelWrites (h : w ∈ kernelWrites s i n) :
    otaKernelStartLba + i ≤ w.1 ∧ w.1 < otaKernelStartLba + i + n := by
  obtain ⟨j, hj, rfl⟩ := mem_map.mp h
  obtain ⟨h1, h2⟩ := mem_range'_1.mp hj
  omega

def RollbackFlag (disk : Nat → List UInt8) : Prop :=
  (disk otaRollbackLba).take 4 = leBytes 4 otaRollbackMagic.toNat

def OldKernel (old disk : Nat → List UInt8) : Prop :=
  ∀ lba, otaKernelStartLba ≤ lba → disk lba = old lba

def NewKernel (image : List UInt8) (disk : Nat → List UInt8) : Prop :=
  ∀ i, 4096 * i < image.length → disk (otaKernelStartLba + i) = imageSector image i

theorem rollbackFlag_of_sector {disk : Nat → List UInt8}
    (h : disk otaRollbackLba = rollbackSector s) : RollbackFlag disk := by
  unfold RollbackFlag
  rw [h]
  rfl

theorem rollbackFlag_of_reached (old : Nat → List UInt8) (hstored : (stor 0).stored = true)
    {m : Nat} (hws : ∀ w ∈ ws, w ∈ kernelWrites s 0 m) :
    RollbackFlag (store old (reached stor 0 ((otaRollbackLba, rollbackSector s) :: ws))) := by
  apply rollbackFlag_of_sector (s := s)
  refine store_of_mem _ _ ⟨(otaRollbackLba, rollbackSector s), ?_, rfl⟩ fun w hw haddr => ?_
  · exact mem_reached.mpr ⟨0, rfl, hstored⟩
  · obtain rfl | hw := mem_cons.mp (mem_of_mem_reached hw)
    · rfl
    · have := addr_kernelWrites (hws w hw)
      simp only [otaRollbackLba, otaKernelStartLba] at *
      omega

theorem newKernel_of_reached (old : Nat → List UInt8) {last : List (Nat × List UInt8)}
    (hlast : ∀ w ∈ last, w.1 = otaRollbackLba)
    (hall : ∀ j < (sectorCount s).toNat, (stor (j + 1)).ok = true)
    (hi : i < (sectorCount s).toNat) :
    store old (reached stor 0 ((otaRollbackLba, rollbackSector s) ::
      (kernelWrites s 0 (sectorCount s).toNat ++ last))) (otaKernelStartLba + i) =
        imageSector s.image i := by
  rw [← (stagedSector_eq hi).1]
  refine store_of_mem _ _ ⟨(otaKernelStartLba + i, stagedSector s (UInt32.ofNat i)), ?_, rfl⟩
    fun w hw haddr => ?_
  · refine mem_reached.mpr ⟨i + 1, ?_, ?_⟩
    · rw [getElem?_cons_succ, getElem?_append_left (by simpa [kernelWrites] using hi)]
      simp [kernelWrites, hi]
    · rw [zero_add]
      exact (stor (i + 1)).stored_of_ok (hall i hi)
  · obtain rfl | hw := mem_cons.mp (mem_of_mem_reached hw)
    · simp only [otaRollbackLba, otaKernelStartLba] at haddr
      omega
    · obtain hw | hw := mem_append.mp hw
      · obtain ⟨j, -, rfl⟩ := mem_map.mp hw
        obtain rfl : j = i := by simpa using haddr
        rfl
      · rw [hlast w hw] at haddr
        simp only [otaRollbackLba, otaKernelStartLba] at haddr
        omega

theorem kernel_of_reached (old : Nat → List UInt8)
    (hall : ∀ j < (sectorCount s).toNat, (stor (j + 1)).ok = true) {clear : List UInt8} :
    let disk := store old (reached stor 0 ((otaRollbackLba, rollbackSector s) ::
      (kernelWrites s 0 (sectorCount s).toNat ++ [(otaRollbackLba, clear)])))
    OldKernel old disk ∨ NewKernel s.image disk := by
  have hcount := toNat_sectorCount s
  have hlen : s.image.length = s.stagingLen.toNat := Pointer.length_bytes ..
  have hlt := s.stagingLen.toNat_lt
  intro disk
  by_cases hzero : (sectorCount s).toNat = 0
  · refine .inl fun lba hlba => store_of_not_mem _ _ fun w hw => ?_
    have hw := mem_of_mem_reached hw
    have haddr : w.1 = otaRollbackLba := by
      rw [hzero] at hw
      obtain rfl | rfl : w = (otaRollbackLba, rollbackSector s) ∨ w = (otaRollbackLba, clear) := by
        simpa [kernelWrites] using hw
      · rfl
      · rfl
    simp only [otaRollbackLba, otaKernelStartLba] at *
    omega
  · refine .inr fun i hi => newKernel_of_reached old ?_ hall (by omega)
    intro w hw
    rw [mem_singleton.mp hw]

/-- Whatever becomes of its writes: after any number of them the disk has the rollback magic, the
old kernel area or the whole new image. -/
theorem otaApply_crash_consistent (stor : Nat → WriteOutcome) (s : OtaState)
    (old : Nat → List UInt8) (k : Nat) :
    RollbackFlag (interruptedDisk stor s old k) ∨ OldKernel old (interruptedDisk stor s old k) ∨
      NewKernel s.image (interruptedDisk stor s old k) := by
  unfold interruptedDisk
  by_cases hs : s.status = .ready
  · obtain ⟨m, -, last, hwrites, hfail, hlast⟩ := applyWrites_eq stor hs
    rw [hwrites]
    cases k with
    | zero => exact .inr (.inl fun lba _ => rfl)
    | succ k =>
      rw [take_succ_cons]
      by_cases hstored : (stor 0).stored = true
      · by_cases hshort : ∀ w ∈ (kernelWrites s 0 m ++ last).take k, w ∈ kernelWrites s 0 m
        · -- the interruption, or a failure, came before the flag was cleared
          exact .inl (rollbackFlag_of_reached old hstored hshort)
        · obtain rfl | ⟨rfl, rfl, hall⟩ := hlast
          · rw [append_nil] at hshort
            exact absurd (fun w hw => mem_of_mem_take hw) hshort
          · have hk : (sectorCount s).toNat < k := by
              by_contra hk
              apply hshort
              rw [take_append_of_le_length (by simp [kernelWrites]; omega)]
              exact fun w hw => mem_of_mem_take hw
            have htake : ∀ l : List (Nat × List UInt8), l.length = 1 →
                (kernelWrites s 0 (sectorCount s).toNat ++ l).take k =
                  kernelWrites s 0 (sectorCount s).toNat ++ l := by
              intro l hl
              exact take_of_length_le (by simp [kernelWrites, hl]; omega)
            rw [htake _ rfl]
            exact .inr (kernel_of_reached old hall)
      · have hok : (stor 0).ok = false := by
          by_contra hok
          exact hstored ((stor 0).stored_of_ok (by simpa using hok))
        obtain ⟨rfl, rfl⟩ := hfail hok
        refine .inr (.inl fun lba _ => ?_)
        simp [kernelWrites, reached, store, hstored]
  · rw [applyWrites_not_ready stor hs]
    exact .inr (.inl fun lba _ => by simp [reached, store])

end AlJefra.Kernel.Ota
