/- What an update leaves on the disk. -/
import AlJefra.Kernel.OtaTheorems

namespace AlJefra.Kernel.Ota

open AlJefra.Lib AlJefra.Hal AlJefra.Store List

/-! ## The disk -/

abbrev storageSectorSize : Nat := 512

def storageWrite (lba : Nat) (buf : List UInt8) (disk : Pointer) : Pointer :=
  disk.write (lba * storageSectorSize) (buf.take storageSectorSize)

def replay : List OtaEvent → Pointer → Pointer
  | [], disk => disk
  | .kernelWrite lba sector :: earlier, disk => storageWrite lba sector (replay earlier disk)
  | .rollbackWrite sector :: earlier, disk =>
    storageWrite otaRollbackLba sector (replay earlier disk)
  | _ :: earlier, disk => replay earlier disk

def writesSucceed : Nat → Bool := fun _ => true

def otaApplyDisk (s : OtaState) (disk : Pointer) : HalStatus × Pointer :=
  ((otaApply (some writesSucceed) s).1,
    replay (otaApply (some writesSucceed) { s with log := [] }).2.log disk)

theorem storageWrite_apply {buf : List UInt8} (hbuf : buf.length = 4096) (lba : Nat)
    (disk : Pointer) (a : Nat) :
    storageWrite lba buf disk a
      = if a / storageSectorSize = lba then buf.getD (a % storageSectorSize) 0 else disk a := by
  have hlen : (buf.take storageSectorSize).length = 512 := by simp [hbuf, storageSectorSize]
  simp only [storageWrite, Pointer.write, hlen, storageSectorSize] at *
  by_cases h : a / 512 = lba
  · have hoff : a - lba * 512 = a % 512 := by omega
    rw [if_pos (by omega), if_pos h, hoff]
    simp [getD, Nat.mod_lt]
  · rw [if_neg (by omega), if_neg h]

theorem length_stagedSector (s : OtaState) (i : UInt32) : (stagedSector s i).length = 4096 := by
  have hle : (min (s.stagingLen - i * otaSectorSize) otaSectorSize).toNat ≤ 4096 := by
    rw [UInt32.toNat_min]
    exact Nat.min_le_right _ _
  unfold stagedSector
  rw [length_append, Pointer.length_bytes, length_replicate,
    UInt32.toNat_sub_of_le _ _ (UInt32.le_iff_toNat_le.mpr hle)]
  exact Nat.add_sub_cancel' hle

theorem replay_writeSectors (disk : Pointer) (a : Nat) : ∀ (n i : Nat) (s : OtaState),
    replay (writeSectors writesSucceed n i s).2.log disk a
      = if otaKernelStartLba + i ≤ a / storageSectorSize ∧
            a / storageSectorSize < otaKernelStartLba + i + n then
          (stagedSector s (UInt32.ofNat (a / storageSectorSize - otaKernelStartLba))).getD
            (a % storageSectorSize) 0
        else replay s.log disk a := by
  intro n
  induction n with
  | zero =>
    intro i s
    rw [if_neg (by omega)]
    rfl
  | succ n ih =>
    intro i s
    unfold writeSectors
    rw [if_pos (show writesSucceed (i + 1) = true from rfl), ih]
    simp only [OtaState.emit, replay, storageWrite_apply (length_stagedSector _ _)]
    by_cases hfirst : a / storageSectorSize = otaKernelStartLba + i
    · rw [if_neg (by omega), if_pos hfirst, if_pos (by omega), hfirst, Nat.add_sub_cancel_left]
    · rw [if_neg hfirst]
      by_cases hlater : otaKernelStartLba + (i + 1) ≤ a / storageSectorSize ∧
          a / storageSectorSize < otaKernelStartLba + (i + 1) + n
      · rw [if_pos hlater, if_pos (by omega)]
        rfl
      · rw [if_neg hlater, if_neg (by omega)]

theorem writeSectors_ok : ∀ (n i : Nat) (s : OtaState),
    (writeSectors writesSucceed n i s).1 = true := by
  intro n
  induction n with
  | zero =>
    intro i s
    rfl
  | succ n ih =>
    intro i s
    exact ih (i + 1) _

variable {s : OtaState}

theorem otaApply_log (hs : s.status = .ready) : (otaApply (some writesSucceed) s).1 = .ok ∧
      (otaApply (some writesSucceed) s).2.log
        = .rollbackWrite (replicate otaSectorSize.toNat 0) ::
          (writeSectors writesSucceed (sectorCount s).toNat 0
            ((s.setStatus .applying).emit (.rollbackWrite (rollbackSector s)))).2.log := by
  rw [otaApply, if_neg (not_not.mpr hs)]
  dsimp only
  rw [if_neg (by decide), if_neg (by rw [writeSectors_ok]; decide)]
  exact ⟨rfl, rfl⟩

theorem length_rollbackSector (s : OtaState) : (rollbackSector s).length = 4096 := by
  simp only [rollbackSector, length_append, length_leBytes, length_replicate]
  rfl

theorem storageWrite_rollback {sector : List UInt8} (hlen : sector.length = 4096) (disk : Pointer)
    (j : Nat) :
    storageWrite otaRollbackLba sector disk (otaKernelStartLba * storageSectorSize + j)
      = disk (otaKernelStartLba * storageSectorSize + j) := by
  rw [storageWrite_apply hlen, if_neg]
  simp only [otaKernelStartLba, otaRollbackLba, storageSectorSize]
  omega

/-! ## The image -/

theorem otaApplyDisk_apply (hs : s.status = .ready) (disk : Pointer) (j : Nat) :
    (otaApplyDisk s disk).2 (otaKernelStartLba * storageSectorSize + j)
      = if j / storageSectorSize < (sectorCount s).toNat then
          (imageSector s.image (j / storageSectorSize)).getD (j % storageSectorSize) 0
        else disk (otaKernelStartLba * storageSectorSize + j) := by
  have hdiv : (otaKernelStartLba * storageSectorSize + j) / storageSectorSize
      = otaKernelStartLba + j / storageSectorSize := by
    simp only [otaKernelStartLba, storageSectorSize]
    omega
  have hmod : (otaKernelStartLba * storageSectorSize + j) % storageSectorSize
      = j % storageSectorSize := by
    simp only [otaKernelStartLba, storageSectorSize]
    omega
  have hlog := (otaApply_log (s := { s with log := [] }) hs).2
  unfold otaApplyDisk
  dsimp only
  rw [hlog, replay, storageWrite_rollback (by simp; rfl), replay_writeSectors, hdiv, hmod]
  by_cases hj : j / storageSectorSize < (sectorCount s).toNat
  · rw [if_pos ⟨Nat.le_add_right _ _, by simpa [sectorCount] using hj⟩, if_pos hj,
      Nat.add_sub_cancel_left]
    exact congrArg (fun l : List UInt8 => l.getD (j % storageSectorSize) 0) (stagedSector_eq hj).1
  · rw [if_neg (fun hc => hj (by simpa [sectorCount] using hc.2)), if_neg hj]
    exact storageWrite_rollback (length_rollbackSector _) disk j

theorem getD_append_zeros (l : List UInt8) (n k : Nat) :
    (l ++ replicate n 0).getD k 0 = l.getD k 0 := by
  simp only [getD_eq_getElem?_getD, getElem?_append]
  split
  · rfl
  · next h =>
    rw [getElem?_eq_none (Nat.not_lt.mp h), getElem?_replicate]
    split <;> rfl

theorem getD_imageSector (bytes : List UInt8) (i : Nat) {k : Nat} (hk : k < 4096) :
    (imageSector bytes i).getD k 0 = bytes.getD (4096 * i + k) 0 := by
  rw [imageSector, getD_append_zeros]
  simp [getD_eq_getElem?_getD, hk]

def paddedLength (len : Nat) : Nat := (len + 511) / 512 * 512

def Faithful (s : OtaState) (disk : Pointer) : Prop :=
  disk.bytes (otaKernelStartLba * storageSectorSize) (paddedLength s.stagingLen.toNat)
    = s.image ++ List.replicate (paddedLength s.stagingLen.toNat - s.stagingLen.toNat) 0

theorem faithful_bytes (s : OtaState) (disk : Pointer) :
    Faithful s disk ↔ ∀ j < paddedLength s.stagingLen.toNat,
      disk (otaKernelStartLba * storageSectorSize + j) = s.image.getD j 0 := by
  have hlen : s.image.length = s.stagingLen.toNat := Pointer.length_bytes ..
  have hle : s.stagingLen.toNat ≤ paddedLength s.stagingLen.toNat := by
    unfold paddedLength
    omega
  constructor
  · intro h j hj
    have hget := congrArg (fun l : List UInt8 => l.getD j 0) h
    simp only [getD_append_zeros] at hget
    rw [← hget]
    simp [Pointer.bytes, hj]
  · intro h
    refine ext_getElem ?_ ?_
    · simp only [Pointer.length_bytes, length_append, hlen, length_replicate]
      omega
    · intro j hj hj'
      rw [Pointer.length_bytes] at hj
      have hget := h j hj
      rw [← getD_append_zeros _ (paddedLength s.stagingLen.toNat - s.stagingLen.toNat),
        getD_eq_getElem?_getD, getElem?_eq_getElem hj'] at hget
      rw [← Option.getD_some (a := (s.image ++ replicate _ 0)[j]) (b := 0), ← hget]
      simp [Pointer.bytes]

theorem sectorCount_eq (h : s.stagingLen.toNat ≤ 262144) :
    (sectorCount s).toNat = (s.stagingLen.toNat + 4095) / 4096 := by
  unfold sectorCount otaSectorSize
  rw [UInt32.toNat_div, UInt32.toNat_sub, UInt32.toNat_add]
  simp
  omega

theorem otaApplyDisk_faithful (hs : s.status = .ready) (h1 : 1 ≤ s.stagingLen.toNat)
    (h2 : s.stagingLen.toNat ≤ 512) (disk : Pointer) : Faithful s (otaApplyDisk s disk).2 := by
  have hpad : paddedLength s.stagingLen.toNat = 512 := by
    unfold paddedLength
    omega
  have hcount := sectorCount_eq (s := s) (by omega)
  rw [faithful_bytes, hpad]
  intro j hj
  have hzero : j / storageSectorSize = 0 := Nat.div_eq_of_lt hj
  rw [otaApplyDisk_apply hs, hzero, if_pos (by omega), Nat.mod_eq_of_lt hj,
    getD_imageSector _ _ (by omega), Nat.mul_zero, Nat.zero_add]

def oneByteImage (len : UInt32) : OtaState :=
  ⟨.ready, fun i => if i = 512 then 1 else 0, len, noKey, []⟩

theorem otaApplyDisk_not_faithful {len : UInt32} (h1 : 512 < len.toNat) (h2 : len.toNat ≤ 262144) :
    ¬ Faithful (oneByteImage len) (otaApplyDisk (oneByteImage len) zeroMemory).2 := by
  have hbyte : ∀ i, (oneByteImage len).image.getD i 0 = if i = 512 then 1 else 0 := by
    intro i
    simp only [OtaState.image, oneByteImage, Pointer.bytes, getD_eq_getElem?_getD]
    by_cases hi : i < len.toNat
    · simp [hi]
    · have : i ≠ 512 := by omega
      simp [hi, this]
  rw [faithful_bytes]
  intro h
  have hpad : 512 < paddedLength (oneByteImage len).stagingLen.toNat := by
    show 512 < paddedLength len.toNat
    unfold paddedLength
    omega
  have h512 := h 512 hpad
  rw [otaApplyDisk_apply rfl, hbyte, if_pos rfl] at h512
  split at h512
  · rw [getD_imageSector _ _ (by decide), hbyte] at h512
    exact absurd h512 (by decide)
  · exact absurd h512 (by decide)

/-- An update of a given length is written as it is exactly if it has at most 512 bytes. -/
theorem otaApply_faithful_iff (len : UInt32) (h1 : 1 ≤ len.toNat) (h2 : len.toNat ≤ 262144) :
    (∀ (s : OtaState) (disk : Pointer), s.status = .ready → s.stagingLen = len →
        (otaApplyDisk s disk).1 = .ok ∧ Faithful s (otaApplyDisk s disk).2) ↔
      len.toNat ≤ 512 := by
  constructor
  · intro h
    by_contra hlong
    exact otaApplyDisk_not_faithful (by omega) h2 (h (oneByteImage len) zeroMemory rfl rfl).2
  · rintro hshort s disk hs rfl
    exact ⟨(otaApply_log hs).1, otaApplyDisk_faithful hs h1 hshort disk⟩

def countingImage : OtaState := ⟨.ready, UInt8.ofNat, 512, noKey, []⟩

theorem otaApply_faithful_iff_sector :
    Faithful countingImage (otaApplyDisk countingImage zeroMemory).2 :=
  ((otaApply_faithful_iff 512 (by decide) (by decide)).mpr (by decide) countingImage
    zeroMemory rfl rfl).2

theorem otaApply_loses_byte :
    (otaApplyDisk (oneByteImage 513) zeroMemory).1 = .ok ∧
      ¬ Faithful (oneByteImage 513) (otaApplyDisk (oneByteImage 513) zeroMemory).2 :=
  ⟨(otaApply_log rfl).1, otaApplyDisk_not_faithful (by decide) (by decide)⟩

end AlJefra.Kernel.Ota
