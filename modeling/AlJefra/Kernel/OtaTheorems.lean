/- Nothing unverified reaches the kernel area. -/
import AlJefra.Kernel.Ota

namespace AlJefra.Kernel.Ota

open AlJefra.Lib AlJefra.Hal AlJefra.Store UInt32 List

/-! ## Histories -/

def lastVerified : List OtaEvent → Option (List UInt8)
  | [] => none
  | .staged :: _ => none
  | .verified bytes rc :: _ => if rc = .ok then some bytes else none
  | .kernelWrite _ _ :: earlier => lastVerified earlier
  | .rollbackWrite _ :: earlier => lastVerified earlier

def OtaEvent.isWrite : OtaEvent → Bool
  | .kernelWrite _ _ => true
  | .rollbackWrite _ => true
  | _ => false

theorem lastVerified_eq_some : ∀ (log : List OtaEvent) {bytes : List UInt8},
    lastVerified log = some bytes →
    ∃ since before, log = since ++ .verified bytes .ok :: before ∧ ∀ e ∈ since, e.isWrite = true
  | .verified b rc :: before, bytes, h => by
    unfold lastVerified at h
    split at h
    · next hrc =>
      obtain rfl : b = bytes := Option.some.inj h
      exact ⟨[], before, by rw [hrc]; rfl, fun e he => by cases he⟩
    · cases h
  | .kernelWrite lba sector :: earlier, bytes, h => by
    obtain ⟨since, before, rfl, hw⟩ := lastVerified_eq_some earlier h
    refine ⟨.kernelWrite lba sector :: since, before, rfl, fun e he => ?_⟩
    rcases mem_cons.mp he with rfl | he
    · rfl
    · exact hw e he
  | .rollbackWrite sector :: earlier, bytes, h => by
    obtain ⟨since, before, rfl, hw⟩ := lastVerified_eq_some earlier h
    refine ⟨.rollbackWrite sector :: since, before, rfl, fun e he => ?_⟩
    rcases mem_cons.mp he with rfl | he
    · rfl
    · exact hw e he

def imageSector (bytes : List UInt8) (i : Nat) : List UInt8 :=
  (bytes.drop (4096 * i)).take 4096 ++
    List.replicate (4096 - ((bytes.drop (4096 * i)).take 4096).length) 0

def FromVerified (lba : Nat) (sector : List UInt8) (earlier : List OtaEvent) : Prop :=
  ∃ bytes i, lastVerified earlier = some bytes ∧ 4096 * i < bytes.length ∧
    lba = otaKernelStartLba + i ∧ sector = imageSector bytes i

section Gate

variable (ed25519Verify : Ed25519)

def Accepted (bytes : List UInt8) : Prop :=
  ∃ data : Pointer, bytes = data.bytes 0 bytes.length ∧
    ajdrvVerify ed25519Verify (ajdrvSetTrustedKey ed25519PublicKey) data
      (UInt64.ofNat bytes.length) = .ok

/-- Only verified bytes are written to the kernel area. -/
def Justified : List OtaEvent → Prop
  | [] => True
  | .kernelWrite lba sector :: earlier => FromVerified lba sector earlier ∧ Justified earlier
  | .verified bytes rc :: earlier => (rc = .ok → Accepted ed25519Verify bytes) ∧ Justified earlier
  | .staged :: earlier => Justified earlier
  | .rollbackWrite _ :: earlier => Justified earlier

variable {ed25519Verify}

theorem Justified.tail : ∀ {e : OtaEvent} {log : List OtaEvent},
    Justified ed25519Verify (e :: log) → Justified ed25519Verify log
  | .kernelWrite _ _, _, h => h.2
  | .verified _ _, _, h => h.2
  | .staged, _, h => h
  | .rollbackWrite _, _, h => h

theorem Justified.suffix {earlier : List OtaEvent} : ∀ (later : List OtaEvent),
    Justified ed25519Verify (later ++ earlier) → Justified ed25519Verify earlier
  | [], h => h
  | e :: later, h => Justified.suffix later (Justified.tail (e := e) h)

/-! ## The invariant -/

variable (ed25519Verify) in
structure Gate (s : OtaState) : Prop where
  ready : s.status = .ready → lastVerified s.log = some s.image
  justified : Justified ed25519Verify s.log

variable {s : OtaState}

theorem Gate.of_not_ready (hj : Justified ed25519Verify s.log) (hs : s.status ≠ .ready) :
    Gate ed25519Verify s :=
  ⟨fun h => absurd h hs, hj⟩

theorem otaCheck_gate (h : Gate ed25519Verify s) (info : Bool) (net : CheckNet) :
    Gate ed25519Verify (otaCheck info net s).2.2 := by
  have hset : ∀ st : OtaStatus, st ≠ .ready →
      Gate ed25519Verify ((s.setStatus .none).setStatus st) :=
    fun st hst => Gate.of_not_ready h.justified hst
  unfold otaCheck
  split
  · exact h
  dsimp only
  split
  · exact hset .error (by decide)
  split
  · exact hset .error (by decide)
  split
  · exact Gate.of_not_ready h.justified (by simp [OtaState.setStatus])
  split
  · exact hset .error (by decide)
  split
  · exact hset .error (by decide)
  split
  · exact hset .error (by decide)
  · exact hset .available (by decide)

theorem downloadLoop_log (contentLen : UInt32) : ∀ (chunks : List (List UInt8)) {s : OtaState},
    Justified ed25519Verify s.log →
      Justified ed25519Verify (downloadLoop contentLen chunks s).2.log ∧
      (downloadLoop contentLen chunks s).2.status = s.status
  | [], _, h => ⟨h, rfl⟩
  | c :: cs, s, h => by
    unfold downloadLoop
    split
    · dsimp only
      split
      · exact ⟨h, rfl⟩
      · exact downloadLoop_log contentLen cs h
    · exact ⟨h, rfl⟩

theorem downloadBody_gate (hj : Justified ed25519Verify s.log) (hs : s.status = .downloading)
    (info : UpdateInfo) (hdr : List UInt8) (chunks : List (List UInt8)) :
    Gate ed25519Verify (downloadBody info hdr chunks s).2 := by
  have hinit : Justified ed25519Verify (stageInitial hdr s).log ∧
      (stageInitial hdr s).status = .downloading := by
    unfold stageInitial
    split <;> exact ⟨hj, hs⟩
  obtain ⟨hlog, hstatus⟩ := downloadLoop_log (contentLength info hdr) chunks hinit.1
  unfold downloadBody
  dsimp only
  split
  · exact Gate.of_not_ready hlog (by simp [OtaState.setStatus])
  split
  · exact Gate.of_not_ready hlog (by simp [OtaState.setStatus])
  · refine Gate.of_not_ready hlog ?_
    rw [hstatus, hinit.2]
    decide

theorem otaDownload_gate (h : Gate ed25519Verify s) (info : Option UpdateInfo) (net : DownloadNet) :
    Gate ed25519Verify (otaDownload info net s).2 := by
  have herror : Gate ed25519Verify (s.setStatus .error) :=
    Gate.of_not_ready h.justified (by simp [OtaState.setStatus])
  cases info with
  | none => exact h
  | some info =>
    unfold otaDownload
    dsimp only
    split
    · exact h
    split
    · exact herror
    split
    · exact herror
    split
    · exact herror
    split
    · exact herror
    split
    · exact herror
    · exact downloadBody_gate (s := s.setStatus .downloading) h.justified rfl info _ _

theorem otaVerify_gate (h : Gate ed25519Verify s) :
    Gate ed25519Verify (otaVerify ed25519Verify s).2 := by
  unfold otaVerify
  split
  · exact Gate.of_not_ready h.justified (by simp [OtaState.setStatus])
  dsimp only
  have haccept : ajdrvVerify ed25519Verify (ajdrvSetTrustedKey ed25519PublicKey) s.staging
      s.stagingLen.toUInt64 = .ok → Accepted ed25519Verify s.image := by
    intro hok
    have hlen : s.image.length = s.stagingLen.toNat := Pointer.length_bytes ..
    refine ⟨s.staging, by rw [hlen]; rfl, ?_⟩
    rw [hlen, UInt64.ofNat_uInt32ToNat]
    exact hok
  split
  · exact Gate.of_not_ready ⟨haccept, h.justified⟩ (by simp [OtaState.setStatus])
  · next hrc => exact ⟨fun _ => if_pos (not_not.mp hrc), haccept, h.justified⟩

theorem toNat_sectorCount (s : OtaState) :
    (sectorCount s).toNat = (s.stagingLen.toNat + 4095) % 2 ^ 32 / 4096 := by
  unfold sectorCount otaSectorSize
  rw [UInt32.toNat_div, UInt32.toNat_sub, UInt32.toNat_add]
  simp
  omega

theorem stagedSector_eq {i : Nat} (hi : i < (sectorCount s).toNat) :
    stagedSector s (UInt32.ofNat i) = imageSector s.image i ∧ 4096 * i < s.image.length := by
  have hcount := toNat_sectorCount s
  have hlt : 4096 * i < s.stagingLen.toNat := by omega
  have hoff : (UInt32.ofNat i * otaSectorSize).toNat = 4096 * i := by
    rw [UInt32.toNat_mul, toNat_ofNat', show otaSectorSize.toNat = 4096 from rfl]
    omega
  have hsub : (s.stagingLen - UInt32.ofNat i * otaSectorSize).toNat
      = s.stagingLen.toNat - 4096 * i := by
    rw [UInt32.toNat_sub_of_le _ _ (le_iff_toNat_le.mpr (by omega)), hoff]
  have hchunk : (min (s.stagingLen - UInt32.ofNat i * otaSectorSize) otaSectorSize).toNat
      = min 4096 (s.stagingLen.toNat - 4096 * i) := by
    rw [← hsub, Nat.min_comm]
    exact toNat_min ..
  have hpad : (otaSectorSize - min (s.stagingLen - UInt32.ofNat i * otaSectorSize)
      otaSectorSize).toNat = 4096 - min 4096 (s.stagingLen.toNat - 4096 * i) := by
    rw [UInt32.toNat_sub_of_le _ _ (le_iff_toNat_le.mpr
      (by rw [hchunk]; exact Nat.min_le_left _ _)), hchunk]
    rfl
  refine ⟨?_, by rw [OtaState.image, Pointer.length_bytes]; exact hlt⟩
  unfold stagedSector imageSector
  dsimp only
  rw [OtaState.image, Pointer.bytes_window, Pointer.length_bytes, hoff, hchunk, hpad, zero_add]

theorem writeSectors_justified (writeOk : Nat → Bool) : ∀ {n i : Nat} {s : OtaState},
    i + n ≤ (sectorCount s).toNat → lastVerified s.log = some s.image →
      Justified ed25519Verify s.log →
    Justified ed25519Verify (writeSectors writeOk n i s).2.log
  | 0, _, _, _, _, hj => hj
  | n + 1, i, s, hi, hv, hj => by
    obtain ⟨hsector, hlt⟩ := stagedSector_eq (s := s) (i := i) (by omega)
    have hj' : Justified ed25519Verify (s.emit (.kernelWrite (otaKernelStartLba + i)
        (stagedSector s (UInt32.ofNat i)))).log :=
      ⟨⟨s.image, i, hv, hlt, rfl, hsector⟩, hj⟩
    unfold writeSectors
    dsimp only
    split
    · exact writeSectors_justified writeOk (s := s.emit _)
        (show i + 1 + n ≤ (sectorCount s).toNat by omega)
        hv hj'
    · exact hj'

theorem otaApply_gate (h : Gate ed25519Verify s) (stor : Option (Nat → Bool)) :
    Gate ed25519Verify (otaApply stor s).2 := by
  unfold otaApply
  split
  · exact h
  · next hready =>
    have hv := h.ready (not_not.mp hready)
    cases stor with
    | none => exact Gate.of_not_ready h.justified (by simp [OtaState.setStatus])
    | some writeOk =>
      have hj := writeSectors_justified writeOk (i := 0)
        (s := (s.setStatus .applying).emit
          (.rollbackWrite (rollbackSector (s.setStatus .applying))))
        (Nat.le_of_eq (Nat.zero_add _)) hv h.justified
      dsimp only
      split
      · exact Gate.of_not_ready h.justified (by simp [OtaState.setStatus])
      split <;> exact Gate.of_not_ready hj (by simp [OtaState.setStatus])

theorem otaStep_gate (s : OtaState) (call : OtaCall) (h : Gate ed25519Verify s) :
    Gate ed25519Verify (otaStep ed25519Verify s call) := by
  cases call with
  | check info net => exact otaCheck_gate h info net
  | download info net => exact otaDownload_gate h info net
  | verify => exact otaVerify_gate h
  | apply stor => exact otaApply_gate h stor

end Gate

/-- In every run, a sector that `ota_apply` writes to the kernel area is one of the bytes on which
the latest verification was `HAL_OK`. -/
theorem otaApply_writes_verified (ed25519Verify : Ed25519) (staging : Pointer)
    (trusted : TrustedKey) (calls : List OtaCall) (later earlier : List OtaEvent) (lba : Nat)
    (sector : List UInt8)
    (hlog : (run (otaStep ed25519Verify) (otaBoot staging trusted) calls).log
      = later ++ .kernelWrite lba sector :: earlier) :
    ∃ bytes i since before,
      earlier = since ++ .verified bytes .ok :: before ∧ (∀ e ∈ since, e.isWrite = true) ∧
      Accepted ed25519Verify bytes ∧
      4096 * i < bytes.length ∧ lba = otaKernelStartLba + i ∧ sector = imageSector bytes i := by
  have hboot : Gate ed25519Verify (otaBoot staging trusted) :=
    Gate.of_not_ready trivial (by simp [otaBoot])
  have hj := (run_invariant otaStep_gate calls _ hboot).justified
  rw [hlog] at hj
  obtain ⟨⟨bytes, i, hv, hi, hlba, hsector⟩, hj⟩ := hj.suffix
  obtain ⟨since, before, hearlier, hw⟩ := lastVerified_eq_some _ hv
  rw [hearlier] at hj
  exact ⟨bytes, i, since, before, hearlier, hw, hj.suffix.1 rfl, hi, hlba, hsector⟩

def smallPackage : List UInt8 :=
  leBytes 4 ajdrvMagic.toNat ++ leBytes 4 1 ++ leBytes 8 0 ++ leBytes 4 64 ++ leBytes 4 4 ++
    leBytes 20 0 ++ leBytes 4 68 ++ leBytes 16 0 ++ [1, 2, 3, 4] ++ List.replicate 64 0

def okHeader : List UInt8 :=
  [0x48, 0x54, 0x54, 0x50, 0x2F, 0x31, 0x20, 0x32, 0x30, 0x30, 0x0D, 0x0A, 0x0D, 0x0A]

def smallUpdate : List OtaCall :=
  [.download (some ⟨[], [0x2F], 132, 0⟩) ⟨true, okHeader, [smallPackage]⟩, .verify]

def zeroMemory : Pointer := fun _ => 0
def noKey : TrustedKey := ⟨Table.ofList 0 [], false⟩
def acceptAll : Ed25519 := fun _ _ _ => 0
def failsSecond : Nat → Bool := fun n => n = 0

theorem run_failsSecond (ed25519Verify : Ed25519) (s : OtaState) (calls : List OtaCall)
    (hs : (run (otaStep ed25519Verify) s calls).status = .ready) {n : Nat}
    (hn : (sectorCount (run (otaStep ed25519Verify) s calls)).toNat = n + 1) :
    (run (otaStep ed25519Verify) s (calls ++ [.apply (some failsSecond)])).log
      = .kernelWrite otaKernelStartLba (stagedSector (run (otaStep ed25519Verify) s calls) 0) ::
        .rollbackWrite (rollbackSector (run (otaStep ed25519Verify) s calls)) ::
        (run (otaStep ed25519Verify) s calls).log := by
  rw [run_append, run_cons, run_nil]
  generalize run (otaStep ed25519Verify) s calls = s at hs hn ⊢
  have hcount : (sectorCount ((s.setStatus .applying).emit
      (.rollbackWrite (rollbackSector (s.setStatus .applying))))).toNat = n + 1 := hn
  rw [otaStep, otaApply, if_neg (not_not.mpr hs)]
  dsimp only
  rw [if_neg (by decide), hcount]
  rfl

theorem otaApply_writes_verified_small :
    ∃ bytes i since before,
      OtaEvent.rollbackWrite
          (rollbackSector (run (otaStep acceptAll) (otaBoot zeroMemory noKey) smallUpdate)) ::
          (run (otaStep acceptAll) (otaBoot zeroMemory noKey) smallUpdate).log
        = since ++ .verified bytes .ok :: before ∧
      (∀ e ∈ since, e.isWrite = true) ∧ Accepted acceptAll bytes ∧
      4096 * i < bytes.length ∧ otaKernelStartLba = otaKernelStartLba + i ∧
      stagedSector (run (otaStep acceptAll) (otaBoot zeroMemory noKey) smallUpdate) 0
        = imageSector bytes i := by
  have hready :
      (run (otaStep acceptAll) (otaBoot zeroMemory noKey) smallUpdate).status = .ready := by
    decide +kernel
  have hcount :
      (sectorCount (run (otaStep acceptAll) (otaBoot zeroMemory noKey) smallUpdate)).toNat
        = 0 + 1 := by
    decide +kernel
  refine otaApply_writes_verified acceptAll zeroMemory noKey
    (smallUpdate ++ [.apply (some failsSecond)]) [] _ otaKernelStartLba _ ?_
  rw [List.nil_append,
    run_failsSecond acceptAll (otaBoot zeroMemory noKey) smallUpdate hready hcount]

end AlJefra.Kernel.Ota
