/- What a verified package lets the loader run. -/
import AlJefra.Kernel.DriverLoader

namespace AlJefra.Kernel.DriverLoader

open AlJefra.Lib AlJefra.Hal AlJefra.Store List

/-! ## What the loader takes from the package -/

def LoadEvent.FromHeader (data : Pointer) : LoadEvent → Prop
  | .printName off => off = (readHeader data).nameOffset.toNat
  | .copyCode off code =>
    off = (readHeader data).codeOffset.toNat ∧
      code = data.bytes off (readHeader data).codeSize.toNat
  | .callEntry code entryOffset =>
    code = data.bytes (readHeader data).codeOffset.toNat (readHeader data).codeSize.toNat ∧
      entryOffset = (readHeader data).entryOffset
  | .initDevice => True
  | .free => True

section Events

variable {Dev : Type} (ed25519Verify : Ed25519) (env : LoadEnv Dev)

theorem startDriver_events {l : Loader Dev} {data : Pointer} {dev : Dev}
    {before : List LoadEvent} (hbefore : ∀ e ∈ before, e.FromHeader data) :
    ∀ e ∈ (startDriver env l
        (data.bytes (readHeader data).codeOffset.toNat (readHeader data).codeSize.toNat)
        (readHeader data).entryOffset dev before).events, e.FromHeader data := by
  intro e he
  have hmem : e ∈ before ∨ e = .callEntry
      (data.bytes (readHeader data).codeOffset.toNat (readHeader data).codeSize.toNat)
      (readHeader data).entryOffset ∨ e = .initDevice ∨ e = .free := by
    unfold startDriver at he
    split at he
    · simp only [mem_append, mem_cons, not_mem_nil, or_false] at he
      tauto
    · split at he
      · simp only [mem_append, mem_cons, not_mem_nil, or_false] at he
        tauto
      · split at he <;> simp only [mem_append, mem_cons, not_mem_nil, or_false] at he <;> tauto
  rcases hmem with hb | rfl | rfl | rfl
  · exact hbefore e hb
  · exact ⟨rfl, rfl⟩
  · trivial
  · trivial

theorem driverLoadRuntime_events (l : Loader Dev) (data : Pointer) (size : UInt64) (dev : Dev) :
    ∀ e ∈ (driverLoadRuntime ed25519Verify env l data size dev).events, e.FromHeader data := by
  have hname : ∀ e ∈ [LoadEvent.printName (readHeader data).nameOffset.toNat],
      e.FromHeader data := by
    intro e he
    rw [mem_singleton.mp he]
    rfl
  have hcopy : ∀ e ∈ [LoadEvent.printName (readHeader data).nameOffset.toNat,
      .copyCode (readHeader data).codeOffset.toNat
        (data.bytes (readHeader data).codeOffset.toNat (readHeader data).codeSize.toNat)],
      e.FromHeader data := by
    intro e he
    rcases mem_cons.mp he with rfl | he
    · rfl
    · rw [mem_singleton.mp he]
      exact ⟨rfl, rfl⟩
  have hnil : ∀ e ∈ ([] : List LoadEvent), e.FromHeader data := fun e he => by cases he
  have hloaded : ∀ e ∈ (if env.dmaAlloc (readHeader data).codeSize.toUInt64 then
      startDriver env l
        (data.bytes (readHeader data).codeOffset.toNat (readHeader data).codeSize.toNat)
        (readHeader data).entryOffset dev
        [LoadEvent.printName (readHeader data).nameOffset.toNat,
          .copyCode (readHeader data).codeOffset.toNat
            (data.bytes (readHeader data).codeOffset.toNat (readHeader data).codeSize.toNat)]
      else ⟨.noMemory, [LoadEvent.printName (readHeader data).nameOffset.toNat], l⟩).events,
      e.FromHeader data := by
    split
    · exact startDriver_events env hcopy
    · exact hname
  unfold driverLoadRuntime
  dsimp only
  split
  · exact hnil
  split
  · exact hnil
  split
  · exact hnil
  split
  · exact hnil
  cases ajdrvVerify ed25519Verify l.trusted data size with
  | ok | notSupported => exact hloaded
  | error | timeout | busy | noDevice | noMemory => exact hname

end Events

/-! ## The signed region -/

def Signed (hdr : AjdrvHeader) (size : UInt64) (i : Nat) : Prop :=
  i < size.toNat ∧ i < hdr.signatureOffset.toNat

structure SignedOnly (hdr : AjdrvHeader) (size : UInt64) : Prop where
  code : ∀ i, hdr.codeOffset.toNat ≤ i → i < hdr.codeOffset.toNat + hdr.codeSize.toNat →
    Signed hdr size i
  name : ∀ i, hdr.nameOffset.toNat ≤ i → i < hdr.nameOffset.toNat + hdr.nameSize.toNat →
    Signed hdr size i
  entry : Signed hdr size (hdr.codeOffset.toNat + hdr.entryOffset.toNat)

def EndsSigned (hdr : AjdrvHeader) (size : UInt64) (off len : UInt32) : Prop :=
  off.toNat + len.toNat ≤ hdr.signatureOffset.toNat ∧ off.toNat + len.toNat ≤ size.toNat

theorem range_signed_iff (hdr : AjdrvHeader) (size : UInt64) (off len : UInt32) :
    (∀ i, off.toNat ≤ i → i < off.toNat + len.toNat → Signed hdr size i) ↔
      len = 0 ∨ EndsSigned hdr size off len := by
  constructor
  · intro h
    by_cases hlen : len = 0
    · exact Or.inl hlen
    · have hpos : len.toNat ≠ 0 := fun h0 => hlen (UInt32.toNat_inj.mp h0)
      obtain ⟨h1, h2⟩ := h (off.toNat + len.toNat - 1) (by omega) (by omega)
      exact Or.inr ⟨by omega, by omega⟩
  · rintro (rfl | ⟨h1, h2⟩) i hlo hhi
    · rw [UInt32.toNat_zero] at hhi
      omega
    · exact ⟨by omega, by omega⟩

theorem signedOnly_iff {hdr : AjdrvHeader} {size : UInt64} (hv : Validated hdr size) :
    SignedOnly hdr size ↔ EndsSigned hdr size hdr.codeOffset hdr.codeSize ∧
      (hdr.nameSize = 0 ∨ EndsSigned hdr size hdr.nameOffset hdr.nameSize) := by
  have hentry : hdr.entryOffset.toNat < hdr.codeSize.toNat := UInt32.lt_iff_toNat_lt.mp hv.entry
  have hcode : hdr.codeSize ≠ 0 := by
    intro h0
    rw [h0, UInt32.toNat_zero] at hentry
    omega
  constructor
  · intro h
    exact ⟨((range_signed_iff hdr size _ _).mp h.code).resolve_left hcode,
      (range_signed_iff hdr size _ _).mp h.name⟩
  · rintro ⟨hc, hn⟩
    have hrange := (range_signed_iff hdr size hdr.codeOffset hdr.codeSize).mpr (Or.inr hc)
    exact ⟨hrange, (range_signed_iff hdr size _ _).mpr hn, hrange _ (by omega) (by omega)⟩

/-- An accepted package hands the loader signed bytes only exactly when its code and its name end
before the signature, as numbers and not modulo `2^32`. -/
theorem driverLoadRuntime_signed_iff (ed25519Verify : Ed25519)
    (pubKey : Table UInt8 ajdrvPubkeySize) (data : Pointer) (size : UInt64)
    (h : ajdrvVerifySignature ed25519Verify pubKey data size = .ok) :
    (SignedOnly (readHeader data) size ↔
      EndsSigned (readHeader data) size (readHeader data).codeOffset (readHeader data).codeSize ∧
      ((readHeader data).nameSize = 0 ∨
        EndsSigned (readHeader data) size (readHeader data).nameOffset
          (readHeader data).nameSize)) ∧
    ∀ (Dev : Type) (env : LoadEnv Dev) (l : Loader Dev) (dev : Dev),
      ∀ e ∈ (driverLoadRuntime ed25519Verify env l data size dev).events, e.FromHeader data :=
  ⟨signedOnly_iff (validated_of_verifySignature ed25519Verify h),
    fun _ env l dev => driverLoadRuntime_events ed25519Verify env l data size dev⟩

/-! ## Packages -/

def headerBytes (codeOffset codeSize signatureOffset : Nat) : List UInt8 :=
  leBytes 4 ajdrvMagic.toNat ++ leBytes 4 1 ++ leBytes 4 0 ++ leBytes 4 0 ++
    leBytes 4 codeOffset ++ leBytes 4 codeSize ++ leBytes 20 0 ++ leBytes 4 signatureOffset ++
    leBytes 16 0

def signs (message signature : List UInt8) : Ed25519 :=
  fun _ msg sig => if msg = message ∧ sig = signature then 0 else -4

def someSignature : List UInt8 := List.replicate 64 0xAA
def someKey : Table UInt8 ajdrvPubkeySize := ⟨List.replicate 32 0, rfl⟩
def willing : LoadEnv Unit := ⟨0, fun _ => true, fun _ _ => some ⟨none⟩⟩
def trusting : Loader Unit := ⟨[], ajdrvSetTrustedKey someKey⟩
def signedPackage : List UInt8 := headerBytes 64 4 68 ++ [0x90, 0x90, 0x90, 0xC3] ++ someSignature

theorem driverLoadRuntime_signed_of_layout :
    SignedOnly (readHeader (pointerTo signedPackage)) 132 :=
  ((driverLoadRuntime_signed_iff (signs (signedPackage.take 68) someSignature) someKey
    (pointerTo signedPackage) 132 (by decide +kernel)).1).mpr
    ⟨by unfold EndsSigned; decide +kernel, Or.inl (by decide +kernel)⟩

def appendedPackage (code : List UInt8) : List UInt8 :=
  headerBytes 128 4 64 ++ someSignature ++ code

def wrappedPackage : List UInt8 := headerBytes 0xFFFFFFF0 32 64 ++ someSignature

/-- One signature is accepted for two codes, and for code outside of the package. -/
theorem driverLoadRuntime_runs_unsigned_code :
    (∀ code ∈ [[0x90, 0x90, 0x90, 0xC3], [0xCC, 0xCC, 0xCC, 0xCC]],
      ajdrvVerifySignature (signs (headerBytes 128 4 64) someSignature) someKey
        (pointerTo (appendedPackage code)) 132 = .ok ∧
      (driverLoadRuntime (signs (headerBytes 128 4 64) someSignature) willing trusting
        (pointerTo (appendedPackage code)) 132 ()).events
        = [.printName 0, .copyCode 128 code, .callEntry code 0] ∧
      ¬ SignedOnly (readHeader (pointerTo (appendedPackage code))) 132) ∧
    ajdrvVerifySignature (signs (headerBytes 0xFFFFFFF0 32 64) someSignature) someKey
        (pointerTo wrappedPackage) 128 = .ok ∧
      ¬ SignedOnly (readHeader (pointerTo wrappedPackage)) 128 := by
  have hunsigned : ∀ {hdr : AjdrvHeader} {size : UInt64},
      ¬ Signed hdr size (hdr.codeOffset.toNat + hdr.entryOffset.toNat) → ¬ SignedOnly hdr size :=
    fun hn h => hn h.entry
  refine ⟨?_, by decide +kernel, hunsigned (by unfold Signed; decide +kernel)⟩
  intro code hcode
  rcases mem_cons.mp hcode with rfl | hcode
  · exact ⟨by decide +kernel, by decide +kernel, hunsigned (by unfold Signed; decide +kernel)⟩
  · rw [mem_singleton.mp hcode]
    exact ⟨by decide +kernel, by decide +kernel, hunsigned (by unfold Signed; decide +kernel)⟩

end AlJefra.Kernel.DriverLoader
