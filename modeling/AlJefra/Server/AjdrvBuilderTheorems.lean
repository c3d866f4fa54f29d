/- The builder and the loader agree on the package format. -/
import AlJefra.Kernel.DriverLoader
import AlJefra.Server.AjdrvBuilder

namespace AlJefra.Server

open AlJefra.Lib AlJefra.Hal List Option UInt32
open AlJefra.Store (AjdrvHeader readHeader ajdrvValidateHeader ajdrvVerify ajdrvVerifySignature
  Ed25519)

variable {env : BuildEnv} {args : BuildArgs}

/-! ## The pieces of a package -/

variable {bs fields sig : List UInt8} {osVer : Int}

theorem length_signature {keyPath : PyStr} {signedData : List UInt8}
    (h : signature env keyPath signedData = some sig) : sig.length = sigSize := by
  unfold signature at h
  split at h
  · simp only [bind_eq_bind, bind_eq_some_iff] at h
    obtain ⟨sk, -, sig', -, hsig⟩ := h
    split at hsig
    · next hlen =>
      cases hsig
      exact hlen
    · cases hsig
  · cases h
    exact length_replicate

theorem utf8_nul_terminated {text : PyStr} (h : utf8 (text ++ [nul]) = some bs) :
    ∃ front, utf8 text = some front ∧ bs = front ++ [0] := by
  obtain ⟨front, back, hfront, hback, rfl⟩ := utf8_append_eq_some h
  have hnul : utf8 [nul] = some [0] := by decide
  rw [hnul, Option.some.injEq] at hback
  exact ⟨front, hfront, by rw [hback]⟩

theorem buildAjdrv_eq_some {pkg : List UInt8} (h : buildAjdrv env args = some pkg) :
    ∃ name desc osVer fields sig, utf8 args.name = some name ∧
      pack (headerFields args (name ++ [0]).length desc.length osVer) = some fields ∧
      signature env args.signingKeyPath
        (fields ++ replicate 8 0 ++ (name ++ [0]) ++ desc ++ args.code) = some sig ∧
      pkg = fields ++ replicate 8 0 ++ (name ++ [0]) ++ desc ++ args.code ++ sig := by
  simp only [buildAjdrv, bind_eq_bind, bind_eq_some_iff] at h
  obtain ⟨nameBytes, hname, desc, -, osVer, -, fields, hpack, hbody⟩ := h
  obtain ⟨name, hutf8, rfl⟩ := utf8_nul_terminated hname
  split at hbody
  · simp only [bind_eq_some_iff, Option.pure_def, Option.some.injEq] at hbody
    obtain ⟨sig, hsig, rfl⟩ := hbody
    exact ⟨name, desc, osVer, fields, sig, hutf8, hpack, hsig, rfl⟩
  · cases hbody

/-! ## Reading the header back -/

theorem u32_packed {data : Pointer} {fields : List (Nat × Int)}
    (hdata : data.bytes 0 bs.length = bs) (hpack : pack fields = some bs) {i : Nat} {v : Int}
    (hi : fields[i]? = some (4, v)) : data.u32 (fieldOffset fields i) = UInt32.ofNat v.toNat := by
  obtain ⟨-, -, pre, post, rfl, hpre⟩ := pack_field hpack hi
  have hfield := Pointer.bytes_of_append hdata
  rw [length_leBytes, hpre] at hfield
  apply UInt32.toNat_inj.mp
  rw [Pointer.u32, hfield, leNat_leBytes, UInt32.toNat_ofNat', UInt32.toNat_ofNat']
  exact Nat.mod_mod _ _

theorem readHeader_built {data : Pointer} {nameSize descSize : Nat}
    (hpack : pack (headerFields args nameSize descSize osVer) = some fields)
    (hdata : data.bytes 0 fields.length = fields) :
    readHeader data =
      { magic := Store.ajdrvMagic
        version := Store.ajdrvVersion
        arch := UInt32.ofNat (archCode args.arch).toNat
        codeOffset := UInt32.ofNat (64 + nameSize + descSize)
        codeSize := UInt32.ofNat args.code.length
        nameOffset := 64
        nameSize := UInt32.ofNat nameSize
        entryOffset := UInt32.ofNat args.entryOffset.toNat
        signatureOffset := UInt32.ofNat (64 + nameSize + descSize + args.code.length) } := by
  have hfield := fun i v => u32_packed (i := i) (v := v) hdata hpack
  simp only [readHeader, AjdrvHeader.mk.injEq]
  exact ⟨hfield 0 _ rfl, hfield 1 _ rfl, hfield 2 _ rfl, hfield 4 _ rfl, hfield 5 _ rfl,
    hfield 6 _ rfl, hfield 7 _ rfl, hfield 10 _ rfl, hfield 11 _ rfl⟩

/-! ## A package in the kernel's memory -/

def signedPart (pkg : List UInt8) : List UInt8 := pkg.take (pkg.length - sigSize)
def signaturePart (pkg : List UInt8) : List UInt8 := pkg.drop (pkg.length - sigSize)

structure InMemory (args : BuildArgs) (nameBytes pkg : List UInt8) (data : Pointer) : Prop where
  magic : (readHeader data).magic = Store.ajdrvMagic
  version : (readHeader data).version = Store.ajdrvVersion
  arch : (readHeader data).arch = UInt32.ofNat (archCode args.arch).toNat
  entry : (readHeader data).entryOffset = UInt32.ofNat args.entryOffset.toNat
  entryNonneg : 0 ≤ args.entryOffset
  headerEnd : 64 ≤ (readHeader data).nameOffset.toNat
  nameEnd : (readHeader data).nameOffset.toNat + (readHeader data).nameSize.toNat ≤
    (readHeader data).codeOffset.toNat
  codeSize : (readHeader data).codeSize.toNat = args.code.length
  codeEnd : (readHeader data).codeOffset.toNat + args.code.length =
    (readHeader data).signatureOffset.toNat
  sigEnd : (readHeader data).signatureOffset.toNat + 64 = pkg.length
  name : data.bytes (readHeader data).nameOffset.toNat nameBytes.length = nameBytes
  code : data.bytes (readHeader data).codeOffset.toNat args.code.length = args.code
  signed : data.bytes 0 (readHeader data).signatureOffset.toNat = signedPart pkg
  sig : data.bytes (readHeader data).signatureOffset.toNat 64 = signaturePart pkg

theorem inMemory_of_parts {data : Pointer} {nameBytes desc pkg : List UInt8}
    (hpack : pack (headerFields args nameBytes.length desc.length osVer) = some fields)
    (hsig : sig.length = 64)
    (hpkg : pkg = fields ++ replicate 8 0 ++ nameBytes ++ desc ++ args.code ++ sig)
    (hdata : data.bytes 0 pkg.length = pkg) : InMemory args nameBytes pkg data := by
  have hpart : ∀ pre mid post : List UInt8, pkg = pre ++ (mid ++ post) →
      data.bytes pre.length mid.length = mid := by
    intro pre mid post hcut
    rw [hcut] at hdata
    exact Pointer.bytes_of_append hdata
  have hfields : fields.length = 56 := by
    simp [length_pack hpack, headerFields, fieldOffset]
  have hlen : pkg.length = 64 + nameBytes.length + desc.length + args.code.length + 64 := by
    simp only [hpkg, length_append, length_replicate, hfields, hsig]
  have hheader := hpart [] fields (replicate 8 0 ++ nameBytes ++ desc ++ args.code ++ sig)
    (by simp only [hpkg, append_assoc, nil_append])
  have hname := hpart (fields ++ replicate 8 0) nameBytes (desc ++ args.code ++ sig)
    (by simp only [hpkg, append_assoc])
  have hcode := hpart (fields ++ replicate 8 0 ++ nameBytes ++ desc) args.code sig
    (by simp only [hpkg, append_assoc])
  have hsigned := hpart [] (fields ++ replicate 8 0 ++ nameBytes ++ desc ++ args.code) sig
    (by rw [hpkg, nil_append])
  have hsignature := hpart (fields ++ replicate 8 0 ++ nameBytes ++ desc ++ args.code) sig []
    (by rw [hpkg, append_nil])
  -- every offset is below that of the signature, which fits into its field
  obtain ⟨-, hfits, -⟩ := pack_field hpack (i := 11) rfl
  have hhdr := readHeader_built hpack hheader
  have htoNat : ∀ n, n ≤ 64 + nameBytes.length + desc.length + args.code.length →
      (UInt32.ofNat n).toNat = n := by
    intro n hn
    rw [toNat_ofNat']
    have hbound : 64 + nameBytes.length + desc.length + args.code.length < 256 ^ 4 := hfits
    omega
  have hnameOffset : (readHeader data).nameOffset.toNat = 64 := by rw [hhdr]; rfl
  have hnameSize : (readHeader data).nameSize.toNat = nameBytes.length := by
    rw [hhdr]
    exact htoNat _ (by omega)
  have hcodeOffset : (readHeader data).codeOffset.toNat =
      64 + nameBytes.length + desc.length := by
    rw [hhdr]
    exact htoNat _ (by omega)
  have hcodeSize : (readHeader data).codeSize.toNat = args.code.length := by
    rw [hhdr]
    exact htoNat _ (by omega)
  have hsigOffset : (readHeader data).signatureOffset.toNat =
      64 + nameBytes.length + desc.length + args.code.length := by
    rw [hhdr]
    exact htoNat _ (Nat.le_refl _)
  have hsignedLen : (fields ++ replicate 8 0 ++ nameBytes ++ desc ++ args.code).length =
      (readHeader data).signatureOffset.toNat := by
    simp only [length_append, length_replicate, hfields, hsigOffset]
  have hcut : pkg.length - sigSize =
      (fields ++ replicate 8 0 ++ nameBytes ++ desc ++ args.code).length := by
    rw [hsignedLen, hsigOffset, hlen, sigSize, Nat.add_sub_cancel]
  constructor
  case magic => rw [hhdr]
  case version => rw [hhdr]
  case arch => rw [hhdr]
  case entry => rw [hhdr]
  case entryNonneg => exact (pack_field hpack (i := 10) rfl).1
  case headerEnd => exact Nat.le_of_eq hnameOffset.symm
  case nameEnd => omega
  case codeSize => exact hcodeSize
  case codeEnd => rw [hcodeOffset, hsigOffset]
  case sigEnd => rw [hsigOffset, hlen]
  case name =>
    simpa only [length_append, length_replicate, hfields, hnameOffset] using hname
  case code =>
    simpa only [length_append, length_replicate, hfields, hcodeOffset] using hcode
  case signed =>
    rw [length_nil, hsignedLen] at hsigned
    rw [hsigned, signedPart, hcut, hpkg, take_left]
  case sig =>
    rw [hsignedLen, hsig] at hsignature
    rw [hsignature, signaturePart, hcut, hpkg, drop_left]

/-! ## Validation and loading -/

variable {nameBytes pkg : List UInt8} {data : Pointer}

section

variable (h : InMemory args nameBytes pkg data)
include h

theorem InMemory.toNat_size :
    (UInt64.ofNat pkg.length).toNat = pkg.length := by
  have hlt := (readHeader data).signatureOffset.toNat_lt
  have hend := h.sigEnd
  rw [UInt64.toNat_ofNat']
  omega

theorem InMemory.bounds : ¬ UInt64.ofNat pkg.length <
        ((readHeader data).codeOffset + (readHeader data).codeSize).toUInt64 ∧
      ¬ UInt64.ofNat pkg.length <
        ((readHeader data).nameOffset + (readHeader data).nameSize).toUInt64 ∧
      ¬ UInt64.ofNat pkg.length <
        ((readHeader data).signatureOffset + Store.ajdrvSignatureSize).toUInt64 := by
  have hname := h.nameEnd
  have hcode := h.codeEnd
  have hsig := h.sigEnd
  have h64 : Store.ajdrvSignatureSize.toNat = 64 := rfl
  simp only [UInt64.not_lt, UInt64.le_iff_toNat_le, UInt32.toNat_toUInt64, UInt32.toNat_add,
    h.toNat_size, h.codeSize, h64]
  omega

theorem InMemory.validate
    (hentry : args.entryOffset < args.code.length) :
    ajdrvValidateHeader (readHeader data) (UInt64.ofNat pkg.length) = 0 := by
  have hnonneg := h.entryNonneg
  obtain ⟨hcode, hname, hsig⟩ := h.bounds
  have hentry' : ¬ (readHeader data).codeSize ≤ (readHeader data).entryOffset := by
    rw [UInt32.not_le, UInt32.lt_iff_toNat_lt, h.codeSize, h.entry, UInt32.toNat_ofNat']
    omega
  have hversion : ¬ ((readHeader data).version = 0 ∨
      Store.ajdrvVersion < (readHeader data).version) := by
    rw [h.version]
    decide
  rw [ajdrvValidateHeader, if_neg (not_not.mpr h.magic), if_neg hversion, if_neg hcode,
    if_neg hname, if_neg hsig, if_neg hentry']

theorem InMemory.verifySignature
    (hentry : args.entryOffset < args.code.length) (ed25519Verify : Ed25519)
    (pubKey : Table UInt8 Store.ajdrvPubkeySize) :
    ajdrvVerifySignature ed25519Verify pubKey data (UInt64.ofNat pkg.length) =
      if ed25519Verify pubKey (signedPart pkg) (signaturePart pkg) ≠ 0 then .error else .ok := by
  have hsize : ¬ UInt64.ofNat pkg.length <
      (Store.ajdrvHeaderSize + Store.ajdrvSignatureSize).toUInt64 := by
    have hheader := h.headerEnd
    have hname := h.nameEnd
    have hcode := h.codeEnd
    have hsig := h.sigEnd
    have h128 : (Store.ajdrvHeaderSize + Store.ajdrvSignatureSize).toUInt64.toNat = 128 := rfl
    rw [UInt64.not_lt, UInt64.le_iff_toNat_le, h.toNat_size, h128]
    omega
  have h64 : Store.ajdrvSignatureSize.toNat = 64 := rfl
  rw [ajdrvVerifySignature, if_neg hsize, h.validate hentry, if_neg (by decide), h.signed, h64,
    h.sig]

end

section Load

open AlJefra.Kernel.DriverLoader

variable {Dev : Type}

theorem startDriver_calls_entry (env : LoadEnv Dev) (l : Loader Dev) (code : List UInt8)
    (entryOffset : UInt32) (dev : Dev) (before : List LoadEvent) :
    ∃ after, (startDriver env l code entryOffset dev before).events =
        before ++ .callEntry code entryOffset :: after ∧
      ∀ e ∈ after, e = .initDevice ∨ e = .free := by
  unfold startDriver
  cases env.run code entryOffset with
  | none => exact ⟨[.free], rfl, by simp⟩
  | some ops =>
    cases hops : ops.init with
    | none => exact ⟨[], by simp [hops], by simp⟩
    | some init =>
      by_cases hinit : init dev = .ok
      · exact ⟨[.initDevice], by simp [hops, hinit], by simp⟩
      · exact ⟨[.initDevice, .free], by simp [hops, hinit], by simp⟩

theorem InMemory.load (h : InMemory args nameBytes pkg data)
    (hentry : args.entryOffset < args.code.length) (ed25519Verify : Ed25519)
    (env : LoadEnv Dev) (l : Loader Dev) (dev : Dev)
    (harch : env.arch = UInt32.ofNat (archCode args.arch).toNat ∨ args.arch = .any)
    (hsigned : l.trusted.keySet = true →
      ed25519Verify l.trusted.key (signedPart pkg) (signaturePart pkg) = 0)
    (hmem : env.dmaAlloc (UInt64.ofNat args.code.length) = true) :
    driverLoadRuntime ed25519Verify env l data (UInt64.ofNat pkg.length) dev =
      startDriver env l args.code (UInt32.ofNat args.entryOffset.toNat) dev
        [.printName (readHeader data).nameOffset.toNat,
          .copyCode (readHeader data).codeOffset.toNat args.code] := by
  obtain ⟨hcode, hname, -⟩ := h.bounds
  have hsize : ¬ UInt64.ofNat pkg.length < Store.ajdrvHeaderSize.toUInt64 := by
    have hpkg := h.sigEnd
    have h64 : Store.ajdrvHeaderSize.toUInt64.toNat = 64 := rfl
    rw [UInt64.not_lt, UInt64.le_iff_toNat_le, h.toNat_size, h64]
    omega
  have hmatch : ¬ ((readHeader data).arch ≠ env.arch ∧ (readHeader data).arch ≠ 0xFF) := by
    rw [h.arch]
    rintro ⟨hne, hany⟩
    rcases harch with harch | harch
    · exact hne harch.symm
    · rw [harch] at hany
      exact hany rfl
  have hcodeSize : (readHeader data).codeSize.toUInt64 = UInt64.ofNat args.code.length := by
    apply UInt64.toNat_inj.mp
    have hlt := (readHeader data).codeSize.toNat_lt
    rw [h.codeSize] at hlt
    rw [toNat_toUInt64, h.codeSize, UInt64.toNat_ofNat', Nat.mod_eq_of_lt]
    omega
  have hverify : ajdrvVerify ed25519Verify l.trusted data (UInt64.ofNat pkg.length) = .ok ∨
      ajdrvVerify ed25519Verify l.trusted data (UInt64.ofNat pkg.length) = .notSupported := by
    unfold ajdrvVerify
    cases hset : l.trusted.keySet with
    | false => exact Or.inr rfl
    | true =>
      rw [if_pos rfl, h.verifySignature hentry, if_neg (not_not.mpr (hsigned hset))]
      exact Or.inl rfl
  have hbounds := not_or.mpr ⟨hcode, hname⟩
  simp only [driverLoadRuntime, if_neg hsize, if_neg (not_not.mpr h.magic), if_neg hmatch,
    if_neg hbounds]
  rcases hverify with hverify | hverify
  all_goals simp only [hverify, hcodeSize, hmem, if_true, h.codeSize, h.code, h.entry]

end Load

theorem exists_inMemory (h : buildAjdrv env args = some pkg)
    (hdata : data.bytes 0 pkg.length = pkg) :
    ∃ name, utf8 args.name = some name ∧ InMemory args (name ++ [0]) pkg data ∧
      signature env args.signingKeyPath (signedPart pkg) = some (signaturePart pkg) := by
  obtain ⟨name, desc, osVer, fields, sig, hname, hpack, hsig, hpkg⟩ := buildAjdrv_eq_some h
  refine ⟨name, hname, inMemory_of_parts hpack (length_signature hsig) hpkg hdata, ?_⟩
  have hcut : pkg.length - sigSize =
      (fields ++ replicate 8 0 ++ (name ++ [0]) ++ desc ++ args.code).length := by
    rw [hpkg, length_append, length_signature hsig, Nat.add_sub_cancel]
  rw [signedPart, signaturePart, hcut, hpkg, take_left, drop_left]
  exact hsig

open AlJefra.Kernel.DriverLoader in
/-- A package the builder produces has a valid header; a load that is not refused prints its name,
copies its code and calls the entry; signing and checking cover the same bytes. -/
theorem buildAjdrv_loads (env : BuildEnv) (args : BuildArgs) (pkg : List UInt8) (data : Pointer)
    (h : buildAjdrv env args = some pkg) (hname : ∀ c ∈ args.name, c.val ≠ 0)
    (hentry : args.entryOffset < args.code.length) (hdata : data.bytes 0 pkg.length = pkg) :
    ajdrvValidateHeader (readHeader data) (UInt64.ofNat pkg.length) = 0 ∧
    (∃ name, utf8 args.name = some name ∧
      data.IsCString (readHeader data).nameOffset.toNat name) ∧
    (∀ (Dev : Type) (ed25519Verify : Ed25519) (lenv : LoadEnv Dev) (l : Loader Dev) (dev : Dev),
      lenv.arch = UInt32.ofNat (archCode args.arch).toNat ∨ args.arch = .any →
      (l.trusted.keySet = true →
        ed25519Verify l.trusted.key (signedPart pkg) (signaturePart pkg) = 0) →
      lenv.dmaAlloc (UInt64.ofNat args.code.length) = true →
      ∃ after, (driverLoadRuntime ed25519Verify lenv l data (UInt64.ofNat pkg.length) dev).events =
          .printName (readHeader data).nameOffset.toNat ::
          .copyCode (readHeader data).codeOffset.toNat args.code ::
          .callEntry args.code (UInt32.ofNat args.entryOffset.toNat) :: after ∧
        ∀ e ∈ after, e = .initDevice ∨ e = .free) ∧
    (readHeader data).signatureOffset.toNat + 64 = pkg.length ∧
    signature env args.signingKeyPath (signedPart pkg) = some (signaturePart pkg) ∧
    ∀ (ed25519Verify : Ed25519) (pubKey : Table UInt8 Store.ajdrvPubkeySize),
      ajdrvVerifySignature ed25519Verify pubKey data (UInt64.ofNat pkg.length) =
        if ed25519Verify pubKey (signedPart pkg) (signaturePart pkg) ≠ 0 then .error else .ok := by
  obtain ⟨name, hutf8, hmem, hsigned⟩ := exists_inMemory h hdata
  refine ⟨hmem.validate hentry, ⟨name, hutf8, ?_, zero_not_mem_utf8 hname hutf8⟩, ?_, hmem.sigEnd,
    hsigned, hmem.verifySignature hentry⟩
  · simpa only [length_append, length_singleton] using hmem.name
  · intro Dev ed25519Verify lenv l dev harch hcheck halloc
    rw [hmem.load hentry ed25519Verify lenv l dev harch hcheck halloc]
    exact startDriver_calls_entry lenv l args.code _ dev _

/-! ## A package -/

def unsignedEnv : BuildEnv :=
  ⟨fun s => if s = [] then none else some 1, false, fun _ => none, fun _ _ => none⟩

def tinyArgs : BuildArgs where
  name := [⟨0x6E, by decide⟩, ⟨0x3B1, by decide⟩]
  description := []
  vendorId := 0x1AF4
  deviceId := 0x1000
  arch := .aarch64
  category := .network
  code := [0x90, 0xC3]
  entryOffset := 1
  minOsVersion := [⟨0x31, by decide⟩]

def tinyPackage : List UInt8 := (buildAjdrv unsignedEnv tinyArgs).getD []

open AlJefra.Kernel.DriverLoader in
theorem buildAjdrv_loads_tiny :
    buildAjdrv unsignedEnv tinyArgs = some tinyPackage ∧
      ∃ after, (driverLoadRuntime (fun _ _ _ => 0) ⟨1, fun _ => true, fun _ _ => some ⟨none⟩⟩
          ⟨[], ⟨Table.ofList 0 [], false⟩⟩ (pointerTo tinyPackage)
          (UInt64.ofNat tinyPackage.length) ()).events =
        .printName (readHeader (pointerTo tinyPackage)).nameOffset.toNat ::
        .copyCode (readHeader (pointerTo tinyPackage)).codeOffset.toNat [0x90, 0xC3] ::
        .callEntry [0x90, 0xC3] 1 :: after ∧ ∀ e ∈ after, e = .initDevice ∨ e = .free := by
  have hbuilt : buildAjdrv unsignedEnv tinyArgs = some tinyPackage := by decide +kernel
  have hname : ∀ c ∈ tinyArgs.name, c.val ≠ 0 := by
    simp only [tinyArgs, mem_cons, not_mem_nil, or_false]
    rintro c (rfl | rfl) <;> decide
  have hentry : tinyArgs.entryOffset < tinyArgs.code.length := by decide
  obtain ⟨-, -, hload, -⟩ := buildAjdrv_loads unsignedEnv tinyArgs tinyPackage
    (pointerTo tinyPackage) hbuilt hname hentry (bytes_pointerTo _)
  exact ⟨hbuilt, hload Unit (fun _ _ _ => 0) ⟨1, fun _ => true, fun _ _ => some ⟨none⟩⟩
    ⟨[], ⟨Table.ofList 0 [], false⟩⟩ () (Or.inl (by decide)) (fun hset => by cases hset) rfl⟩

end AlJefra.Server
