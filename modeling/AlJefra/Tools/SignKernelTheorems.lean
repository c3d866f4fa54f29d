/- Signing a kernel and verifying it. -/
import AlJefra.Tools.SignKernel

namespace AlJefra.Tools

open AlJefra.Lib List Option

variable {m : ModuleGlobals} {crypto : Crypto}

/-! ## The header -/

def Fits (m : ModuleGlobals) (kernelSize : Nat) : Prop :=
  0 ≤ m.ajkrnVersion ∧ m.ajkrnVersion < 0x100000000 ∧ kernelSize < 2 ^ 32

def sizeFields (m : ModuleGlobals) (kernelSize : Nat) : List UInt8 :=
  leBytes 4 ajkrnMagic.toNat ++ (leBytes 4 m.ajkrnVersion.toNat ++ leBytes 4 kernelSize)

def signedBytes (m : ModuleGlobals) (crypto : Crypto) (kernel : List UInt8) : List UInt8 :=
  sizeFields m kernel.length ++ leBytes 4 0 ++ crypto.sha512 kernel

def signedHeader (m : ModuleGlobals) (crypto : Crypto) (privateKey kernel : List UInt8) :
    List UInt8 :=
  signedBytes m crypto kernel ++ crypto.sign privateKey (signedBytes m crypto kernel)

theorem length_sizeFields (m : ModuleGlobals) (n : Nat) : (sizeFields m n).length = 12 := by
  simp [sizeFields, length_leBytes]

theorem length_signedBytes (m : ModuleGlobals) (crypto : Crypto) (kernel : List UInt8) :
    (signedBytes m crypto kernel).length = 80 := by
  simp [signedBytes, length_sizeFields, length_leBytes, crypto.length_sha512]

theorem length_signedHeader (m : ModuleGlobals) (crypto : Crypto) (key kernel : List UInt8) :
    (signedHeader m crypto key kernel).length = 144 := by
  simp [signedHeader, length_signedBytes, crypto.length_sign]

theorem packField_of_fits {v : Int} (h : 0 ≤ v ∧ v < 0x100000000) :
    packField 4 v = some (leBytes 4 v.toNat) := by
  have hlt : v.toNat < 256 ^ 4 := by omega
  rw [packField, if_pos ⟨h.1, hlt⟩]

variable {i j n : Nat} {body header kernel key part : List UInt8}

theorem pack_sizeFields (h : Fits m n) :
    pack [(4, ajkrnMagic), (4, m.ajkrnVersion), (4, (n : Int))] = some (sizeFields m n) := by
  obtain ⟨hnonneg, hversion, hsize⟩ := h
  have hmagic : packField 4 ajkrnMagic = some (leBytes 4 ajkrnMagic.toNat) := rfl
  have hn : packField 4 (n : Int) = some (leBytes 4 n) := packField_of_fits (by omega)
  simp [pack, hmagic, packField_of_fits ⟨hnonneg, hversion⟩, hn, sizeFields]

theorem pack_flags : pack [(4, 0)] = some (leBytes 4 0) := rfl

theorem pack_append_flags (h : Fits m n) :
    pack [(4, ajkrnMagic), (4, m.ajkrnVersion), (4, (n : Int)), (4, 0)]
      = some (sizeFields m n ++ leBytes 4 0) := by
  obtain ⟨hnonneg, hversion, hsize⟩ := h
  have hmagic : packField 4 ajkrnMagic = some (leBytes 4 ajkrnMagic.toNat) := rfl
  have hn : packField 4 (n : Int) = some (leBytes 4 n) := packField_of_fits (by omega)
  have hzero : packField 4 0 = some (leBytes 4 0) := rfl
  simp [pack, hmagic, packField_of_fits ⟨hnonneg, hversion⟩, hn, hzero, sizeFields]

theorem fits_of_pack {flags : Int} {bs : List UInt8}
    (h : pack [(4, ajkrnMagic), (4, m.ajkrnVersion), (4, (n : Int)), (4, flags)] = some bs) :
    Fits m n := by
  obtain ⟨hnonneg, hversion, -⟩ := pack_field h (i := 1) rfl
  obtain ⟨-, hsize, -⟩ := pack_field h (i := 2) rfl
  refine ⟨hnonneg, ?_, ?_⟩ <;> omega

/-! ## Signing -/

theorem packHeader_eq {digest signature : List UInt8} (h : Fits m n) (hdigest : digest.length = 64)
    (hsignature : signature.length = 64) :
    packHeader m n digest signature 0 = if m.asserts ∧ m.headerSize ≠ 144 then none
      else some (sizeFields m n ++ leBytes 4 0 ++ digest ++ signature) := by
  have hlength : (sizeFields m n ++ leBytes 4 0 ++ digest ++ signature).length = 144 := by
    simp [length_sizeFields, length_leBytes, hdigest, hsignature]
  simp only [packHeader, pack_sizeFields h, pack_flags, bind_eq_bind, bind_some,
    hlength, ne_comm (a := 144)]

theorem cmdSign_eq (h : Fits m kernel.length) (hlib : m.ed25519Available = true) :
    cmdSign m crypto kernel (some key) = if m.asserts ∧ m.headerSize ≠ 144 then none
      else some (some (signedHeader m crypto key kernel ++ kernel)) := by
  have hmessage : signedPart m kernel.length (crypto.sha512 kernel)
      = some (signedBytes m crypto kernel) := by
    simp [signedPart, pack_append_flags h, signedBytes]
  have hheader := packHeader_eq h (crypto.length_sha512 kernel)
    (crypto.length_sign key (signedBytes m crypto kernel))
  simp only [cmdSign, hlib, hmessage, hheader, Bool.not_true, Bool.false_eq_true, if_false,
    bind_eq_bind, bind_some]
  split <;> rfl

theorem fits_of_cmdSign {file : List UInt8}
    (h : cmdSign m crypto kernel (some key) = some (some file)) :
    m.ed25519Available = true ∧ Fits m kernel.length := by
  cases hlib : m.ed25519Available with
  | false => simp [cmdSign, hlib] at h
  | true =>
    simp only [cmdSign, hlib, signedPart, Bool.not_true, Bool.false_eq_true, if_false,
      bind_eq_bind, bind_eq_some_iff] at h
    obtain ⟨-, ⟨fields, hfields, -⟩, -⟩ := h
    exact ⟨rfl, fits_of_pack hfields⟩

/-! ## Verifying -/

theorem slice_append_left {front back : List UInt8} (h : j ≤ front.length) :
    slice (front ++ back) i j = slice front i j := by
  rw [slice, slice, drop_append, take_append]
  have hzero : j - i - (front.drop i).length = 0 := by
    rw [length_drop]
    omega
  rw [hzero, take_zero, append_nil]

theorem slice_middle {data : List UInt8} (front : List UInt8) (hdata : front ++ part <+: data)
    (hi : front.length = i) (hj : part.length = j - i) : slice data i j = part := by
  obtain ⟨back, rfl⟩ := hdata
  subst hi
  rw [slice, append_assoc, drop_left, ← hj, take_left]

theorem unpackHeader_signed (h : Fits m kernel.length)
    (hlength : m.headerSize ≤ 144 + body.length) :
    unpackHeader m (signedHeader m crypto key kernel ++ body) = some (some
      ⟨kernel.length, crypto.sha512 kernel, crypto.sign key (signedBytes m crypto kernel)⟩) := by
  have hlong : (signedHeader m crypto key kernel ++ body).length = 144 + body.length := by
    rw [length_append, length_signedHeader]
  have hmagic : slice (signedHeader m crypto key kernel ++ body) 0 4 = leBytes 4 ajkrnMagic.toNat :=
    slice_middle [] (by simp [signedHeader, signedBytes, sizeFields]) rfl (length_leBytes 4 _)
  have hsize : slice (signedHeader m crypto key kernel ++ body) 8 12 = leBytes 4 kernel.length :=
    slice_middle (leBytes 4 ajkrnMagic.toNat ++ leBytes 4 m.ajkrnVersion.toNat)
      (by simp [signedHeader, signedBytes, sizeFields]) (by simp [length_leBytes])
      (length_leBytes 4 _)
  have hdigest : slice (signedHeader m crypto key kernel ++ body) 16 80 = crypto.sha512 kernel :=
    slice_middle (sizeFields m kernel.length ++ leBytes 4 0)
      (by simp [signedHeader, signedBytes]) (by simp [length_sizeFields, length_leBytes])
      (crypto.length_sha512 kernel)
  have hsignature : slice (signedHeader m crypto key kernel ++ body) 80 144
      = crypto.sign key (signedBytes m crypto kernel) :=
    slice_middle (signedBytes m crypto kernel) (by simp [signedHeader])
      (length_signedBytes m crypto kernel) (crypto.length_sign key _)
  have hmagicNat : (leNat (leBytes 4 ajkrnMagic.toNat) : Int) = ajkrnMagic := by decide
  have hfits : kernel.length < 256 ^ 4 := h.2.2
  rw [unpackHeader, hlong, if_neg (by omega), if_neg (by omega), hmagic, hmagicNat,
    if_neg (fun hne => hne rfl), hsize, leNat_leBytes, Nat.mod_eq_of_lt hfits, hdigest,
    hsignature]

def kernelPart (m : ModuleGlobals) (file : List UInt8) (n : Nat) : List UInt8 :=
  slice file m.headerSize (m.headerSize + n)

def checkedPart (crypto : Crypto) (kernel part : List UInt8) : Option (List UInt8) :=
  if part.length = kernel.length ∧ crypto.sha512 part = crypto.sha512 kernel then some part
  else none

theorem checkedPart_self (crypto : Crypto) (kernel : List UInt8) :
    checkedPart crypto kernel kernel = some kernel := by
  simp [checkedPart]

theorem checkedPart_of_length (h : part.length ≠ kernel.length) :
    checkedPart crypto kernel part = none := by
  rw [checkedPart, if_neg (fun hboth => h hboth.1)]

theorem verifyBody_signed (keys : KeyPair crypto) (kernel body : List UInt8) :
    verifyBody m crypto (signedHeader m crypto keys.privateKey kernel ++ body)
        ⟨kernel.length, crypto.sha512 kernel,
          crypto.sign keys.privateKey (signedBytes m crypto kernel)⟩ (some keys.publicKey)
      = checkedPart crypto kernel
          (kernelPart m (signedHeader m crypto keys.privateKey kernel ++ body) kernel.length) := by
  have htake : (signedHeader m crypto keys.privateKey kernel ++ body).take 80
      = signedBytes m crypto kernel := by
    rw [signedHeader, append_assoc]
    exact take_left' (length_signedBytes m crypto kernel)
  simp only [verifyBody, kernelPart, htake, keys.verify_sign, if_true]
  generalize slice _ m.headerSize _ = part
  by_cases hlength : part.length = kernel.length
  · by_cases hhash : crypto.sha512 part = crypto.sha512 kernel
    · simp [checkedPart, hlength, hhash]
    · simp [checkedPart, hhash]
  · simp [checkedPart, hlength]

theorem cmdVerify_signed (keys : KeyPair crypto) (body : List UInt8) (h : Fits m kernel.length)
    (hlib : m.ed25519Available = true) (hne : kernel ≠ []) :
    cmdVerify m crypto (signedHeader m crypto keys.privateKey kernel ++ body) (some keys.publicKey)
      = some (checkedPart crypto kernel
          (kernelPart m (signedHeader m crypto keys.privateKey kernel ++ body) kernel.length)) := by
  by_cases hfile : m.headerSize ≤ 144 + body.length
  · simp only [cmdVerify, hlib, Bool.not_true, Bool.false_eq_true, if_false,
      unpackHeader_signed h hfile, map_some, bind_some, verifyBody_signed]
  · have hlong : (signedHeader m crypto keys.privateKey kernel ++ body).length
        = 144 + body.length := by
      rw [length_append, length_signedHeader]
    have hpart : (kernelPart m (signedHeader m crypto keys.privateKey kernel ++ body)
        kernel.length).length ≠ kernel.length := by
      have hpos : 0 < kernel.length := length_pos_of_ne_nil hne
      rw [kernelPart, slice, length_take, length_drop, hlong]
      omega
    rw [checkedPart_of_length hpart]
    simp only [cmdVerify, hlib, Bool.not_true, Bool.false_eq_true, if_false, unpackHeader, hlong,
      if_pos (Nat.lt_of_not_le hfile), map_some, bind_none]

/-! ## The round trip -/

/-- The signed file verifies and gives the kernel back, and one with another kernel is rejected. -/
def RoundTrip (m : ModuleGlobals) (crypto : Crypto) (keys : KeyPair crypto)
    (kernel : List UInt8) : Prop :=
  ∃ header,
    cmdSign m crypto kernel (some keys.privateKey) = some (some (header ++ kernel)) ∧
    cmdVerify m crypto (header ++ kernel) (some keys.publicKey) = some (some kernel) ∧
    ∀ changed : List UInt8, changed.length = kernel.length → changed ≠ kernel →
      cmdVerify m crypto (header ++ changed) (some keys.publicKey) = some none

theorem kernelPart_of_size (h : m.headerSize = header.length) :
    kernelPart m (header ++ body) body.length = body := by
  rw [kernelPart, slice, h, drop_left, Nat.add_sub_cancel_left, take_length]

theorem kernelPart_congr_last (front : List UInt8) (a b : UInt8)
    (h : m.headerSize < header.length) :
    kernelPart m (header ++ (front ++ [a])) (front ++ [a]).length
      = kernelPart m (header ++ (front ++ [b])) (front ++ [a]).length := by
  have hle : m.headerSize + (front ++ [a]).length ≤ (header ++ front).length := by
    simp only [length_append, length_singleton]
    omega
  rw [kernelPart, kernelPart, ← append_assoc, ← append_assoc, slice_append_left hle,
    slice_append_left hle]

theorem exists_ne_byte (b : UInt8) : ∃ c, c ≠ b := by
  by_cases h : b = 0
  · exact ⟨1, by rw [h]; decide⟩
  · exact ⟨0, fun hz => h hz.symm⟩

theorem headerSize_of_verify {keys : KeyPair crypto} (hne : kernel ≠ [])
    (hfits : Fits m kernel.length) (hlib : m.ed25519Available = true)
    (haccept : cmdVerify m crypto (signedHeader m crypto keys.privateKey kernel ++ kernel)
      (some keys.publicKey) = some (some kernel))
    (hreject : ∀ changed : List UInt8, changed.length = kernel.length → changed ≠ kernel →
      cmdVerify m crypto (signedHeader m crypto keys.privateKey kernel ++ changed)
        (some keys.publicKey) = some none) : m.headerSize = 144 := by
  have hheader := length_signedHeader m crypto keys.privateKey kernel
  rw [cmdVerify_signed keys kernel hfits hlib hne, Option.some.injEq] at haccept
  rcases Nat.lt_trichotomy m.headerSize 144 with hlt | heq | hgt
  · -- the last byte can be changed without `cmd_verify` seeing it
    obtain ⟨front, b, hkernel⟩ : ∃ front b, kernel = front ++ [b] :=
      ⟨_, _, (dropLast_append_getLast hne).symm⟩
    obtain ⟨c, hc⟩ := exists_ne_byte b
    have hlength : (front ++ [c]).length = kernel.length := by rw [hkernel]; simp
    have hchanged : front ++ [c] ≠ kernel := by rw [hkernel]; simpa using hc
    have hnone := hreject _ hlength hchanged
    rw [cmdVerify_signed keys _ hfits hlib hne, Option.some.injEq] at hnone
    rw [← hheader] at hlt
    have hsame := kernelPart_congr_last front c b hlt
    rw [hlength, ← hkernel] at hsame
    rw [hsame, haccept] at hnone
    cases hnone
  · exact heq
  · -- the file is too short
    have hshort : (kernelPart m (signedHeader m crypto keys.privateKey kernel ++ kernel)
        kernel.length).length ≠ kernel.length := by
      have hpos : 0 < kernel.length := length_pos_of_ne_nil hne
      rw [kernelPart, slice, length_take, length_drop, length_append, hheader]
      omega
    rw [checkedPart_of_length hshort] at haccept
    cases haccept

/-- With no other kernel of that length and hash, the round trip works exactly for a `HEADER_SIZE`
of 144 and numbers that fit. -/
theorem cmdSign_roundTrip_iff {keys : KeyPair crypto} {kernel : List UInt8} (hne : kernel ≠ [])
    (hcollision : ∀ other : List UInt8, other.length = kernel.length →
      crypto.sha512 other = crypto.sha512 kernel → other = kernel) :
    RoundTrip m crypto keys kernel ↔ m.ed25519Available = true ∧ m.headerSize = 144 ∧
      0 ≤ m.ajkrnVersion ∧ m.ajkrnVersion < 0x100000000 ∧ kernel.length < 2 ^ 32 := by
  constructor
  · rintro ⟨header, hsign, haccept, hreject⟩
    obtain ⟨hlib, hfits⟩ := fits_of_cmdSign hsign
    rw [cmdSign_eq hfits hlib] at hsign
    split at hsign
    · cases hsign
    have hheader : header = signedHeader m crypto keys.privateKey kernel := by
      simpa using hsign.symm
    subst hheader
    exact ⟨hlib, headerSize_of_verify hne hfits hlib haccept hreject, hfits⟩
  · rintro ⟨hlib, hsize, hfits⟩
    have hlen : m.headerSize = (signedHeader m crypto keys.privateKey kernel).length := by
      rw [length_signedHeader, hsize]
    refine ⟨signedHeader m crypto keys.privateKey kernel, ?_, ?_, ?_⟩
    · rw [cmdSign_eq hfits hlib, if_neg (fun hboth => hboth.2 hsize)]
    · rw [cmdVerify_signed keys _ hfits hlib hne, kernelPart_of_size hlen, checkedPart_self]
    · intro changed hlength hchanged
      rw [cmdVerify_signed keys _ hfits hlib hne, ← hlength, kernelPart_of_size hlen, checkedPart,
        if_neg (fun hboth => hchanged (hcollision changed hlength hboth.2))]

/-! ### The two cases -/

def toyCrypto : Crypto where
  sha512 data := List.replicate 64 (if data = [1] then 1 else 0)
  sign _ _ := List.replicate 64 7
  verify _ _ _ := true
  length_sha512 _ := length_replicate
  length_sign _ _ := length_replicate

def toyKeys : KeyPair toyCrypto := ⟨[2], [3], fun _ => rfl⟩

theorem cmdSign_roundTrip_toy : RoundTrip { headerSize := 144 } toyCrypto toyKeys [1] := by
  refine (cmdSign_roundTrip_iff (by decide) ?_).mpr (by decide)
  intro other _ hhash
  by_cases hone : other = [1]
  · exact hone
  · simp [toyCrypto, hone] at hhash

theorem cmdSign_asserts :
    cmdSign {} toyCrypto [1] (some toyKeys.privateKey) = none ∧
      ¬ RoundTrip {} toyCrypto toyKeys [1] := by
  have hfits : Fits {} [1].length := ⟨by decide, by decide, by decide⟩
  have hsign : cmdSign {} toyCrypto [1] (some toyKeys.privateKey) = none := cmdSign_eq hfits rfl
  refine ⟨hsign, ?_⟩
  rintro ⟨header, hok, -⟩
  rw [hsign] at hok
  cases hok

end AlJefra.Tools
