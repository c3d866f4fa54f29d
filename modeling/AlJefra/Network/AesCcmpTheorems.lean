/- The round trip of CCMP frames. -/
import AlJefra.Network.AesCcmp

namespace AlJefra.Network

open AlJefra.Lib AlJefra.Hal List

/-! ## CCM -/

section Ccm

variable (rk : List UInt32) (nonce : List UInt8)

theorem length_ccmKeystream (c : UInt16) : (ccmKeystream rk nonce c).length = aesBlockSize := rfl

theorem length_ccmCbcMac (aad data : List UInt8) :
    (ccmCbcMac rk nonce aad data).length = aesBlockSize := by
  have hc : ∀ b, (aes128EncryptBlock rk b).length = aesBlockSize := fun _ => rfl
  unfold ccmCbcMac
  split
  · exact length_cbcLoop hc (length_cbcLoop hc (hc _))
  · exact length_cbcLoop hc (hc _)

theorem length_ccmEncrypt (aad pt : List UInt8) :
    (ccmEncrypt rk nonce aad pt).length = pt.length + ccmpMicLen := by
  rw [ccmEncrypt, length_append,
    length_ctrLoop (by decide) (length_ccmKeystream rk nonce) (Nat.le_refl _), length_xorBytes,
    length_take, length_ccmCbcMac, length_ccmKeystream]
  rfl

def ccmMic (aad pt : List UInt8) : List UInt8 := (ccmCbcMac rk nonce aad pt).take ccmpMicLen

theorem length_ccmMic (aad pt : List UInt8) : (ccmMic rk nonce aad pt).length = ccmpMicLen := by
  rw [ccmMic, length_take, length_ccmCbcMac]
  rfl

theorem ccmDecrypt_ccmEncrypt (aad aad' pt : List UInt8) :
    ccmDecrypt rk nonce aad' (ccmEncrypt rk nonce aad pt)
      = (if ccmMic rk nonce aad pt = ccmMic rk nonce aad' pt then .ok else .error, pt) := by
  have hks := length_ccmKeystream rk nonce
  have hctr : (ctrLoop aesBlockSize (ccmKeystream rk nonce) pt.length 1 pt).length = pt.length :=
    length_ctrLoop (by decide) hks (Nat.le_refl _)
  have hlen := length_ccmEncrypt rk nonce aad pt
  have hpt : (ccmEncrypt rk nonce aad pt).length - ccmpMicLen = pt.length := by omega
  have htake : (ccmEncrypt rk nonce aad pt).take pt.length
      = ctrLoop aesBlockSize (ccmKeystream rk nonce) pt.length 1 pt := take_left' hctr
  have hdrop : (ccmEncrypt rk nonce aad pt).drop pt.length
      = xorBytes (ccmMic rk nonce aad pt) (ccmKeystream rk nonce 0) := drop_left' hctr
  have hmic : xorBytes (xorBytes (ccmMic rk nonce aad pt) (ccmKeystream rk nonce 0))
      (ccmKeystream rk nonce 0) = ccmMic rk nonce aad pt := by
    refine xorBytes_xorBytes ?_
    rw [length_ccmMic, hks]
    decide
  unfold ccmDecrypt
  rw [if_neg (by omega)]
  dsimp only
  rw [hpt, htake, hdrop, hmic, ctrLoop_ctrLoop (by decide) hks (Nat.le_refl _)]
  change (if diffBytes (ccmMic rk nonce aad pt) (ccmMic rk nonce aad' pt) = 0 then _ else _, pt) = _
  simp only [diffBytes_eq_zero_iff ((length_ccmMic rk nonce aad pt).trans
    (length_ccmMic rk nonce aad' pt).symm)]

theorem ccmCbcMac_eq_ccmChain {aad : List UInt8} (hne : aad ≠ []) (hlen : aad.length ≤ 65279)
    (data : List UInt8) :
    ccmCbcMac rk nonce aad data = ccmChain (aes128EncryptBlock rk) ccmpMicLen 2 nonce aad data := by
  have haad : aadLength aad.length = [UInt8.ofNat (aad.length >>> 8), UInt8.ofNat aad.length] := by
    rw [aadLength, if_pos (by omega), Nat.shiftRight_eq_div_pow]
    rfl
  have hb0 : ccmFirst ccmpMicLen 2 nonce aad data
      = [ccmFlagsB0] ++ nonce ++ [UInt8.ofNat (data.length >>> 8), UInt8.ofNat data.length] := by
    rw [ccmFirst, if_neg hne, Nat.shiftRight_eq_div_pow]
    rfl
  -- the length and the first 14 bytes are the first block of both together
  have htake : (aadLength aad.length ++ aad).take 16 = aadLength aad.length ++ aad.take 14 := by
    rw [haad]
    rfl
  have hdrop : (aadLength aad.length ++ aad).drop 16 = aad.drop 14 := by
    rw [haad]
    rfl
  unfold ccmCbcMac
  dsimp only
  rw [if_pos (length_pos_iff.mpr hne), ← hb0, ← haad,
    cbcLoop_eq_foldl (by decide) _ (Nat.le_refl _),
    cbcLoop_eq_foldl (by decide) _ (by rw [length_drop]; omega), ccmChain, ccmBlocks,
    if_neg hne, foldl_append, padBlocks_cons (by decide) (append_ne_nil_of_right_ne_nil _ hne),
    foldl_cons, htake, hdrop, xorBytes_comm]

theorem ccmKeystream_eq_ccmStream (i : Nat) :
    ccmKeystream rk nonce (UInt16.ofNat i) = ccmStream (aes128EncryptBlock rk) 2 nonce i := by
  have hhigh : (UInt16.ofNat i >>> 8).toUInt8 = UInt8.ofNat (i / 256) := by
    refine UInt8.toNat_inj.mp ?_
    simp [Nat.shiftRight_eq_div_pow]
    omega
  have hlow : (UInt16.ofNat i).toUInt8 = UInt8.ofNat i := by
    refine UInt8.toNat_inj.mp ?_
    simp
  rw [ccmKeystream, ccmCtrBlock, hhigh, hlow]
  rfl

theorem ccmEncrypt_eq_ccm {aad : List UInt8} (hne : aad ≠ []) (hlen : aad.length ≤ 65279)
    (pt : List UInt8) :
    ccmEncrypt rk nonce aad pt = ccm (aes128EncryptBlock rk) ccmpMicLen 2 nonce aad pt := by
  have htext : ctrLoop aesBlockSize (ccmKeystream rk nonce) pt.length 1 pt = xorBytes pt
      ((range ((pt.length + 15) / 16)).flatMap fun i =>
        ccmStream (aes128EncryptBlock rk) 2 nonce (i + 1)) := by
    refine (ctrLoop_eq_xorBytes (c := 1) (by decide) (length_ccmKeystream rk nonce)
      (Nat.le_refl _)).trans ?_
    simp only [ccmKeystream_eq_ccmStream, add_comm 1]
    rfl
  have hzero : ccmKeystream rk nonce 0 = ccmStream (aes128EncryptBlock rk) 2 nonce 0 :=
    ccmKeystream_eq_ccmStream rk nonce 0
  rw [ccmEncrypt, htext, hzero, ccmCbcMac_eq_ccmChain rk nonce hne hlen, xorBytes_take, ccm]

end Ccm

/-- `ccm_encrypt` is CCM with a tag of 8 bytes, and `ccm_decrypt` gives its text back. -/
theorem ccmEncrypt_ccmDecrypt (key : Table UInt8 aesKeySize) (nonce : Table UInt8 ccmpNonceLen)
    (aad pt : List UInt8) (hpos : 1 ≤ aad.length) (hlen : aad.length ≤ 65279) :
    ccmEncrypt (aes128Init key) nonce.slots aad pt
        = ccm (aes128EncryptBlock (aes128Init key)) ccmpMicLen 2 nonce.slots aad pt ∧
      ccmDecrypt (aes128Init key) nonce.slots aad (ccmEncrypt (aes128Init key) nonce.slots aad pt)
        = (.ok, pt) := by
  refine ⟨ccmEncrypt_eq_ccm _ _ (length_pos_iff.mp hpos) hlen pt, ?_⟩
  rw [ccmDecrypt_ccmEncrypt, if_pos rfl]

theorem ccmEncrypt_ccmDecrypt_one :
    ccmDecrypt (aes128Init ⟨List.replicate 16 1, rfl⟩) (List.replicate 13 2) [3]
      (ccm (aes128EncryptBlock (aes128Init ⟨List.replicate 16 1, rfl⟩)) 8 2
        (List.replicate 13 2) [3]
        [4]) = (.ok, [4]) := by
  obtain ⟨henc, hdec⟩ := ccmEncrypt_ccmDecrypt ⟨List.replicate 16 1, rfl⟩
    ⟨List.replicate 13 2, rfl⟩ [3] [4] (by decide) (by decide)
  rw [henc] at hdec
  exact hdec

/-! ## Two frames with one header -/

structure SameHeader (h : Nat) (a b : List UInt8) : Prop where
  frameControl : byteAt a 1 &&& 0xC7 = byteAt b 1 &&& 0xC7
  fragment : byteAt a 22 &&& 0x0F = byteAt b 22 &&& 0x0F
  other : ∀ i < h, i = 0 ∨ 4 ≤ i ∧ i < 22 ∨ 24 ≤ i → a[i]? = b[i]?

section Header

variable {a b : List UInt8} {h i : Nat}

theorem byteAt_eq (hab : a[i]? = b[i]?) : byteAt a i = byteAt b i := by
  simp only [byteAt, getD_eq_getElem?_getD, hab]

theorem getElem?_of_take (hab : a.take h = b.take h) (hi : i < h) : a[i]? = b[i]? := by
  rw [← getElem?_take_of_lt hi, hab, getElem?_take_of_lt hi]

theorem sameHeader_of_take (hab : a.take h = b.take h) (hh : 24 ≤ h) : SameHeader h a b where
  frameControl := by rw [byteAt_eq (getElem?_of_take hab (by omega))]
  fragment := by rw [byteAt_eq (getElem?_of_take hab (by omega))]
  other := fun _ hi _ => getElem?_of_take hab hi

theorem SameHeader.slice (hs : SameHeader h a b) {o n : Nat} (hon : o + n ≤ h)
    (ho : 4 ≤ o ∧ o + n ≤ 22 ∨ 24 ≤ o) : (a.drop o).take n = (b.drop o).take n := by
  refine ext_getElem? fun i => ?_
  simp only [getElem?_take, getElem?_drop]
  split
  · exact hs.other _ (by omega) (by omega)
  · rfl

theorem SameHeader.fourAddress (hs : SameHeader h a b) : fourAddress a = fourAddress b := by
  have hbits : ∀ x : BitVec 8, x &&& 0x03 = x &&& 0xC7 &&& 0x03 := by decide
  have hmask : ∀ x : UInt8, x &&& 0x03 = x &&& 0xC7 &&& 0x03 := fun x =>
    UInt8.toBitVec_inj.mp (hbits x.toBitVec)
  rw [Network.fourAddress, Network.fourAddress, hmask, hmask (byteAt b 1), hs.frameControl]

theorem SameHeader.isQos (hs : SameHeader h a b) (hh : 24 ≤ h) : isQos a = isQos b := by
  rw [Network.isQos, Network.isQos, byteAt_eq (hs.other 0 (by omega) (.inl rfl))]

theorem SameHeader.qosOffset (hs : SameHeader h a b) : qosOffset a = qosOffset b := by
  rw [Network.qosOffset, Network.qosOffset, hs.fourAddress]

theorem le_qosOffset (f : List UInt8) : 24 ≤ qosOffset f := by
  unfold qosOffset
  split <;> omega

theorem SameHeader.ccmpMacHdrLen (hs : SameHeader h a b) (hh : 24 ≤ h) :
    ccmpMacHdrLen a = ccmpMacHdrLen b := by
  rw [Network.ccmpMacHdrLen, Network.ccmpMacHdrLen, hs.fourAddress, hs.isQos hh]

theorem SameHeader.ccmpBuildAad (hs : SameHeader h a b) (hh : 24 ≤ h) :
    ccmpBuildAad a h = ccmpBuildAad b h := by
  have h4 : (if Network.fourAddress a ∧ 30 ≤ h then (a.drop 24).take 6 else [])
      = if Network.fourAddress b ∧ 30 ≤ h then (b.drop 24).take 6 else [] := by
    rw [hs.fourAddress]
    split
    · next hc => exact hs.slice (by omega) (by omega)
    · rfl
  have hq : (if Network.isQos a ∧ Network.qosOffset a + 1 < h then
        [byteAt a (Network.qosOffset a) &&& 0x0F, 0] else [])
      = if Network.isQos b ∧ Network.qosOffset b + 1 < h then
        [byteAt b (Network.qosOffset b) &&& 0x0F, 0] else [] := by
    have hoff := le_qosOffset b
    rw [hs.isQos hh, hs.qosOffset]
    split
    · next hc => rw [byteAt_eq (hs.other _ (by omega) (.inr (.inr hoff)))]
    · rfl
  have hlen : ¬ h < 24 := by omega
  unfold Network.ccmpBuildAad
  rw [if_neg hlen, if_neg hlen, h4, hq, hs.slice (by omega) (by omega), hs.frameControl,
    hs.fragment, byteAt_eq (hs.other 0 (by omega) (.inl rfl))]

end Header

theorem le_ccmpMacHdrLen (f : List UInt8) : 24 ≤ ccmpMacHdrLen f := by
  unfold ccmpMacHdrLen
  omega

variable {f : List UInt8}

theorem qosOffset_lt (hq : isQos f = true) : qosOffset f < ccmpMacHdrLen f := by
  unfold qosOffset ccmpMacHdrLen
  split <;> simp

theorem framePriority_congr {a b : List UInt8} (ha : ccmpMacHdrLen a ≤ a.length)
    (hb : ccmpMacHdrLen a ≤ b.length) (hab : a.take (ccmpMacHdrLen a) = b.take (ccmpMacHdrLen a)) :
    framePriority a = framePriority b := by
  have hh := le_ccmpMacHdrLen a
  have hs := sameHeader_of_take hab hh
  unfold framePriority
  rw [← hs.isQos hh, ← hs.qosOffset]
  by_cases hq : isQos a = true
  · have hlt := qosOffset_lt hq
    rw [if_pos ⟨hq, by omega⟩, if_pos ⟨hq, by omega⟩,
      byteAt_eq (hs.other _ hlt (.inr (.inr (le_qosOffset a))))]
  · rw [if_neg (fun hc => hq hc.1), if_neg (fun hc => hq hc.1)]

/-! ## The Protected bit -/

def setProtected (f : List UInt8) : List UInt8 := f.modify 1 (· ||| 0x40)

theorem byteAt_setProtected_of_ne {i : Nat} (hi : i ≠ 1) :
    byteAt (setProtected f) i = byteAt f i := by
  rw [byteAt, byteAt, getD_eq_getElem?_getD, getD_eq_getElem?_getD, setProtected,
    getElem?_modify_ne _ _ (Ne.symm hi)]

theorem byteAt_setProtected_one (hf : 1 < f.length) :
    byteAt (setProtected f) 1 = byteAt f 1 ||| 0x40 := by
  rw [byteAt, byteAt, getD_eq_getElem?_getD, getD_eq_getElem?_getD, setProtected,
    getElem?_modify_eq, getElem?_eq_getElem hf]
  rfl

theorem fourAddress_setProtected (hf : 1 < f.length) :
    fourAddress (setProtected f) = fourAddress f := by
  have hbits : ∀ x : BitVec 8, (x ||| 0x40) &&& 0x03 = x &&& 0x03 := by decide
  have hb : (byteAt f 1 ||| 0x40) &&& 0x03 = byteAt f 1 &&& 0x03 :=
    UInt8.toBitVec_inj.mp (hbits (byteAt f 1).toBitVec)
  rw [fourAddress, fourAddress, byteAt_setProtected_one hf, hb]

theorem isQos_setProtected (f : List UInt8) : isQos (setProtected f) = isQos f := by
  rw [isQos, isQos, byteAt_setProtected_of_ne (by decide)]

theorem ccmpMacHdrLen_setProtected (hf : 1 < f.length) :
    ccmpMacHdrLen (setProtected f) = ccmpMacHdrLen f := by
  rw [ccmpMacHdrLen, ccmpMacHdrLen, fourAddress_setProtected hf, isQos_setProtected]

theorem framePriority_setProtected (hf : 1 < f.length) :
    framePriority (setProtected f) = framePriority f := by
  have hq : qosOffset (setProtected f) = qosOffset f := by
    rw [qosOffset, qosOffset, fourAddress_setProtected hf]
  have hne : qosOffset f ≠ 1 := by
    unfold qosOffset
    split <;> decide
  rw [framePriority, framePriority, isQos_setProtected, hq, byteAt_setProtected_of_ne hne]
  unfold setProtected
  rw [length_modify]

theorem addr2_setProtected (f : List UInt8) : addr2 (setProtected f) = addr2 f := by
  rw [addr2, addr2, setProtected, drop_modify_of_lt _ _ _ _ (by decide)]

theorem clear_setProtected (hp : byteAt f 1 &&& 0x40 = 0) :
    (setProtected f).modify 1 (· &&& ~~~0x40) = f := by
  have hbits : ∀ x : BitVec 8, x &&& 0x40 = 0 → (x ||| 0x40) &&& ~~~0x40 = x := by decide
  match f, hp with
  | [], _ => rfl
  | [_], _ => rfl
  | x :: y :: l, hp =>
    have hy : (y ||| 0x40) &&& ~~~0x40 = y :=
      UInt8.toBitVec_inj.mp (hbits y.toBitVec (UInt8.toBitVec_inj.mpr hp))
    change x :: ((y ||| 0x40) &&& ~~~0x40) :: l = x :: y :: l
    rw [hy]

theorem ccmpParseHdr_ccmpBuildHdr (pn : Table UInt8 ccmpPnLen) (keyId : UInt8)
    (rest : List UInt8) : (ccmpParseHdr (ccmpBuildHdr pn keyId ++ rest)).1 = pn := by
  obtain ⟨l, hl⟩ := pn
  match l, hl with
  | [_, _, _, _, _, _], _ => rfl

/-! ## The round trip -/

def sealFrame (tk : Table UInt8 aesKeySize) (f : List UInt8) (pn : Table UInt8 ccmpPnLen)
    (aad : List UInt8) : List UInt8 :=
  (setProtected f).take (ccmpMacHdrLen f) ++ (ccmpBuildHdr pn 0 ++
    ccmEncrypt (aes128Init tk) (ccmpBuildNonce (framePriority f) (addr2 f) pn) aad
      (f.drop (ccmpMacHdrLen f)))

def protectedFrame (tk : Table UInt8 aesKeySize) (f : List UInt8) (pn : Table UInt8 ccmpPnLen) :
    List UInt8 :=
  sealFrame tk f pn (ccmpBuildAad f (ccmpMacHdrLen f))

section RoundTrip

variable {f : List UInt8} (tk : Table UInt8 aesKeySize) (pn : Table UInt8 ccmpPnLen)
  (aad : List UInt8)

theorem length_ccmpBuildHdr (keyId : UInt8) : (ccmpBuildHdr pn keyId).length = ccmpHdrLen := rfl

section

variable (hlen : ccmpMacHdrLen f ≤ f.length)
include hlen

theorem length_header :
    ((setProtected f).take (ccmpMacHdrLen f)).length = ccmpMacHdrLen f := by
  rw [length_take, setProtected, length_modify]
  omega

theorem length_sealFrame : (sealFrame tk f pn aad).length
      = ccmpMacHdrLen f + ccmpHdrLen + (f.length - ccmpMacHdrLen f) + ccmpMicLen := by
  rw [sealFrame, length_append, length_append, length_header hlen,
    length_ccmpBuildHdr, length_ccmEncrypt, length_drop]
  omega

theorem ccmpEncryptFrame_eq : ccmpEncryptFrame tk f pn
      = ⟨.ok, protectedFrame tk f pn, some (protectedFrame tk f pn).length⟩ := by
  rw [protectedFrame, length_sealFrame tk pn _ hlen, sealFrame, setProtected, take_modify,
    ← append_assoc]
  unfold ccmpEncryptFrame
  rw [if_neg (by omega)]

theorem take_sealFrame : (setProtected f).take (ccmpMacHdrLen f)
      = (sealFrame tk f pn aad).take (ccmpMacHdrLen f) :=
  (take_left' (length_header hlen)).symm

theorem drop_sealFrame :
    (sealFrame tk f pn aad).drop (ccmpMacHdrLen f) = ccmpBuildHdr pn 0 ++
      ccmEncrypt (aes128Init tk) (ccmpBuildNonce (framePriority f) (addr2 f) pn) aad
        (f.drop (ccmpMacHdrLen f)) :=
  drop_left' (length_header hlen)

theorem ccmpMacHdrLen_sealFrame :
    ccmpMacHdrLen (sealFrame tk f pn aad) = ccmpMacHdrLen f := by
  have hh := le_ccmpMacHdrLen f
  rw [← ccmpMacHdrLen_setProtected (f := f) (by omega)]
  exact ((sameHeader_of_take (take_sealFrame tk pn aad hlen) hh).ccmpMacHdrLen hh).symm

theorem ccmpDecryptFrame_sealFrame
    (hp : byteAt f 1 &&& 0x40 = 0) :
    ccmpDecryptFrame tk (sealFrame tk f pn aad)
      = if ccmMic (aes128Init tk) (ccmpBuildNonce (framePriority f) (addr2 f) pn) aad
            (f.drop (ccmpMacHdrLen f))
          = ccmMic (aes128Init tk) (ccmpBuildNonce (framePriority f) (addr2 f) pn)
            (ccmpBuildAad (setProtected f) (ccmpMacHdrLen f)) (f.drop (ccmpMacHdrLen f))
        then ⟨.ok, f, some f.length⟩ else ⟨.error, f, some 0⟩ := by
  have hh := le_ccmpMacHdrLen f
  have hf : 1 < f.length := by omega
  have hphdr := ccmpMacHdrLen_setProtected hf
  have hlenp : (setProtected f).length = f.length := length_modify ..
  have hc := take_sealFrame tk pn aad hlen
  have hlenc := length_sealFrame tk pn aad hlen
  have hdrop := drop_sealFrame tk pn aad hlen
  have hct : (sealFrame tk f pn aad).drop (ccmpMacHdrLen f + ccmpHdrLen)
      = ccmEncrypt (aes128Init tk) (ccmpBuildNonce (framePriority f) (addr2 f) pn) aad
        (f.drop (ccmpMacHdrLen f)) := by
    rw [← drop_drop, hdrop]
    exact drop_left' (length_ccmpBuildHdr pn 0)
  have hprio : framePriority (sealFrame tk f pn aad) = framePriority f := by
    rw [← framePriority_setProtected hf]
    refine (framePriority_congr ?_ ?_ ?_).symm
    · omega
    · omega
    · rw [hphdr, hc]
  have haddr : addr2 (sealFrame tk f pn aad) = addr2 f := by
    rw [← addr2_setProtected f]
    exact ((sameHeader_of_take hc hh).slice (by omega) (by omega)).symm
  have haad : ccmpBuildAad (sealFrame tk f pn aad) (ccmpMacHdrLen f)
      = ccmpBuildAad (setProtected f) (ccmpMacHdrLen f) :=
    ((sameHeader_of_take hc hh).ccmpBuildAad hh).symm
  have hclear : ((sealFrame tk f pn aad).take (ccmpMacHdrLen f)).modify 1 (· &&& ~~~0x40)
      = f.take (ccmpMacHdrLen f) := by
    rw [← hc, ← take_modify, clear_setProtected hp]
  unfold ccmpDecryptFrame
  rw [ccmpMacHdrLen_sealFrame tk pn aad hlen, if_neg (by omega)]
  dsimp only
  rw [hprio, haddr, haad, hdrop, ccmpParseHdr_ccmpBuildHdr, hct, ccmDecrypt_ccmEncrypt, hclear,
    hlenc]
  rw [take_append_drop]
  split
  · simp only [if_true]
    congr 2
    omega
  · rfl

end

end RoundTrip

/-- A frame comes back exactly when two CBC-MACs over its payload agree on eight bytes: over the AAD
with the Protected bit clear, and set. -/
theorem ccmpDecryptFrame_ccmpEncryptFrame_iff (tk : Table UInt8 aesKeySize)
    (pn : Table UInt8 ccmpPnLen) (f : List UInt8) (hlen : ccmpMacHdrLen f ≤ f.length)
    (hp : byteAt f 1 &&& 0x40 = 0) :
    (ccmpEncryptFrame tk f pn).status = .ok ∧
    (ccmpDecryptFrame tk (ccmpEncryptFrame tk f pn).out = ⟨.ok, f, some f.length⟩ ↔
      ccmMic (aes128Init tk) (ccmpBuildNonce (framePriority f) (addr2 f) pn)
          (ccmpBuildAad f (ccmpMacHdrLen f)) (f.drop (ccmpMacHdrLen f))
        = ccmMic (aes128Init tk) (ccmpBuildNonce (framePriority f) (addr2 f) pn)
          (ccmpBuildAad (setProtected f) (ccmpMacHdrLen f)) (f.drop (ccmpMacHdrLen f))) := by
  rw [ccmpEncryptFrame_eq tk pn hlen]
  refine ⟨rfl, ?_⟩
  rw [protectedFrame, ccmpDecryptFrame_sealFrame tk pn _ hlen hp]
  split <;> next hmic => simp [hmic]

def someTk : Table UInt8 aesKeySize := ⟨(List.range 16).map UInt8.ofNat, rfl⟩
def somePn : Table UInt8 ccmpPnLen := ⟨[1, 0, 0, 0, 0, 0], rfl⟩
def qosFrame : List UInt8 := [0x88, 0x03] ++ List.replicate 30 0 ++ [0x2A]

theorem ccmpDecryptFrame_ccmpEncryptFrame_qos :
    (ccmpEncryptFrame someTk qosFrame somePn).status = .ok ∧
      ccmpDecryptFrame someTk (ccmpEncryptFrame someTk qosFrame somePn).out
        ≠ ⟨.ok, qosFrame, some qosFrame.length⟩ :=
  have h := ccmpDecryptFrame_ccmpEncryptFrame_iff someTk somePn qosFrame (by decide) (by decide)
  ⟨h.1, fun heq => absurd (h.2.mp heq) (by decide +kernel)⟩

def emptyDataFrame : List UInt8 := 0x08 :: List.replicate 23 0

theorem ccmpDecryptFrame_rejects_own_frame :
    (ccmpEncryptFrame someTk emptyDataFrame somePn).status = .ok ∧
      ccmpDecryptFrame someTk (ccmpEncryptFrame someTk emptyDataFrame somePn).out
        = ⟨.error, emptyDataFrame, some 0⟩ := by
  decide +kernel

/-! ## Frames sent again -/

def Resent (f g : List UInt8) : Prop := f.length = g.length ∧ ∀ h, SameHeader h f g

/-- A frame that is sent again is accepted like the first one, and gives
the same bytes behind its header. -/
theorem ccmpDecryptFrame_resent (tk : Table UInt8 aesKeySize) (f g : List UInt8)
    (h : Resent f g) :
    (ccmpDecryptFrame tk g).status = (ccmpDecryptFrame tk f).status ∧
      (ccmpDecryptFrame tk g).outLen = (ccmpDecryptFrame tk f).outLen ∧
      (ccmpDecryptFrame tk g).out.drop (ccmpMacHdrLen g)
        = (ccmpDecryptFrame tk f).out.drop (ccmpMacHdrLen f) := by
  obtain ⟨hlen, hs⟩ := h
  have hh := le_ccmpMacHdrLen f
  have hhdr : ccmpMacHdrLen f = ccmpMacHdrLen g := (hs 24).ccmpMacHdrLen (Nat.le_refl _)
  have hbody : ∀ {o}, 24 ≤ o → f.drop o = g.drop o := by
    intro o ho
    refine ext_getElem? fun i => ?_
    simp only [getElem?_drop]
    exact (hs (o + i + 1)).other _ (by omega) (.inr (.inr (by omega)))
  have hprio : framePriority f = framePriority g := by
    have hoff := le_qosOffset g
    rw [framePriority, framePriority, (hs 24).isQos (Nat.le_refl _), (hs 24).qosOffset, hlen,
      byteAt_eq ((hs (qosOffset g + 1)).other _ (Nat.lt_succ_self _) (.inr (.inr hoff)))]
  have haddr : addr2 f = addr2 g := (hs 24).slice (by omega) (by omega)
  have haad := (hs (ccmpMacHdrLen f)).ccmpBuildAad hh
  unfold ccmpDecryptFrame
  dsimp only
  rw [← hhdr, ← hlen, ← hprio, ← haddr, ← haad, ← hbody hh, ← hbody (by omega)]
  split
  · exact ⟨rfl, rfl, rfl⟩
  · next hshort =>
    have hcut : ∀ (l : List UInt8) (s : List UInt8), l.length = f.length →
        ((l.take (ccmpMacHdrLen f)).modify 1 (· &&& ~~~0x40) ++ s).drop (ccmpMacHdrLen f) = s := by
      intro l s hl
      refine drop_left' ?_
      rw [length_modify, length_take]
      omega
    dsimp only
    rw [hcut g _ hlen.symm, hcut f _ rfl]
    exact ⟨rfl, rfl, rfl⟩

def sentFrame : List UInt8 :=
  sealFrame someTk emptyDataFrame somePn (ccmpBuildAad (setProtected emptyDataFrame) 24)

def sentAgain : List UInt8 := (sentFrame.set 1 0x48).set 22 0x10

theorem ccmpDecryptFrame_resent_retry : (ccmpDecryptFrame someTk sentFrame).status = .ok ∧
    (ccmpDecryptFrame someTk sentAgain).status = .ok := by
  have hok : (ccmpDecryptFrame someTk sentFrame).status = .ok := by decide +kernel
  have hbits : byteAt sentFrame 1 &&& 0xC7 = byteAt sentAgain 1 &&& 0xC7 ∧
      byteAt sentFrame 22 &&& 0x0F = byteAt sentAgain 22 &&& 0x0F := by decide +kernel
  refine ⟨hok, (ccmpDecryptFrame_resent someTk sentFrame sentAgain ⟨by simp [sentAgain], fun h =>
    ⟨hbits.1, hbits.2, fun i _ hi => ?_⟩⟩).1.trans hok⟩
  rw [sentAgain, getElem?_set_ne (by omega), getElem?_set_ne (by omega)]

end AlJefra.Network
