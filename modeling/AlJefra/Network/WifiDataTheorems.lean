/-
The data path of the station: which frames are delivered, and that packet numbers grow. Both hold up
to unprotected frames, frames with four addresses and an `rx_pn` that a new key does not reset.
-/
import AlJefra.Network.AesCcmpTheorems
import AlJefra.Network.WifiTheorems

namespace AlJefra.Network

open AlJefra.Lib AlJefra.Hal List Option

/-! ## Fields of the frame control -/

theorem le16_field (a b : UInt8) {s m : BitVec 8} (hs : s.toNat < 8)
    (hm : m.toNat < 2 ^ (8 - s.toNat)) :
    ((a.toUInt16 ||| b.toUInt16 <<< 8) >>> (UInt8.ofBitVec s).toUInt16) &&&
        (UInt8.ofBitVec m).toUInt16
      = ((a >>> UInt8.ofBitVec s) &&& UInt8.ofBitVec m).toUInt16 := by
  apply UInt16.toBitVec_inj.mp
  ext i hi
  have h16 : s.toNat % 16 = s.toNat := by omega
  have h8 : s.toNat % 8 = s.toNat := by omega
  by_cases h : s.toNat + i < 8
  · simp [h, h16, h8]
  · have hmask : m.getLsbD i = false := by
      apply Nat.testBit_lt_two_pow
      exact Nat.lt_of_lt_of_le hm (Nat.pow_le_pow_right (by decide) (by omega))
    simp [hmask]

theorem frameType_eq_two_iff (raw : List UInt8) :
    frameType raw = 2 ↔ (byteAt raw 0 >>> 2) &&& 0x03 = 2 := by
  have h : frameType raw = ((byteAt raw 0 >>> 2) &&& 0x03).toUInt16 :=
    le16_field _ _ (s := 2) (m := 3) (by decide) (by decide)
  rw [h]
  exact UInt8.toUInt16_inj (b := 2)

theorem frameSubtype_qos_iff (raw : List UInt8) :
    frameSubtype raw &&& 0x08 ≠ 0 ↔ ((byteAt raw 0 >>> 4) &&& 0x0F) &&& 0x08 ≠ 0 := by
  have h : frameSubtype raw = ((byteAt raw 0 >>> 4) &&& 0x0F).toUInt16 :=
    le16_field _ _ (s := 4) (m := 0x0F) (by decide) (by decide)
  rw [h]
  exact not_congr (UInt8.toUInt16_inj (a := ((byteAt raw 0 >>> 4) &&& 0x0F) &&& 0x08) (b := 0))

variable {raw : List UInt8} {n : Nat} {rx : RxFrame} {ctx : WifiCtx} {call : WifiCall}

theorem dataHdrLen_eq (h : frameType raw = 2) :
    dataHdrLen raw = 24 + if isQos raw then 2 else 0 := by
  unfold dataHdrLen isQos
  simp only [frameSubtype_qos_iff, (frameType_eq_two_iff raw).mp h, true_and, decide_eq_true_eq]

def isProtected (raw : List UInt8) : Bool := byteAt raw 1 &&& 0x40 ≠ 0

/-! ## Frames and Ethernet frames -/

structure EtherFrame where
  dst : Mac
  src : Mac
  type0 : UInt8
  type1 : UInt8
  payload : List UInt8

namespace EtherFrame

def bytes (e : EtherFrame) : List UInt8 :=
  e.dst.slots ++ (e.src.slots ++ (e.type0 :: e.type1 :: e.payload))

def swapType (e : EtherFrame) : EtherFrame := { e with type0 := e.type1, type1 := e.type0 }

end EtherFrame

theorem exists_etherFrame {f : List UInt8} (h : 14 ≤ f.length) :
    ∃ e : EtherFrame, f = e.bytes ∧ e.type0 = byteAt f 12 ∧ e.type1 = byteAt f 13 := by
  have hdst : (f.take 6).length = 6 := by simp; omega
  have hsrc : ((f.drop 6).take 6).length = 6 := by simp; omega
  refine ⟨⟨⟨f.take 6, hdst⟩, ⟨(f.drop 6).take 6, hsrc⟩, byteAt f 12, byteAt f 13, f.drop 14⟩,
    ?_, rfl, rfl⟩
  have htype : f.drop 12 = byteAt f 12 :: byteAt f 13 :: f.drop 14 := by
    have h12 : 12 < f.length := by omega
    have h13 : 13 < f.length := by omega
    simp [byteAt, h12, h13]
  have hrest : f.drop 6 = (f.drop 6).take 6 ++ f.drop 12 := by
    rw [← drop_drop (i := 6) (j := 6), take_append_drop]
  change f = f.take 6 ++ ((f.drop 6).take 6 ++ (byteAt f 12 :: byteAt f 13 :: f.drop 14))
  rw [← htype, ← hrest, take_append_drop]

theorem tableAt_append (a : List UInt8) (t : Table UInt8 n) (rest : List UInt8) {off : Nat}
    (h : a.length = off) : tableAt n (a ++ (t.slots ++ rest)) off = t := by
  obtain ⟨l, hl⟩ := t
  subst h hl
  simp [tableAt, Table.ofList]

theorem be16_of_bytes (a b : UInt8) : be16 (a.toUInt16 <<< 8 ||| b.toUInt16) = [a, b] := by
  have hhi : ((a.toUInt16 <<< 8 ||| b.toUInt16) >>> 8).toUInt8 = a := by
    apply UInt8.toBitVec_inj.mp
    ext i hi
    have hlt : 8 + i < 16 := by omega
    simp [hi, hlt]
  have hlo : (a.toUInt16 <<< 8 ||| b.toUInt16).toUInt8 = b := by
    apply UInt8.toBitVec_inj.mp
    ext i hi
    simp
  rw [be16, hhi, hlo]

def toDsFrame (bssid : Mac) (seqCtrl : UInt16) (e : EtherFrame) : List UInt8 :=
  macHdr (wfFc 2 0 1) bssid e.src e.dst seqCtrl ++
    ([0xAA, 0xAA, 0x03, 0x00, 0x00, 0x00, e.type0, e.type1] ++ e.payload)

theorem wifiEtherTo80211_eq (ctx : WifiCtx) (e : EtherFrame) : wifiEtherTo80211 ctx e.bytes
      = (some (toDsFrame ctx.bss.bssid (ctx.txSeq <<< 4) e),
        { ctx with txSeq := ctx.txSeq + 1 }) := by
  have hlen : ¬ e.bytes.length < 14 := by
    simp [EtherFrame.bytes, e.dst.length_slots, e.src.length_slots]
    omega
  have hdst : tableAt 6 e.bytes 0 = e.dst := tableAt_append [] e.dst _ rfl
  have hsrc : tableAt 6 e.bytes 6 = e.src := tableAt_append e.dst.slots e.src _ e.dst.length_slots
  have htail : e.bytes.drop 12 = e.type0 :: e.type1 :: e.payload := by
    rw [EtherFrame.bytes, ← append_assoc]
    exact drop_left' (by rw [length_append, e.dst.length_slots, e.src.length_slots])
  have htype : be16At e.bytes 12 = e.type0.toUInt16 <<< 8 ||| e.type1.toUInt16 := by
    have hbyte : ∀ i, byteAt e.bytes (12 + i) = byteAt (e.bytes.drop 12) i := by
      intro i
      simp [byteAt]
    rw [be16At, hbyte 0, hbyte 1, htail]
    rfl
  have hpayload : e.bytes.drop 14 = e.payload := by
    rw [← drop_drop (i := 2) (j := 12), htail]
    rfl
  unfold wifiEtherTo80211
  rw [if_neg hlen, hdst, hsrc, htype, hpayload]
  dsimp only [WifiCtx.nextHdr]
  rw [llcSnap, be16_of_bytes, toDsFrame, append_assoc]
  rfl

section MacHdr

variable (fc : UInt16) (a1 a2 a3 : Mac) (seqCtrl : UInt16) (rest : List UInt8)

theorem length_macHdr : (macHdr fc a1 a2 a3 seqCtrl).length = macHdrSize := by
  simp [macHdr, le16, a1.length_slots, a2.length_slots, a3.length_slots]

theorem byteAt_macHdr_zero : byteAt (macHdr fc a1 a2 a3 seqCtrl ++ rest) 0 = fc.toUInt8 := rfl
theorem byteAt_macHdr_one :
    byteAt (macHdr fc a1 a2 a3 seqCtrl ++ rest) 1 = (fc >>> 8).toUInt8 := rfl

theorem addr2_macHdr : ((macHdr fc a1 a2 a3 seqCtrl ++ rest).drop 10).take 6 = a2.slots := by
  have hsplit : macHdr fc a1 a2 a3 seqCtrl ++ rest
      = (le16 fc ++ le16 0 ++ a1.slots) ++ (a2.slots ++ (a3.slots ++ (le16 seqCtrl ++ rest))) := by
    simp only [macHdr, append_assoc]
  rw [hsplit, drop_left' (by simp [le16, a1.length_slots]), take_left' a2.length_slots]

theorem addr3_macHdr : ((macHdr fc a1 a2 a3 seqCtrl ++ rest).drop 16).take 6 = a3.slots := by
  have hsplit : macHdr fc a1 a2 a3 seqCtrl ++ rest
      = (le16 fc ++ le16 0 ++ a1.slots ++ a2.slots) ++ (a3.slots ++ (le16 seqCtrl ++ rest)) := by
    simp only [macHdr, append_assoc]
  rw [hsplit, drop_left' (by simp [le16, a1.length_slots, a2.length_slots]),
    take_left' a3.length_slots]

end MacHdr

section ToDs

variable (bssid : Mac) (seqCtrl : UInt16) (e : EtherFrame)

theorem le_length_toDsFrame : 32 ≤ (toDsFrame bssid seqCtrl e).length := by
  simp only [toDsFrame, length_append, length_macHdr, macHdrSize, length_cons]
  omega

theorem byteAt_toDsFrame_zero : byteAt (toDsFrame bssid seqCtrl e) 0 = 0x08 := byteAt_macHdr_zero ..
theorem byteAt_toDsFrame_one : byteAt (toDsFrame bssid seqCtrl e) 1 = 0x01 := byteAt_macHdr_one ..

end ToDs

theorem wifi80211ToEther_toDsFrame (bssid : Mac) (seqCtrl : UInt16) (e : EtherFrame) :
    wifi80211ToEther (toDsFrame bssid seqCtrl e) = some e.swapType.bytes := by
  have hlen := le_length_toDsFrame bssid seqCtrl e
  have hrest : (toDsFrame bssid seqCtrl e).drop 24
      = [0xAA, 0xAA, 0x03, 0x00, 0x00, 0x00, e.type0, e.type1] ++ e.payload :=
    drop_left' (length_macHdr ..)
  have htype : le16At (toDsFrame bssid seqCtrl e) 30 =
      e.type0.toUInt16 ||| e.type1.toUInt16 <<< 8 := by
    have hbyte : ∀ i, byteAt (toDsFrame bssid seqCtrl e) (24 + i)
        = byteAt ((toDsFrame bssid seqCtrl e).drop 24) i := by
      intro i
      simp [byteAt]
    rw [le16At, hbyte 6, hbyte 7, hrest]
    rfl
  have hpayload : (toDsFrame bssid seqCtrl e).drop 32 = e.payload := by
    rw [← drop_drop (i := 8) (j := 24), hrest]
    rfl
  have hswap : be16 (e.type0.toUInt16 ||| e.type1.toUInt16 <<< 8) = [e.type1, e.type0] := by
    rw [UInt16.or_comm, be16_of_bytes]
  have hhdr : macHdrSize +
      (if ((0x08 : UInt8) >>> 2) &&& 0x03 = 2 ∧ ((0x08 : UInt8) >>> 4) &&& 0x08 ≠ 0
      then 2 else 0) + (if (0x01 : UInt8) &&& 0x40 ≠ 0 then ccmpHdrLen else 0) = 24 := by decide
  unfold wifi80211ToEther
  simp only [byteAt_toDsFrame_zero, byteAt_toDsFrame_one, hhdr]
  simp only [macHdrSize, llcSnapHdrLen, Nat.reduceAdd]
  rw [if_neg (by omega), if_neg (by decide), if_neg (by omega), if_neg (by rw [hrest]; simp),
    if_pos (by decide), htype, hpayload, hswap, toDsFrame, addr2_macHdr, addr3_macHdr]
  simp [EtherFrame.bytes, EtherFrame.swapType]

/-- The conversion there and back gives the frame exactly if the two
bytes of its type are equal. -/
theorem wifi80211ToEther_roundTrip_iff (ctx : WifiCtx) (f : List UInt8) (h : 14 ≤ f.length) :
    (wifiEtherTo80211 ctx f).1.bind wifi80211ToEther = some f ↔ byteAt f 12 = byteAt f 13 := by
  obtain ⟨e, he, h0, h1⟩ := exists_etherFrame h
  rw [← h0, ← h1, he, wifiEtherTo80211_eq]
  change wifi80211ToEther _ = _ ↔ _
  rw [wifi80211ToEther_toDsFrame, Option.some_inj]
  constructor
  · intro heq
    have hrest := append_cancel_left (append_cancel_left heq)
    exact (List.cons.inj hrest).1.symm
  · intro heq
    rw [EtherFrame.swapType, EtherFrame.bytes, EtherFrame.bytes, heq]

def etherOfType (t0 t1 : UInt8) : List UInt8 :=
  List.replicate 6 0xFF ++ List.replicate 6 2 ++ [t0, t1, 42]

theorem wifi80211ToEther_roundTrip_frameRelay :
    (wifiEtherTo80211 (wifiInit stationMac) (etherOfType 0x08 0x08)).1.bind wifi80211ToEther
      = some (etherOfType 0x08 0x08) :=
  (wifi80211ToEther_roundTrip_iff (wifiInit stationMac) (etherOfType 0x08 0x08) (by decide)).mpr rfl

theorem wifi80211ToEther_swaps_ipv4 :
    14 ≤ (etherOfType 0x08 0x00).length ∧
      (wifiEtherTo80211 (wifiInit stationMac) (etherOfType 0x08 0x00)).1.bind wifi80211ToEther
        = some (etherOfType 0x00 0x08) := by
  decide

/-! ## Packet numbers -/

def pnValue (pn : Table UInt8 ccmpPnLen) : Nat := leNat pn.slots

theorem pnValue_inj {a b : Table UInt8 ccmpPnLen} (h : pnValue a = pnValue b) : a = b := by
  obtain ⟨as, ha⟩ := a
  obtain ⟨bs, hb⟩ := b
  have hslots : as = bs := leNat_inj (ha.trans hb.symm) h
  subst hslots
  rfl

theorem add_mul_lt_add_mul {a b p q : Nat} (hp : p < n) (hab : a < b) : p + n * a < q + n * b := by
  have h := Nat.mul_le_mul_left n (Nat.succ_le_of_lt hab)
  rw [Nat.mul_succ] at h
  omega

theorem memLess_iff : ∀ xs ys : List UInt8, xs.length = ys.length →
    (memLess xs ys = true ↔ leNat xs.reverse < leNat ys.reverse)
  | [], [], _ => by simp [memLess, leNat]
  | x :: xs, y :: ys, h => by
    have hlen : xs.length = ys.length := by simpa using h
    have ih := memLess_iff xs ys hlen
    have hx := leNat_lt xs.reverse
    have hy := leNat_lt ys.reverse
    rw [length_reverse] at hx hy
    rw [reverse_cons, reverse_cons, leNat_append, leNat_append, length_reverse, length_reverse]
    rw [← hlen] at hy ⊢
    simp only [memLess, leNat, Nat.mul_zero, Nat.add_zero]
    split
    · next heq =>
      rw [ih, heq]
      omega
    · next hne =>
      have hlt : decide (x < y) = true ↔ x.toNat < y.toNat := by
        rw [decide_eq_true_eq, UInt8.lt_iff_toNat_lt]
      rw [hlt]
      constructor
      · intro h
        exact add_mul_lt_add_mul hx h
      · intro h
        have hne' : x.toNat ≠ y.toNat := fun heq => hne (UInt8.toNat_inj.mp heq)
        by_contra hle
        have hgt := add_mul_lt_add_mul (q := leNat xs.reverse) hy (show y.toNat < x.toNat by omega)
        omega

theorem pnGreater_iff (a b : Table UInt8 ccmpPnLen) :
    pnGreater a b = true ↔ pnValue b < pnValue a := by
  have hlen : b.slots.reverse.length = a.slots.reverse.length := by
    rw [length_reverse, length_reverse, a.length_slots, b.length_slots]
  have h := memLess_iff b.slots.reverse a.slots.reverse hlen
  rwa [reverse_reverse, reverse_reverse] at h

/-! ## What `wifi_recv` does with a frame -/

def headerPn (raw : List UInt8) : Table UInt8 ccmpPnLen :=
  (ccmpParseHdr (raw.drop (dataHdrLen raw))).1

def noncePn (raw : List UInt8) : Table UInt8 ccmpPnLen :=
  (ccmpParseHdr (raw.drop (ccmpMacHdrLen raw))).1

theorem headerPn_eq_noncePn (htype : frameType raw = 2) (haddr : fourAddress raw = false) :
    headerPn raw = noncePn raw := by
  have hlen : ccmpMacHdrLen raw = dataHdrLen raw := by
    rw [dataHdrLen_eq htype, ccmpMacHdrLen, haddr]
    rfl
  rw [headerPn, noncePn, hlen]

namespace WifiCtx

def decrypts (ctx : WifiCtx) (raw : List UInt8) : Bool :=
  frameType raw = 2 ∧ isProtected raw ∧ ctx.ptkInstalled ∧
    (ccmpDecryptFrame ctx.tk raw).status = .ok

def takes (ctx : WifiCtx) (raw : List UInt8) : Bool :=
  ctx.decrypts raw && pnGreater (headerPn raw) ctx.rxPn

end WifiCtx

inductive RecvOutcome (ctx : WifiCtx) (rx : RxFrame) :
    HalStatus × Option (List UInt8) × WifiCtx → Prop where
  | processed (h : recvProcesses rx.bytes = true) :
      RecvOutcome ctx rx (.noDevice, none, (wifiProcessFrame ctx true rx).2)
  | taken (h : ctx.takes rx.bytes = true) :
      RecvOutcome ctx rx ((deliver (ccmpDecryptFrame ctx.tk rx.bytes).out).1,
        (deliver (ccmpDecryptFrame ctx.tk rx.bytes).out).2, { ctx with rxPn := headerPn rx.bytes })
  | passed (htype : frameType rx.bytes = 2)
      (hclear : ¬ (isProtected rx.bytes = true ∧ ctx.ptkInstalled = true))
      (hnot : recvProcesses rx.bytes = false) :
      RecvOutcome ctx rx ((deliver rx.bytes).1, (deliver rx.bytes).2, ctx)
  | refused {status : HalStatus} (hstatus : status ≠ .ok) (hnot : recvProcesses rx.bytes = false)
      (htakes : ctx.takes rx.bytes = false)
      (hplain : frameType rx.bytes = 2 → isProtected rx.bytes = true ∧ ctx.ptkInstalled = true) :
      RecvOutcome ctx rx (status, none, ctx)

theorem isProtected_iff (raw : List UInt8) :
    isProtected raw = true ↔ byteAt raw 1 &&& 0x40 ≠ 0 := by
  simp [isProtected]

theorem recvProcesses_eq_false (hmgmt : frameType raw ≠ 0)
    (h : ¬ (frameType raw = 2 ∧ isProtected raw = false ∧ hasEapol raw = true)) :
    recvProcesses raw = false := by
  apply decide_eq_false
  rintro ⟨-, hzero | ⟨htype, hprot, heapol⟩⟩
  · exact hmgmt hzero
  · exact h ⟨htype, by simp [isProtected, hprot], heapol⟩

theorem takes_eq_true_iff (ctx : WifiCtx) (raw : List UInt8) :
    ctx.takes raw = true ↔ (frameType raw = 2 ∧ isProtected raw = true ∧ ctx.ptkInstalled = true ∧
      (ccmpDecryptFrame ctx.tk raw).status = .ok) ∧ pnGreater (headerPn raw) ctx.rxPn = true := by
  simp [WifiCtx.takes, WifiCtx.decrypts]

theorem recvOutcome_wifiRecv (ctx : WifiCtx) (rx : RxFrame) :
    RecvOutcome ctx rx (wifiRecv ctx (some rx)) := by
  have hfalse : ∀ {b : Bool} {p : Prop}, (b = true ↔ p) → ¬ p → b = false := by
    intro b p hb hp
    exact Bool.eq_false_iff.mpr fun h => hp (hb.mp h)
  have htakes := takes_eq_true_iff ctx rx.bytes
  have hprot := isProtected_iff rx.bytes
  unfold wifiRecv
  dsimp only
  split
  · next hnil =>
    refine .refused HalStatus.noConfusion (decide_eq_false fun h => h.1 hnil) (hfalse htakes ?_) ?_
    · rintro ⟨⟨htype, -⟩, -⟩
      rw [hnil] at htype
      exact absurd htype (by decide)
    · intro htype
      rw [hnil] at htype
      exact absurd htype (by decide)
  split
  · next hne hmgmt => exact .processed (decide_eq_true ⟨hne, .inl hmgmt⟩)
  split
  · next hmgmt htype =>
    exact .refused HalStatus.noConfusion (recvProcesses_eq_false hmgmt fun h => htype h.1)
      (hfalse htakes fun h => htype h.1.1) fun h => absurd h htype
  next hne hmgmt htype =>
  have htype := not_not.mp htype
  split
  · next hsec =>
    have hsec' : isProtected rx.bytes = true ∧ ctx.ptkInstalled = true := ⟨hprot.mpr hsec.1, hsec.2⟩
    have hproc : recvProcesses rx.bytes = false :=
      recvProcesses_eq_false hmgmt fun h => absurd h.2.1 (by simp [hsec'.1])
    split
    · next hbad =>
      exact .refused HalStatus.noConfusion hproc (hfalse htakes fun h => hbad h.1.2.2.2)
        fun _ => hsec'
    split
    · next hold =>
      refine .refused HalStatus.noConfusion hproc (hfalse htakes fun h => ?_) fun _ => hsec'
      rw [headerPn] at h
      simp [h.2] at hold
    · next hok hnew =>
      refine .taken (htakes.mpr ⟨⟨htype, hsec'.1, hsec'.2, not_not.mp hok⟩, ?_⟩)
      simpa [headerPn] using hnew
  next hsec =>
  have hclear : ¬ (isProtected rx.bytes = true ∧ ctx.ptkInstalled = true) :=
    fun h => hsec ⟨hprot.mp h.1, h.2⟩
  split
  · next heapol =>
    exact .processed (decide_eq_true ⟨hne, .inr ⟨htype, not_not.mp heapol.1, heapol.2⟩⟩)
  · next heapol =>
    refine .passed htype hclear (recvProcesses_eq_false hmgmt fun h => heapol ⟨fun hp => ?_, h.2.2⟩)
    exact absurd (hprot.mpr hp) (by simp [h.2.1])

/-! ## Plaintext -/

def hasSnap (raw : List UInt8) : Bool :=
  dataHdrLen raw + llcSnapHdrLen ≤ raw.length ∧
    (raw.drop (dataHdrLen raw)).take 3 = [0xAA, 0xAA, 0x03]

theorem wifi80211ToEther_isSome_iff (htype : frameType raw = 2) (hclear : isProtected raw = false) :
    (wifi80211ToEther raw).isSome = true ↔ fourAddress raw = false ∧ hasSnap raw = true := by
  have hbits : ∀ x : BitVec 8, (x >>> 4) &&& 0x08 = ((x >>> 4) &&& 0x0F) &&& 0x08 := by decide
  have hqos : (byteAt raw 0 >>> 4) &&& (0x08 : UInt8) = ((byteAt raw 0 >>> 4) &&& 0x0F) &&& 0x08 :=
    UInt8.toBitVec_inj.mp (hbits (byteAt raw 0).toBitVec)
  have hprot : byteAt raw 1 &&& 0x40 = 0 := by simpa [isProtected] using hclear
  have hhdr : macHdrSize + (if (byteAt raw 0 >>> 2) &&& 0x03 = 2 ∧ (byteAt raw 0 >>> 4) &&& 0x08 ≠ 0
      then 2 else 0) + (if byteAt raw 1 &&& 0x40 ≠ 0 then ccmpHdrLen else 0) = dataHdrLen raw := by
    rw [dataHdrLen_eq htype, hprot, hqos]
    simp [isQos]
  unfold wifi80211ToEther
  simp only [hhdr, fourAddress, hasSnap, decide_eq_true_eq, decide_eq_false_iff_not]
  split
  · next hshort =>
    simp only [isSome_none, Bool.false_eq_true, false_iff]
    omega
  split
  · next hfour => simp [hfour]
  split
  · next hfour hshort =>
    simp only [isSome_none, Bool.false_eq_true, false_iff]
    omega
  split
  · next hsnap => simp [hsnap]
  · next hfour hshort hsnap =>
    simp only [isSome_some, true_iff]
    exact ⟨hfour, by omega, not_not.mp hsnap⟩

theorem deliver_eq_ok_iff (raw : List UInt8) :
    (deliver raw).1 = .ok ↔ (wifi80211ToEther raw).isSome = true := by
  unfold deliver
  cases wifi80211ToEther raw with
  | none | some ether => simp

def plainData (raw : List UInt8) : Bool :=
  frameType raw = 2 ∧ !isProtected raw ∧ !fourAddress raw ∧ hasSnap raw ∧
    be16At raw (dataHdrLen raw + 6) ≠ eapolEtherType

def OnlyProtected (ctx : WifiCtx) (call : WifiCall) : Prop :=
  ∀ rx, call = .recv rx → ctx.ptkInstalled = true → (wifiRecv ctx rx).1 = .ok →
    ∃ f, rx = some f ∧ ctx.decrypts f.bytes = true

def PlainArrives (ctx : WifiCtx) (call : WifiCall) : Prop :=
  ctx.ptkInstalled = true ∧ ∃ f, call = .recv (some f) ∧ plainData f.bytes = true

theorem plainData_iff : plainData raw = true ↔ frameType raw = 2 ∧ isProtected raw = false ∧
      recvProcesses raw = false ∧ (deliver raw).1 = .ok := by
  have hsplit : plainData raw = true ↔ frameType raw = 2 ∧ isProtected raw = false ∧
      fourAddress raw = false ∧ hasSnap raw = true ∧
        be16At raw (dataHdrLen raw + 6) ≠ eapolEtherType := by
    simp [plainData]
  rw [hsplit, deliver_eq_ok_iff]
  constructor
  · rintro ⟨htype, hclear, hfour, hsnap, heapol⟩
    refine ⟨htype, hclear, recvProcesses_eq_false (by rw [htype]; decide) ?_,
      (wifi80211ToEther_isSome_iff htype hclear).mpr ⟨hfour, hsnap⟩⟩
    rintro ⟨-, -, hhas⟩
    exact heapol (of_decide_eq_true hhas).2
  · rintro ⟨htype, hclear, hnot, hsome⟩
    obtain ⟨hfour, hsnap⟩ := (wifi80211ToEther_isSome_iff htype hclear).mp hsome
    refine ⟨htype, hclear, hfour, hsnap, fun heapol => ?_⟩
    have hne : raw ≠ [] := by
      rintro rfl
      exact absurd htype (by decide)
    have hprot : byteAt raw 1 &&& 0x40 = 0 := by simpa [isProtected] using hclear
    have hhas : hasEapol raw = true := decide_eq_true ⟨(of_decide_eq_true hsnap).1, heapol⟩
    exact of_decide_eq_false hnot ⟨hne, .inr ⟨htype, hprot, hhas⟩⟩

theorem wifiRecv_plainData (ctx : WifiCtx) (h : plainData rx.bytes = true) :
    (wifiRecv ctx (some rx)).1 = .ok := by
  obtain ⟨htype, hclear, hnot, hok⟩ := plainData_iff.mp h
  have hout := recvOutcome_wifiRecv ctx rx
  generalize wifiRecv ctx (some rx) = res at hout
  cases hout with
  | processed hproc => exact absurd hproc (by simp [hnot])
  | taken htakes =>
    have hprot := ((takes_eq_true_iff ctx rx.bytes).mp htakes).1.2.1
    exact absurd hprot (by simp [hclear])
  | passed => exact hok
  | refused _ _ _ hsec => exact absurd (hsec htype).1 (by simp [hclear])

theorem onlyProtected_iff (ctx : WifiCtx) (call : WifiCall) :
    OnlyProtected ctx call ↔ ¬ PlainArrives ctx call := by
  constructor
  · rintro honly ⟨hinst, f, rfl, hplain⟩
    obtain ⟨f', hf, hdec⟩ := honly (some f) rfl hinst (wifiRecv_plainData ctx hplain)
    cases hf
    have hclear := (plainData_iff.mp hplain).2.1
    simp [WifiCtx.decrypts, hclear] at hdec
  · rintro hplain rx rfl hinst hok
    cases rx with
    | none => cases hok
    | some f =>
      have hout := recvOutcome_wifiRecv ctx f
      generalize wifiRecv ctx (some f) = res at hout hok
      refine ⟨f, rfl, ?_⟩
      cases hout with
      | processed h => cases hok
      | taken h => exact (Bool.and_eq_true_iff.mp h).1
      | passed htype hclear hnot =>
        have hunprot : isProtected f.bytes = false := by
          cases h : isProtected f.bytes with
          | false => rfl
          | true => exact absurd ⟨h, hinst⟩ hclear
        exact absurd ⟨hinst, f, rfl, plainData_iff.mpr ⟨htype, hunprot, hnot, hok⟩⟩ hplain
      | refused hstatus => exact absurd hok hstatus

/-- Only authenticated data is delivered under a key exactly if no unprotected data frame arrives
while one is installed. -/
theorem wifiRecv_onlyProtected_iff (ctx : WifiCtx) (calls : List WifiCall) :
    Steps wifiStep OnlyProtected ctx calls ↔
      Steps wifiStep (fun ctx call => ¬ PlainArrives ctx call) ctx calls :=
  steps_congr onlyProtected_iff calls ctx

def plainFrame : RxFrame :=
  ⟨[0x08, 0x02] ++ List.replicate 22 0 ++ llcSnap 0x0800 ++ [42], 0, 0, 0⟩

theorem wifiRecv_delivers_plaintext :
    forgedConnection.ptkInstalled = true ∧
      (wifiRecv forgedConnection (some plainFrame)).1 = .ok ∧
      ¬ Steps wifiStep OnlyProtected (wifiInit stationMac)
        [.processFrame false (msg3Frame (zeroTable ptkLen)), .recv (some plainFrame)] := by
  have hinst := forgedConnection_ptkInstalled
  have hplain : plainData plainFrame.bytes = true := by decide
  have hok := wifiRecv_plainData forgedConnection hplain
  refine ⟨hinst, hok, ?_⟩
  rintro ⟨-, honly, -⟩
  exact (onlyProtected_iff forgedConnection _).mp honly ⟨hinst, plainFrame, rfl, hplain⟩

/-! ## Who writes the packet numbers -/

def WifiCtx.pns (ctx : WifiCtx) : Table UInt8 ccmpPnLen × Table UInt8 ccmpPnLen :=
  (ctx.txPn, ctx.rxPn)

theorem processMgmt_pns (ctx : WifiCtx) (raw : List UInt8) :
    (processMgmt ctx raw).pns = ctx.pns := by
  have hbeacon : (wfParseBeacon ctx raw).pns = ctx.pns := by
    unfold wfParseBeacon
    repeat' split
    all_goals rfl
  unfold processMgmt
  dsimp only
  repeat' split
  · exact hbeacon
  all_goals rfl

theorem wifiProcessFrame_pns (ctx : WifiCtx) (own : Bool) (rx : RxFrame) :
    (wifiProcessFrame ctx own rx).2.pns = ctx.pns := by
  have heapol : (wfProcessEapol ctx own rx (eapolOff rx.bytes)).2.pns = ctx.pns := by
    unfold wfProcessEapol processMsg3
    dsimp only
    repeat' split
    all_goals rfl
  unfold wifiProcessFrame
  split
  · rfl
  split
  · exact processMgmt_pns ctx rx.bytes
  split
  · exact heapol
  · rfl

theorem wifiProcessFrame_rxPn (ctx : WifiCtx) (own : Bool) (rx : RxFrame) :
    (wifiProcessFrame ctx own rx).2.rxPn = ctx.rxPn :=
  congrArg Prod.snd (wifiProcessFrame_pns ctx own rx)

theorem rxLoop_pns (go : WifiState → Bool) : ∀ (frames : List RxFrame) (ctx : WifiCtx),
    (rxLoop go frames ctx).pns = ctx.pns
  | [], _ => rfl
  | rx :: rest, ctx => by
    unfold rxLoop
    split
    · exact (rxLoop_pns go rest _).trans (wifiProcessFrame_pns ctx true rx)
    · rfl

theorem wifiScan_pns (ctx : WifiCtx) (heard : List (List RxFrame)) :
    (wifiScan ctx heard).pns = ctx.pns := by
  have hfold : ∀ (heard : List (List RxFrame)) (ctx : WifiCtx),
      (heard.foldl scanChannel ctx).pns = ctx.pns := by
    intro heard
    induction heard with
    | nil => exact fun _ => rfl
    | cons frames rest ih => exact fun ctx => (ih _).trans (rxLoop_pns _ frames _)
  exact hfold heard _

theorem authenticate_pns (ctx : WifiCtx) (target : WifiBss) (rx : ConnectRx) :
    (authenticate ctx target rx).2.pns = ctx.pns := by
  unfold authenticate
  dsimp only
  split
  · exact (rxLoop_pns _ rx.assoc _).trans (rxLoop_pns _ rx.auth _)
  · exact rxLoop_pns _ rx.auth _

theorem findAndConnect_pns (ctx : WifiCtx) (ssid : List UInt8) (rx : ConnectRx) :
    (findAndConnect ctx ssid rx).2.pns = ctx.pns := by
  unfold findAndConnect
  split
  · exact authenticate_pns ctx _ rx
  · dsimp only
    split
    · exact (authenticate_pns _ _ rx).trans (wifiScan_pns ctx _)
    · exact wifiScan_pns ctx _

theorem wifiConnect_pns (ctx : WifiCtx) (ssid passphrase : List UInt8) (rx : ConnectRx) :
    (wifiConnect ctx ssid passphrase rx).2.pns = ctx.pns := by
  have hattempt : ∀ pmk, (ctx.newAttempt pmk).pns = ctx.pns := fun _ => rfl
  rw [wifiConnect, findAndConnect_pns, hattempt]

section Send

variable (ctx : WifiCtx) (txStatus : HalStatus)

def WifiCtx.dataFrame (e : EtherFrame) : List UInt8 :=
  toDsFrame ctx.bss.bssid (ctx.txSeq <<< 4) e

theorem ccmpMacHdrLen_toDsFrame (bssid : Mac) (seqCtrl : UInt16) (e : EtherFrame) :
    ccmpMacHdrLen (toDsFrame bssid seqCtrl e) = 24 := by
  unfold ccmpMacHdrLen fourAddress isQos
  rw [byteAt_toDsFrame_zero, byteAt_toDsFrame_one]
  decide

theorem wifiSend_short {frame : List UInt8} (h : frame.length < 14) :
    (wifiSend ctx frame txStatus).2 = ctx := by
  unfold wifiSend wifiEtherTo80211
  split <;> rfl

theorem wifiSend_eq (e : EtherFrame) : wifiSend ctx e.bytes txStatus =
      if ctx.state ≠ .connected then (.error, ctx)
      else if ctx.ptkInstalled then
        (txStatus, { ctx with
          txSeq := ctx.txSeq + 1
          txPn := wfIncPn ctx.txPn
          sent := protectedFrame ctx.tk (ctx.dataFrame e) (wfIncPn ctx.txPn) :: ctx.sent })
      else
        (txStatus, { ctx with txSeq := ctx.txSeq + 1, sent := ctx.dataFrame e :: ctx.sent }) := by
  have hlen : ccmpMacHdrLen (ctx.dataFrame e) ≤ (ctx.dataFrame e).length := by
    rw [WifiCtx.dataFrame, ccmpMacHdrLen_toDsFrame]
    exact Nat.le_trans (by decide) (le_length_toDsFrame ..)
  unfold wifiSend
  rw [wifiEtherTo80211_eq]
  dsimp only
  rw [← WifiCtx.dataFrame, ccmpEncryptFrame_eq _ _ hlen]
  rfl

theorem wifiSend_rxPn (frame : List UInt8) : (wifiSend ctx frame txStatus).2.rxPn = ctx.rxPn := by
  by_cases h : frame.length < 14
  · rw [wifiSend_short ctx txStatus h]
  · obtain ⟨e, rfl, -⟩ := exists_etherFrame (Nat.le_of_not_lt h)
    rw [wifiSend_eq]
    repeat' split
    all_goals rfl

end Send

def WifiCtx.taken (ctx : WifiCtx) : WifiCall → Option (List UInt8)
  | .recv (some rx) => if ctx.takes rx.bytes then some rx.bytes else none
  | _ => none

theorem taken_of_takes (h : ctx.takes rx.bytes = true) :
    ctx.taken (.recv (some rx)) = some rx.bytes := if_pos h

theorem taken_of_not_takes (h : ctx.takes rx.bytes = false) :
    ctx.taken (.recv (some rx)) = none := if_neg (by rw [h]; decide)

theorem not_takes_of_recvProcesses (h : recvProcesses raw = true) : ctx.takes raw = false := by
  refine Bool.eq_false_iff.mpr fun htakes => ?_
  obtain ⟨htype, hprot, -⟩ := ((takes_eq_true_iff ctx raw).mp htakes).1
  obtain ⟨-, hmgmt | ⟨-, hclear, -⟩⟩ := of_decide_eq_true h
  · exact absurd (htype.symm.trans hmgmt) (by decide)
  · exact (isProtected_iff raw).mp hprot hclear

theorem wifiStep_rxPn (ctx : WifiCtx) (h : call ≠ .disconnect) :
    (wifiStep ctx call).rxPn = ((ctx.taken call).map headerPn).getD ctx.rxPn := by
  cases call with
  | scan heard => exact congrArg Prod.snd (wifiScan_pns ctx heard)
  | connect ssid passphrase rx => exact congrArg Prod.snd (wifiConnect_pns ctx ssid passphrase rx)
  | disconnect => exact absurd rfl h
  | processFrame own rx => exact wifiProcessFrame_rxPn ctx own rx
  | send frame txStatus => exact wifiSend_rxPn ctx txStatus frame
  | recv rx =>
    cases rx with
    | none => rfl
    | some rx =>
      have hout := recvOutcome_wifiRecv ctx rx
      change (wifiRecv ctx (some rx)).2.2.rxPn = _
      generalize wifiRecv ctx (some rx) = res at hout
      cases hout with
      | processed h =>
        rw [taken_of_not_takes (not_takes_of_recvProcesses h)]
        exact wifiProcessFrame_rxPn ctx true rx
      | taken h =>
        rw [taken_of_takes h]
        rfl
      | passed htype hclear =>
        have hnot : ctx.takes rx.bytes = false := by
          refine Bool.eq_false_iff.mpr fun h => hclear ?_
          have hsec := ((takes_eq_true_iff ctx rx.bytes).mp h).1
          exact ⟨hsec.2.1, hsec.2.2.1⟩
        rw [taken_of_not_takes hnot]
        rfl
      | refused _ _ hnot =>
        rw [taken_of_not_takes hnot]
        rfl

/-! ## Frames of the peer -/

structure PlainFrame where
  bytes : List UInt8
  isData : frameType bytes = 2
  clear : isProtected bytes = false
  whole : ccmpMacHdrLen bytes ≤ bytes.length

namespace PlainFrame

variable (f : PlainFrame) (tk : Table UInt8 aesKeySize) (pn : Table UInt8 ccmpPnLen)

def sealed : RxFrame :=
  ⟨sealFrame tk f.bytes pn (ccmpBuildAad (setProtected f.bytes) (ccmpMacHdrLen f.bytes)), 0, 0, 0⟩

theorem byteAt_sealed {i : Nat} (hi : i < 24) :
    byteAt (f.sealed tk pn).bytes i = byteAt (setProtected f.bytes) i :=
  (byteAt_eq (getElem?_of_take (take_sealFrame tk pn _ f.whole)
    (Nat.lt_of_lt_of_le hi (le_ccmpMacHdrLen f.bytes)))).symm

theorem one_lt_length : 1 < f.bytes.length := by
  have h := f.whole
  have h24 := le_ccmpMacHdrLen f.bytes
  omega

theorem frameType_sealed : frameType (f.sealed tk pn).bytes = 2 := by
  rw [frameType_eq_two_iff, byteAt_sealed f tk pn (by decide),
    byteAt_setProtected_of_ne (by decide)]
  exact (frameType_eq_two_iff f.bytes).mp f.isData

theorem isProtected_sealed : isProtected (f.sealed tk pn).bytes = true := by
  have hbits : ∀ x : BitVec 8, (x ||| 0x40) &&& 0x40 ≠ 0 := by decide
  rw [isProtected_iff, byteAt_sealed f tk pn (by decide), byteAt_setProtected_one f.one_lt_length]
  exact fun h => hbits (byteAt f.bytes 1).toBitVec (UInt8.toBitVec_inj.mpr h)

theorem fourAddress_sealed : fourAddress (f.sealed tk pn).bytes = fourAddress f.bytes := by
  rw [← fourAddress_setProtected f.one_lt_length, fourAddress, fourAddress,
    byteAt_sealed f tk pn (by decide)]

theorem noncePn_sealed : noncePn (f.sealed tk pn).bytes = pn := by
  rw [noncePn, sealed, ccmpMacHdrLen_sealFrame tk pn _ f.whole, drop_sealFrame tk pn _ f.whole,
    ccmpParseHdr_ccmpBuildHdr]

theorem headerPn_sealed (h : fourAddress f.bytes = false) :
    headerPn (f.sealed tk pn).bytes = pn := by
  rw [headerPn_eq_noncePn (f.frameType_sealed tk pn) ((f.fourAddress_sealed tk pn).trans h),
    noncePn_sealed]

theorem ccmpDecryptFrame_sealed :
    ccmpDecryptFrame tk (f.sealed tk pn).bytes = ⟨.ok, f.bytes, some f.bytes.length⟩ := by
  have hclear : byteAt f.bytes 1 &&& 0x40 = 0 := by simpa [isProtected] using f.clear
  rw [sealed, ccmpDecryptFrame_sealFrame tk pn _ f.whole hclear, if_pos rfl]

end PlainFrame

theorem takes_sealed (hinst : ctx.ptkInstalled = true) (f : PlainFrame)
    (pn : Table UInt8 ccmpPnLen) :
    ctx.takes (f.sealed ctx.tk pn).bytes =
      pnGreater (headerPn (f.sealed ctx.tk pn).bytes) ctx.rxPn := by
  have hdec : ctx.decrypts (f.sealed ctx.tk pn).bytes = true := by
    simp [WifiCtx.decrypts, f.frameType_sealed, f.isProtected_sealed, hinst,
      f.ccmpDecryptFrame_sealed]
  rw [WifiCtx.takes, hdec, Bool.true_and]

theorem wifiRecv_sealed {f : PlainFrame} {pn : Table UInt8 ccmpPnLen}
    (h : ctx.takes (f.sealed ctx.tk pn).bytes = true) :
    wifiRecv ctx (some (f.sealed ctx.tk pn)) = ((deliver f.bytes).1, (deliver f.bytes).2,
      { ctx with rxPn := headerPn (f.sealed ctx.tk pn).bytes }) := by
  have hsec := ((takes_eq_true_iff ctx _).mp h).1
  have hout := recvOutcome_wifiRecv ctx (f.sealed ctx.tk pn)
  generalize wifiRecv ctx (some (f.sealed ctx.tk pn)) = res at hout
  cases hout with
  | processed hproc => exact absurd h (by simp [not_takes_of_recvProcesses hproc])
  | taken =>
    rw [f.ccmpDecryptFrame_sealed]
  | passed htype hclear => exact absurd ⟨hsec.2.1, hsec.2.2.1⟩ hclear
  | refused _ _ hnot => exact absurd h (by simp [hnot])

/-! ## Replays -/

def RxPnOfNonce (ctx : WifiCtx) (call : WifiCall) : Prop :=
  ∀ raw, ctx.taken call = some raw → (wifiStep ctx call).rxPn = noncePn raw

/-- What stands behind the third address reads as the packet number too. -/
def SamePn (ctx : WifiCtx) (call : WifiCall) : Prop :=
  ∀ raw, ctx.taken call = some raw → fourAddress raw = true → headerPn raw = noncePn raw

def takenPns : WifiCtx → List WifiCall → List Nat
  | _, [] => []
  | ctx, call :: calls =>
    ((ctx.taken call).map fun raw => pnValue (noncePn raw)).toList ++
      takenPns (wifiStep ctx call) calls

theorem taken_eq_some (h : ctx.taken call = some raw) :
    (∃ rx, call = .recv (some rx) ∧ rx.bytes = raw) ∧ ctx.takes raw = true := by
  unfold WifiCtx.taken at h
  split at h
  · next rx =>
    split at h
    · next htakes =>
      cases h
      exact ⟨⟨rx, rfl, rfl⟩, htakes⟩
    · cases h
  · cases h

theorem rxPn_of_taken (h : ctx.taken call = some raw) :
    (wifiStep ctx call).rxPn = headerPn raw := by
  obtain ⟨⟨rx, rfl, -⟩, -⟩ := taken_eq_some h
  rw [wifiStep_rxPn ctx WifiCall.noConfusion, h]
  rfl

theorem rxPnOfNonce_iff (ctx : WifiCtx) (call : WifiCall) :
    RxPnOfNonce ctx call ↔ SamePn ctx call := by
  constructor
  · intro hnonce raw hraw _
    exact (rxPn_of_taken hraw).symm.trans (hnonce raw hraw)
  · intro hsame raw hraw
    rw [rxPn_of_taken hraw]
    cases hfour : fourAddress raw with
    | true => exact hsame raw hraw hfour
    | false =>
      have htype := ((takes_eq_true_iff ctx raw).mp (taken_eq_some hraw).2).1.1
      exact headerPn_eq_noncePn htype hfour

theorem takenPns_increasing : ∀ (calls : List WifiCall) (ctx : WifiCtx),
    (∀ call ∈ calls, call ≠ .disconnect) → Steps wifiStep RxPnOfNonce ctx calls →
      (takenPns ctx calls).Pairwise (· < ·) ∧ ∀ n ∈ takenPns ctx calls, pnValue ctx.rxPn < n
  | [], _, _, _ => ⟨.nil, fun _ h => nomatch h⟩
  | call :: calls, ctx, hno, ⟨hnonce, hrest⟩ => by
    obtain ⟨hcall, hcalls⟩ := forall_mem_cons.mp hno
    obtain ⟨hpair, hlt⟩ := takenPns_increasing calls (wifiStep ctx call) hcalls hrest
    cases htaken : ctx.taken call with
    | none =>
      have hsame : (wifiStep ctx call).rxPn = ctx.rxPn := by
        rw [wifiStep_rxPn ctx hcall, htaken]
        rfl
      rw [hsame] at hlt
      simpa [takenPns, htaken] using ⟨hpair, hlt⟩
    | some raw =>
      have hnew : pnValue ctx.rxPn < pnValue (noncePn raw) := by
        have hgt := ((takes_eq_true_iff ctx raw).mp (taken_eq_some htaken).2).2
        rw [← rxPn_of_taken htaken, hnonce raw htaken] at hgt
        exact (pnGreater_iff _ _).mp hgt
      rw [hnonce raw htaken] at hlt
      have hall : takenPns ctx (call :: calls)
          = pnValue (noncePn raw) :: takenPns (wifiStep ctx call) calls := by
        simp [takenPns, htaken]
      rw [hall]
      refine ⟨.cons hlt hpair, forall_mem_cons.mpr ⟨hnew, fun n hn => ?_⟩⟩
      exact Nat.lt_trans hnew (hlt n hn)

/-- `rx_pn` follows the nonces of the frames taken, and these grow, exactly if in every frame with
four addresses the two places of the packet number agree. -/
theorem wifiRecv_replay_iff (ctx : WifiCtx) (calls : List WifiCall)
    (hno : ∀ call ∈ calls, call ≠ .disconnect) :
    (Steps wifiStep RxPnOfNonce ctx calls ∧ (takenPns ctx calls).Pairwise (· < ·)) ↔
      Steps wifiStep SamePn ctx calls := by
  rw [← steps_congr rxPnOfNonce_iff calls ctx]
  constructor
  · exact fun h => h.1
  · exact fun h => ⟨h, (takenPns_increasing calls ctx hno h).1⟩

def apData : PlainFrame where
  bytes := plainFrame.bytes
  isData := by decide
  clear := by decide
  whole := by decide

def wdsData : PlainFrame where
  bytes := [0x08, 0x03] ++ List.replicate 22 0 ++ List.replicate 6 0xFF ++ llcSnap 0x0800 ++ [42]
  isData := by decide
  clear := by decide
  whole := by decide

theorem forgedConnection_tk : forgedConnection.tk = zeroTable aesKeySize := by
  simp only [WifiCtx.tk, forgedConnection_ptk]
  rfl

theorem forgedConnection_rxPn : forgedConnection.rxPn = zeroTable ccmpPnLen := by
  rw [forgedConnection, wifiStep, wifiProcessFrame_rxPn]
  rfl

theorem takes_apData :
    forgedConnection.takes (apData.sealed (zeroTable aesKeySize) somePn).bytes = true := by
  have h := takes_sealed forgedConnection_ptkInstalled apData somePn
  rw [forgedConnection_tk] at h
  rw [h, apData.headerPn_sealed _ _ (by decide), forgedConnection_rxPn]
  decide

def sentTwice : List WifiCall :=
  List.replicate 2 (.recv (some (apData.sealed (zeroTable aesKeySize) somePn)))

/-- The frame is taken the first time. -/
theorem wifiRecv_replay_three_addresses :
    Steps wifiStep RxPnOfNonce forgedConnection sentTwice ∧
      (takenPns forgedConnection sentTwice).Pairwise (· < ·) ∧
      1 ∈ takenPns forgedConnection sentTwice := by
  have hsame : ∀ ctx, SamePn ctx (.recv (some (apData.sealed (zeroTable aesKeySize) somePn))) := by
    intro ctx raw hraw hfour
    obtain ⟨⟨rx, hrx, rfl⟩, -⟩ := taken_eq_some hraw
    cases hrx
    exact absurd hfour (by rw [PlainFrame.fourAddress_sealed]; decide)
  obtain ⟨hsteps, hpairs⟩ := (wifiRecv_replay_iff forgedConnection sentTwice
    (by simp [sentTwice])).mpr ⟨hsame _, hsame _, trivial⟩
  refine ⟨hsteps, hpairs, ?_⟩
  simp only [sentTwice, List.replicate, takenPns, taken_of_takes takes_apData, Option.map_some,
    PlainFrame.noncePn_sealed]
  exact mem_cons_self

theorem headerPn_wdsData : headerPn (wdsData.sealed (zeroTable aesKeySize) somePn).bytes
    = ⟨[0xFF, 0xFF, 0xFF, 0xFF, 1, 0], rfl⟩ := by
  decide +kernel

/-- A frame with packet number 1 leaves the first bytes of its fourth
address in `rx_pn`. -/
theorem wifiRecv_reads_fourth_address :
    noncePn (wdsData.sealed (zeroTable aesKeySize) somePn).bytes = somePn ∧
      (wifiStep forgedConnection
        (.recv (some (wdsData.sealed (zeroTable aesKeySize) somePn)))).rxPn
          = ⟨[0xFF, 0xFF, 0xFF, 0xFF, 1, 0], rfl⟩ ∧
      ¬ Steps wifiStep RxPnOfNonce (wifiInit stationMac)
        [.processFrame false (msg3Frame (zeroTable ptkLen)),
          .recv (some (wdsData.sealed (zeroTable aesKeySize) somePn))] := by
  have hnonce := wdsData.noncePn_sealed (zeroTable aesKeySize) somePn
  have htakes : forgedConnection.takes (wdsData.sealed (zeroTable aesKeySize) somePn).bytes
      = true := by
    have h := takes_sealed forgedConnection_ptkInstalled wdsData somePn
    rw [forgedConnection_tk] at h
    rw [h, headerPn_wdsData, forgedConnection_rxPn]
    decide
  have htaken : forgedConnection.taken (.recv (some (wdsData.sealed (zeroTable aesKeySize) somePn)))
      = some (wdsData.sealed (zeroTable aesKeySize) somePn).bytes := taken_of_takes htakes
  have hrx := (rxPn_of_taken htaken).trans headerPn_wdsData
  refine ⟨hnonce, hrx, ?_⟩
  rintro ⟨-, hof, -⟩
  have heq := (hof _ htaken).trans hnonce
  rw [← forgedConnection, hrx] at heq
  exact absurd heq (by decide)

/-! ## A new association -/

def pnOf (n : Nat) : Table UInt8 ccmpPnLen := ⟨leBytes ccmpPnLen n, length_leBytes ..⟩

theorem pnValue_pnOf (h : n < 2 ^ 48) : pnValue (pnOf n) = n :=
  (leNat_leBytes ccmpPnLen n).trans (Nat.mod_eq_of_lt h)

structure ThreeAddressFrame extends PlainFrame where
  threeAddress : fourAddress bytes = false

def frameStep (ctx : WifiCtx) (frame : Bool × RxFrame) : WifiCtx :=
  (wifiProcessFrame ctx frame.1 frame.2).2

section Peer

variable (tk : Table UInt8 aesKeySize)

def peerFrame (p : ThreeAddressFrame × Nat) : RxFrame := p.1.sealed tk (pnOf p.2)

def peerStep (ctx : WifiCtx) (p : ThreeAddressFrame × Nat) : WifiCtx :=
  wifiStep ctx (.recv (some (peerFrame tk p)))

def PeerAccepted (ctx : WifiCtx) (p : ThreeAddressFrame × Nat) : Prop :=
  ctx.takes (peerFrame tk p).bytes = true ∧
    (wifiRecv ctx (some (peerFrame tk p))).1 = (deliver p.1.bytes).1 ∧
    (wifiRecv ctx (some (peerFrame tk p))).2.1 = (deliver p.1.bytes).2

end Peer

theorem takes_peerFrame (hinst : ctx.ptkInstalled = true) (f : ThreeAddressFrame) (hn : n < 2 ^ 48)
    : ctx.takes (peerFrame ctx.tk (f, n)).bytes = true ↔ pnValue ctx.rxPn < n := by
  have hpn : headerPn (f.sealed ctx.tk (pnOf n)).bytes = pnOf n :=
    f.headerPn_sealed ctx.tk (pnOf n) f.threeAddress
  rw [peerFrame, takes_sealed hinst, hpn, pnGreater_iff, pnValue_pnOf hn]

theorem peerStep_of_takes {p : ThreeAddressFrame × Nat}
    (h : ctx.takes (peerFrame ctx.tk p).bytes = true) :
    peerStep ctx.tk ctx p = { ctx with rxPn := pnOf p.2 } := by
  rw [peerStep, wifiStep, peerFrame, wifiRecv_sealed h,
    p.1.headerPn_sealed ctx.tk (pnOf p.2) p.1.threeAddress]

theorem peerAccepted_iff : ∀ (frames : List ThreeAddressFrame) (k : Nat) (ctx : WifiCtx),
    ctx.ptkInstalled = true → k + frames.length ≤ 2 ^ 48 →
      (Steps (peerStep ctx.tk) (PeerAccepted ctx.tk) ctx (frames.zipIdx k) ↔
        frames = [] ∨ pnValue ctx.rxPn < k)
  | [], _, _, _, _ => by simp [Steps]
  | f :: frames, k, ctx, hinst, hlen => by
    rw [length_cons] at hlen
    have hk : k < 2 ^ 48 := by omega
    rw [zipIdx_cons, Steps]
    have hfirst := takes_peerFrame hinst f hk
    constructor
    · exact fun h => .inr (hfirst.mp h.1.1)
    · rintro (h | hlt)
      · cases h
      · have htakes := hfirst.mpr hlt
        have hrecv := wifiRecv_sealed htakes
        refine ⟨⟨htakes, congrArg Prod.fst hrecv, congrArg (fun r => r.2.1) hrecv⟩, ?_⟩
        rw [peerStep_of_takes htakes]
        refine (peerAccepted_iff frames (k + 1) { ctx with rxPn := pnOf k } hinst (by omega)).mpr ?_
        right
        rw [pnValue_pnOf hk]
        omega

theorem run_frameStep_rxPn (ctx : WifiCtx) (frames : List (Bool × RxFrame)) :
    (run frameStep ctx frames).rxPn = ctx.rxPn :=
  run_invariant (P := fun c => c.rxPn = ctx.rxPn)
    (fun c frame h => (wifiProcessFrame_rxPn c frame.1 frame.2).trans h) frames ctx rfl

theorem pnValue_eq_zero_iff (pn : Table UInt8 ccmpPnLen) :
    pnValue pn = 0 ↔ pn = zeroTable ccmpPnLen := by
  constructor
  · exact fun h => pnValue_inj (h.trans (by decide))
  · rintro rfl
    decide

theorem ptkInstalled_of_handshake {handshake : List (Bool × RxFrame)} (msg3 : Bool × RxFrame)
    (h : (run frameStep ctx handshake).accepts msg3.2.bytes = true) :
    (run frameStep ctx (handshake ++ [msg3])).ptkInstalled = true := by
  rw [run_append]
  exact ptkInstalled_of_accepts msg3.1 h

/-- After a handshake, the frames numbered from 1 on are all accepted exactly if `rx_pn` was zero
before. -/
theorem wifiRecv_resumes_iff (ctx : WifiCtx) (handshake : List (Bool × RxFrame))
    (msg3 : Bool × RxFrame) (frames : List ThreeAddressFrame)
    (hmsg3 : (run frameStep ctx handshake).accepts msg3.2.bytes = true)
    (hlen : frames.length < 2 ^ 48) :
    Steps (peerStep (run frameStep ctx (handshake ++ [msg3])).tk)
        (PeerAccepted (run frameStep ctx (handshake ++ [msg3])).tk)
        (run frameStep ctx (handshake ++ [msg3])) (frames.zipIdx 1) ↔
      frames = [] ∨ ctx.rxPn = zeroTable ccmpPnLen := by
  rw [peerAccepted_iff frames 1 _ (ptkInstalled_of_handshake msg3 hmsg3) (by omega),
    run_frameStep_rxPn, ← pnValue_eq_zero_iff,
    Nat.lt_one_iff]

def apFrame : ThreeAddressFrame := { apData with threeAddress := by decide }
def ptkAfterMsg1 (ctx : WifiCtx) : Table UInt8 ptkLen :=
  (run frameStep ctx [(false, msg1Frame)]).ptk

theorem wifiRecv_resumes_first :
    Steps (peerStep (run frameStep (wifiInit stationMac)
          ([(false, msg1Frame)] ++ [(false, msg3Frame (ptkAfterMsg1 (wifiInit stationMac)))])).tk)
        (PeerAccepted (run frameStep (wifiInit stationMac)
          ([(false, msg1Frame)] ++ [(false, msg3Frame (ptkAfterMsg1 (wifiInit stationMac)))])).tk)
        (run frameStep (wifiInit stationMac)
          ([(false, msg1Frame)] ++ [(false, msg3Frame (ptkAfterMsg1 (wifiInit stationMac)))]))
        ([apFrame, apFrame].zipIdx 1) :=
  (wifiRecv_resumes_iff (wifiInit stationMac) [(false, msg1Frame)]
    (false, msg3Frame (ptkAfterMsg1 (wifiInit stationMac))) [apFrame, apFrame]
    (accepts_msg3Frame _ rfl) (by decide)).mpr (.inr rfl)

def deauthFrame : RxFrame := ⟨[0xC0, 0x00] ++ List.replicate 24 0, 0, 0, 0⟩

def deauthenticated : WifiCtx :=
  run wifiStep (wifiInit stationMac)
    [.processFrame false (msg3Frame (zeroTable ptkLen)),
      .recv (some (apData.sealed (zeroTable aesKeySize) somePn)), .recv (some deauthFrame)]

theorem deauthenticated_rxPn : deauthenticated.rxPn = somePn := by
  have hdeauth : ∀ ctx : WifiCtx, (wifiStep ctx (.recv (some deauthFrame))).rxPn = ctx.rxPn := by
    intro ctx
    rfl
  rw [deauthenticated, run_cons, run_cons, run_cons, run_nil, hdeauth, ← forgedConnection,
    rxPn_of_taken (taken_of_takes takes_apData)]
  exact apData.headerPn_sealed _ _ apFrame.threeAddress

theorem wifiRecv_refuses_after_deauth :
    carriesMsg1 msg1Frame.bytes = true ∧
      (run frameStep deauthenticated [(false, msg1Frame)]).accepts
        (msg3Frame (ptkAfterMsg1 deauthenticated)).bytes = true ∧
      ¬ Steps (peerStep (run frameStep deauthenticated
            ([(false, msg1Frame)] ++ [(false, msg3Frame (ptkAfterMsg1 deauthenticated))])).tk)
          (PeerAccepted (run frameStep deauthenticated
            ([(false, msg1Frame)] ++ [(false, msg3Frame (ptkAfterMsg1 deauthenticated))])).tk)
          (run frameStep deauthenticated
            ([(false, msg1Frame)] ++ [(false, msg3Frame (ptkAfterMsg1 deauthenticated))]))
          ([apFrame].zipIdx 1) := by
  have hacc : (run frameStep deauthenticated [(false, msg1Frame)]).accepts
      (msg3Frame (ptkAfterMsg1 deauthenticated)).bytes = true := accepts_msg3Frame _ rfl
  refine ⟨by decide +kernel, hacc, ?_⟩
  have hinst := ptkInstalled_of_handshake (false, msg3Frame (ptkAfterMsg1 deauthenticated)) hacc
  rw [peerAccepted_iff [apFrame] 1 _ hinst (by decide), run_frameStep_rxPn, deauthenticated_rxPn]
  decide

end AlJefra.Network
