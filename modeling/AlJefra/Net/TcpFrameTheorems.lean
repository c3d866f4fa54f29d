/- The bytes of a TCP segment on the wire. -/
import AlJefra.Lib.OnesComplement
import AlJefra.Net.Tcp

namespace AlJefra.Net

open AlJefra.Lib List

/-! ## Fields -/

theorem length_htons (v : UInt16) : (htons v).length = 2 := by simp [htons, length_leBytes]
theorem length_htonl (v : UInt32) : (htonl v).length = 4 := by simp [htonl, length_leBytes]

variable {pre : List UInt8} {n off : Nat}

theorem ntohs_append (h : pre.length = off) (v : UInt16) (post : List UInt8) :
    ntohs (pre ++ (htons v ++ post)) off = v := by
  have hlt : v.toNat < 256 ^ 2 := v.toNat_lt
  subst h
  rw [ntohs, drop_left, ← length_htons v, take_left, htons, reverse_reverse,
    leNat_leBytes, Nat.mod_eq_of_lt hlt, UInt16.ofNat_toNat]

theorem ntohl_append (h : pre.length = off) (v : UInt32) (post : List UInt8) :
    ntohl (pre ++ (htonl v ++ post)) off = v := by
  have hlt : v.toNat < 256 ^ 4 := v.toNat_lt
  subst h
  rw [ntohl, drop_left, ← length_htonl v, take_left, htonl, reverse_reverse,
    leNat_leBytes, Nat.mod_eq_of_lt hlt, UInt32.ofNat_toNat]

theorem getD_append_cons (h : pre.length = off) (b : UInt8) (post : List UInt8) :
    (pre ++ b :: post).getD off 0 = b := by
  subst h
  simp

section

variable (h : pre.length = n) (rest : List UInt8) (k : Nat)
include h rest k

theorem ntohs_right :
    ntohs (pre ++ rest) (n + k) = ntohs rest k := by
  subst h
  rw [ntohs, ntohs, ← drop_drop, drop_left]

theorem ntohl_right :
    ntohl (pre ++ rest) (n + k) = ntohl rest k := by
  subst h
  rw [ntohl, ntohl, ← drop_drop, drop_left]

theorem getD_right :
    (pre ++ rest).getD (n + k) 0 = rest.getD k 0 := by
  subst h
  rw [getD_eq_getElem?_getD, getElem?_append_right (by omega),
    Nat.add_sub_cancel_left, getD_eq_getElem?_getD]

end

/-! ## Datagrams -/

structure Datagram where
  macs : List UInt8
  tos : UInt8
  /-- Identification, flags and fragment offset. -/
  idFrag : List UInt8
  ttl : UInt8
  ipSum : List UInt8
  srcIp : UInt32
  dstIp : UInt32
  ipOptions : List UInt8
  srcPort : UInt16
  dstPort : UInt16
  seq : UInt32
  ack : UInt32
  /-- The four bits beside the data offset. -/
  reserved : Nat
  flags : UInt8
  /-- Window, checksum and urgent pointer. -/
  window : List UInt8
  tcpOptions : List UInt8
  payload : List UInt8
  /-- What follows the datagram in the frame. -/
  trailer : List UInt8
  macs_len : macs.length = 12
  idFrag_len : idFrag.length = 4
  ipSum_len : ipSum.length = 2
  window_len : window.length = 6
  reserved_lt : reserved < 16
  ipOptions_words : ipOptions.length % 4 = 0
  ipOptions_le : ipOptions.length ≤ 40
  tcpOptions_words : tcpOptions.length % 4 = 0
  tcpOptions_le : tcpOptions.length ≤ 40
  total_lt : 40 + ipOptions.length + tcpOptions.length + payload.length < 2 ^ 16

namespace Datagram

variable (d : Datagram)

def ihl : Nat := 5 + d.ipOptions.length / 4
def dataOff : Nat := 5 + d.tcpOptions.length / 4
def ipTotal : Nat := 40 + d.ipOptions.length + d.tcpOptions.length + d.payload.length

def front : List UInt8 :=
  d.macs ++ (htons 0x0800 ++ (UInt8.ofNat (64 + d.ihl) :: d.tos ::
    (htons (UInt16.ofNat d.ipTotal) ++ (d.idFrag ++ (d.ttl :: 6 ::
      (d.ipSum ++ (htonl d.srcIp ++ htonl d.dstIp)))))))

def segmentBytes : List UInt8 :=
  htons d.srcPort ++ (htons d.dstPort ++ (htonl d.seq ++ (htonl d.ack ++
    (UInt8.ofNat (16 * d.dataOff + d.reserved) :: d.flags ::
      (d.window ++ (d.tcpOptions ++ (d.payload ++ d.trailer)))))))

def back : List UInt8 := d.ipOptions ++ d.segmentBytes
def encode : List UInt8 := d.front ++ d.back
def segment : Segment := ⟨d.flags, d.seq, d.ack, d.payload⟩
def endpoints : Endpoints := ⟨d.dstIp, d.dstPort, d.srcIp, d.srcPort⟩

theorem length_front : d.front.length = 34 := by
  simp [front, length_htons, length_htonl, d.macs_len, d.idFrag_len, d.ipSum_len]

theorem length_segmentBytes : d.segmentBytes.length =
    20 + d.tcpOptions.length + d.payload.length + d.trailer.length := by
  simp only [segmentBytes, length_append, length_cons, length_htons, length_htonl,
    d.window_len]
  omega

theorem length_encode : d.encode.length = 14 + d.ipTotal + d.trailer.length := by
  simp only [encode, back, length_append, d.length_front, d.length_segmentBytes, ipTotal]
  omega

theorem ihl_le : d.ihl ≤ 15 := by
  have := d.ipOptions_le
  unfold ihl
  omega

theorem dataOff_le : d.dataOff ≤ 15 := by
  have := d.tcpOptions_le
  unfold dataOff
  omega

/-! ### The fields in front -/

section Front

variable (rest : List UInt8)

theorem front_ethType : ntohs (d.front ++ rest) 12 = 0x0800 := by
  simp only [front, append_assoc]
  exact ntohs_append d.macs_len _ _

theorem front_verIhl : (d.front ++ rest).getD 14 0 = UInt8.ofNat (64 + d.ihl) := by
  have hpre : (d.macs ++ htons 0x0800).length = 14 := by simp [d.macs_len, length_htons]
  simp only [front, append_assoc, cons_append]
  rw [← append_assoc]
  exact getD_append_cons hpre _ _

theorem front_ipLen : ntohs (d.front ++ rest) 16 = UInt16.ofNat d.ipTotal := by
  have hpre : (d.macs ++ (htons 0x0800 ++ [UInt8.ofNat (64 + d.ihl), d.tos])).length = 16 := by
    simp [d.macs_len, length_htons]
  have h := ntohs_append hpre (UInt16.ofNat d.ipTotal) (d.idFrag ++ (d.ttl :: 6 ::
      (d.ipSum ++ (htonl d.srcIp ++ (htonl d.dstIp ++ rest)))))
  simpa only [front, append_assoc, cons_append, nil_append] using h

theorem front_fields : (d.front ++ rest).getD 23 0 = 6 ∧
    ntohl (d.front ++ rest) 26 = d.srcIp ∧ ntohl (d.front ++ rest) 30 = d.dstIp := by
  obtain ⟨pre, hpre, hfront⟩ : ∃ pre : List UInt8, pre.length = 23 ∧ d.front ++ rest =
      pre ++ 6 :: (d.ipSum ++ (htonl d.srcIp ++ (htonl d.dstIp ++ rest))) :=
    ⟨d.macs ++ (htons 0x0800 ++ (UInt8.ofNat (64 + d.ihl) :: d.tos ::
      (htons (UInt16.ofNat d.ipTotal) ++ (d.idFrag ++ [d.ttl])))),
      by simp [d.macs_len, length_htons, d.idFrag_len], by simp [front]⟩
  have hsum : (pre ++ 6 :: d.ipSum).length = 26 := by simp [hpre, d.ipSum_len]
  have hsrc : (pre ++ 6 :: (d.ipSum ++ htonl d.srcIp)).length = 30 := by
    simp [hpre, d.ipSum_len, length_htonl]
  rw [hfront]
  refine ⟨getD_append_cons hpre _ _, ?_, ?_⟩
  · simpa using ntohl_append hsum d.srcIp (htonl d.dstIp ++ rest)
  · simpa using ntohl_append hsrc d.dstIp rest

end Front

theorem toNat_verIhl : (UInt8.ofNat (64 + d.ihl) &&& 0x0F).toNat = d.ihl := by
  have hle := d.ihl_le
  rw [UInt8.toNat_and, UInt8.toNat_ofNat']
  refine (Nat.and_two_pow_sub_one_eq_mod _ 4).trans ?_
  omega

theorem toNat_dataOff : (UInt8.ofNat (16 * d.dataOff + d.reserved) >>> 4).toNat = d.dataOff := by
  have hle := d.dataOff_le
  have hlt := d.reserved_lt
  rw [UInt8.toNat_shiftRight, UInt8.toNat_ofNat']
  refine (Nat.shiftRight_eq_div_pow _ 4).trans ?_
  omega

theorem toNat_ipTotal : (UInt16.ofNat d.ipTotal).toNat = d.ipTotal := by
  have hlt : d.ipTotal < 2 ^ 16 := d.total_lt
  rw [UInt16.toNat_ofNat', Nat.mod_eq_of_lt hlt]

end Datagram

/-! ## Parsing -/

def readDataOff (rest : List UInt8) : Nat := (rest.getD 12 0 >>> 4).toNat

theorem recvTcpFrame_eq (d : Datagram) {rest : List UInt8} (hlen : 20 ≤ rest.length)
    (e : Endpoints) (max : Nat) (hsrc : d.srcIp = e.remoteIp) (hdst : d.dstIp = e.localIp) :
    recvTcpFrame e max (d.front ++ rest) =
      if ntohs rest 0 ≠ e.remotePort then none
      else if ntohs rest 2 ≠ e.localPort then none
      else some
        { flags := rest.getD 13 0
          seq := ntohl rest 4
          ack := ntohl rest 8
          payload := ((d.front ++ rest).drop (14 + d.ihl * 4 + readDataOff rest * 4)).take
            (min (min (34 + rest.length - (14 + d.ihl * 4 + readDataOff rest * 4))
              (d.ipTotal - (d.ihl * 4 + readDataOff rest * 4))) max) } := by
  have h34 := d.length_front
  have hfull : (d.front ++ rest).length = 34 + rest.length := by rw [length_append, h34]
  have hlong : ¬ 34 + rest.length < tcpFrameHdr := by
    rw [tcpFrameHdr]
    omega
  have hport := ntohs_right h34 rest 0
  have hport' := ntohs_right h34 rest 2
  have hseq := ntohl_right h34 rest 4
  have hack := ntohl_right h34 rest 8
  have hoff := getD_right h34 rest 12
  have hflags := getD_right h34 rest 13
  simp only [recvTcpFrame, if_neg hlong, d.front_ethType, d.front_fields, d.front_verIhl,
    d.front_ipLen, d.toNat_verIhl, d.toNat_ipTotal, hsrc, hdst, hport, hport',
    hseq, hack, hoff, hflags, hfull, readDataOff, ne_eq, not_true_eq_false, if_false]

/-- Behind the fixed IPv4 header stands what reads as the TCP header, with the same payload. -/
structure Datagram.Overlay (d : Datagram) : Prop where
  srcPort : ntohs d.back 0 = d.srcPort
  dstPort : ntohs d.back 2 = d.dstPort
  seq : ntohl d.back 4 = d.seq
  ack : ntohl d.back 8 = d.ack
  flags : d.back.getD 13 0 = d.flags
  dataOff : readDataOff d.back = d.dataOff ∨ (d.payload = [] ∧ d.dataOff ≤ readDataOff d.back)

namespace Datagram

variable (d : Datagram)

section Segment

theorem segmentBytes_srcPort : ntohs d.segmentBytes 0 = d.srcPort := by
  simpa only [segmentBytes, nil_append] using ntohs_append length_nil d.srcPort _

theorem segmentBytes_dstPort : ntohs d.segmentBytes 2 = d.dstPort :=
  ntohs_append (length_htons d.srcPort) _ _

theorem segmentBytes_seq : ntohl d.segmentBytes 4 = d.seq := by
  have hpre : (htons d.srcPort ++ htons d.dstPort).length = 4 := by simp [length_htons]
  simpa only [segmentBytes, append_assoc] using ntohl_append hpre d.seq _

theorem segmentBytes_ack : ntohl d.segmentBytes 8 = d.ack := by
  have hpre : (htons d.srcPort ++ (htons d.dstPort ++ htonl d.seq)).length = 8 := by
    simp [length_htons, length_htonl]
  simpa only [segmentBytes, append_assoc] using ntohl_append hpre d.ack _

theorem segmentBytes_dataOff : readDataOff d.segmentBytes = d.dataOff := by
  have hpre : (htons d.srcPort ++ (htons d.dstPort ++ (htonl d.seq ++ htonl d.ack))).length
      = 12 := by
    simp [length_htons, length_htonl]
  have h : d.segmentBytes.getD 12 0 = UInt8.ofNat (16 * d.dataOff + d.reserved) := by
    simpa only [segmentBytes, append_assoc] using getD_append_cons hpre _ _
  rw [readDataOff, h, d.toNat_dataOff]

theorem segmentBytes_flags : d.segmentBytes.getD 13 0 = d.flags := by
  have hpre : (htons d.srcPort ++ (htons d.dstPort ++ (htonl d.seq ++ (htonl d.ack ++
      [UInt8.ofNat (16 * d.dataOff + d.reserved)])))).length = 13 := by
    simp [length_htons, length_htonl]
  simpa only [segmentBytes, append_assoc, cons_append, nil_append] using
    getD_append_cons hpre d.flags _

end Segment

theorem overlay_of_no_options (h : d.ipOptions = []) : d.Overlay := by
  have hback : d.back = d.segmentBytes := by rw [back, h, nil_append]
  constructor
  · rw [hback, d.segmentBytes_srcPort]
  · rw [hback, d.segmentBytes_dstPort]
  · rw [hback, d.segmentBytes_seq]
  · rw [hback, d.segmentBytes_ack]
  · rw [hback, d.segmentBytes_flags]
  · exact .inl (by rw [hback, d.segmentBytes_dataOff])

theorem drop_encode : d.encode.drop (14 + d.ihl * 4 + d.dataOff * 4) = d.payload ++ d.trailer := by
  have hip := d.ipOptions_words
  have htcp := d.tcpOptions_words
  have hpre : (d.front ++ (d.ipOptions ++ (htons d.srcPort ++ (htons d.dstPort ++ (htonl d.seq ++
      (htonl d.ack ++ (UInt8.ofNat (16 * d.dataOff + d.reserved) :: d.flags ::
        (d.window ++ d.tcpOptions)))))))).length = 14 + d.ihl * 4 + d.dataOff * 4 := by
    simp only [length_append, length_cons, length_htons, length_htonl, d.length_front,
      d.window_len, ihl, Datagram.dataOff]
    omega
  have hsplit : d.encode = (d.front ++ (d.ipOptions ++ (htons d.srcPort ++ (htons d.dstPort ++
      (htonl d.seq ++ (htonl d.ack ++ (UInt8.ofNat (16 * d.dataOff + d.reserved) :: d.flags ::
        (d.window ++ d.tcpOptions)))))))) ++ (d.payload ++ d.trailer) := by
    simp only [encode, back, segmentBytes, append_assoc, cons_append]
  rw [hsplit, ← hpre, drop_left]

theorem length_back : 34 + d.back.length = 14 + d.ipTotal + d.trailer.length := by
  rw [← d.length_encode, encode, length_append, d.length_front]

theorem length_payload : d.payload.length = d.ipTotal - (d.ihl * 4 + d.dataOff * 4) := by
  have hip := d.ipOptions_words
  have htcp := d.tcpOptions_words
  unfold ipTotal ihl dataOff
  omega

def taken (k max : Nat) : List UInt8 :=
  (d.encode.drop (14 + d.ihl * 4 + k * 4)).take
    (min (min (34 + d.back.length - (14 + d.ihl * 4 + k * 4))
      (d.ipTotal - (d.ihl * 4 + k * 4))) max)

theorem length_taken (k max : Nat) :
    (d.taken k max).length = min (d.ipTotal - (d.ihl * 4 + k * 4)) max := by
  have hback := d.length_back
  rw [taken, length_take, length_drop, d.length_encode]
  omega

theorem taken_dataOff {max : Nat} (h : d.payload.length ≤ max) :
    d.taken d.dataOff max = d.payload := by
  have hback := d.length_back
  have hpay := d.length_payload
  rw [taken, d.drop_encode, show min (min (34 + d.back.length - (14 + d.ihl * 4 + d.dataOff * 4))
    (d.ipTotal - (d.ihl * 4 + d.dataOff * 4))) max = d.payload.length by omega, take_left]

theorem taken_eq_payload_iff (k : Nat) :
    (∀ max, d.payload.length ≤ max → d.taken k max = d.payload) ↔
      k = d.dataOff ∨ (d.payload = [] ∧ d.dataOff ≤ k) := by
  have hpay := d.length_payload
  constructor
  · intro h
    -- one byte of room beyond the payload tells a longer reading apart
    have hlen := congrArg length (h (d.payload.length + 1) (Nat.le_succ _))
    rw [d.length_taken] at hlen
    by_cases hk : k = d.dataOff
    · exact .inl hk
    · have htotal : d.ihl * 4 + d.dataOff * 4 ≤ d.ipTotal := by
        unfold ipTotal ihl dataOff
        omega
      have hzero : d.payload.length = 0 := by omega
      exact .inr ⟨length_eq_zero_iff.mp hzero, by omega⟩
  · rintro (rfl | ⟨hnil, hle⟩) max hmax
    · exact d.taken_dataOff hmax
    · have hzero : d.payload.length = 0 := by rw [hnil]; rfl
      have hlen := d.length_taken k max
      rw [hnil]
      exact length_eq_zero_iff.mp (by omega)

theorem recvTcpFrame_encode (max : Nat) : recvTcpFrame d.endpoints max d.encode =
      if ntohs d.back 0 ≠ d.srcPort then none
      else if ntohs d.back 2 ≠ d.dstPort then none
      else some ⟨d.back.getD 13 0, ntohl d.back 4, ntohl d.back 8,
        d.taken (readDataOff d.back) max⟩ := by
  have hlen : 20 ≤ d.back.length := by
    rw [back, length_append, d.length_segmentBytes]
    omega
  exact recvTcpFrame_eq d hlen d.endpoints max rfl rfl

theorem recvTcpFrame_segment_iff :
    (∀ max, d.payload.length ≤ max → recvTcpFrame d.endpoints max d.encode = some d.segment) ↔
      d.Overlay := by
  constructor
  · intro h
    have hparts : ∀ max, d.payload.length ≤ max → ntohs d.back 0 = d.srcPort ∧
        ntohs d.back 2 = d.dstPort ∧ d.back.getD 13 0 = d.flags ∧ ntohl d.back 4 = d.seq ∧
        ntohl d.back 8 = d.ack ∧ d.taken (readDataOff d.back) max = d.payload := by
      intro max hmax
      have hrecv := h max hmax
      rw [d.recvTcpFrame_encode] at hrecv
      split at hrecv
      · cases hrecv
      · rename_i hsrc
        split at hrecv
        · cases hrecv
        · rename_i hdst
          simp only [segment, Option.some.injEq, Segment.mk.injEq] at hrecv
          exact ⟨not_not.mp hsrc, not_not.mp hdst, hrecv⟩
    obtain ⟨hsrc, hdst, hflags, hseq, hack, -⟩ := hparts _ (Nat.le_refl _)
    exact ⟨hsrc, hdst, hseq, hack, hflags,
      (d.taken_eq_payload_iff _).mp fun max hmax => (hparts max hmax).2.2.2.2.2⟩
  · intro h max hmax
    have hpay := (d.taken_eq_payload_iff _).mpr h.dataOff max hmax
    rw [d.recvTcpFrame_encode, if_neg (not_not.mpr h.srcPort), if_neg (not_not.mpr h.dstPort),
      h.flags, h.seq, h.ack, hpay, segment]

end Datagram

/-! ## Reads within the frame -/

def ntohs? (frame : List UInt8) (off : Nat) : Option UInt16 :=
  if off + 2 ≤ frame.length then some (ntohs frame off) else none

def ntohl? (frame : List UInt8) (off : Nat) : Option UInt32 :=
  if off + 4 ≤ frame.length then some (ntohl frame off) else none

def copy? (frame : List UInt8) (off n : Nat) : Option (List UInt8) :=
  if n = 0 ∨ off + n ≤ frame.length then some ((frame.drop off).take n) else none

def recvTcpFrameChecked (e : Endpoints) (maxPayload : Nat) (frame : List UInt8) :
    Option (Option Segment) :=
  if frame.length < tcpFrameHdr then some none
  else do
    let ethType ← ntohs? frame 12
    if ethType ≠ 0x0800 then return none
    let proto ← frame[23]?
    if proto ≠ 6 then return none
    let src ← ntohl? frame 26
    if src ≠ e.remoteIp then return none
    let dst ← ntohl? frame 30
    if dst ≠ e.localIp then return none
    let srcPort ← ntohs? frame 34
    if srcPort ≠ e.remotePort then return none
    let dstPort ← ntohs? frame 36
    if dstPort ≠ e.localPort then return none
    let flags ← frame[47]?
    let seq ← ntohl? frame 38
    let ack ← ntohl? frame 42
    let verIhl ← frame[14]?
    let dataOff ← frame[46]?
    let ipLen ← ntohs? frame 16
    let ipHdrLen := (verIhl &&& 0x0F).toNat * 4
    let tcpHdrLen := (dataOff >>> 4).toNat * 4
    let hdrTotal := 14 + ipHdrLen + tcpHdrLen
    let payloadLen := min (frame.length - hdrTotal) (ipLen.toNat - (ipHdrLen + tcpHdrLen))
    let payload ← copy? frame hdrTotal (min payloadLen maxPayload)
    return some ⟨flags, seq, ack, payload⟩

theorem recvTcpFrameChecked_eq (e : Endpoints) (maxPayload : Nat) (frame : List UInt8) :
    recvTcpFrameChecked e maxPayload frame = some (recvTcpFrame e maxPayload frame) := by
  unfold recvTcpFrameChecked recvTcpFrame
  by_cases hshort : frame.length < tcpFrameHdr
  · rw [if_pos hshort, if_pos hshort]
  · rw [tcpFrameHdr, Nat.not_lt] at hshort
    have hbyte : ∀ i, i < 54 → frame[i]? = some (frame.getD i 0) := by
      intro i hi
      have hlt : i < frame.length := by omega
      rw [getD_eq_getElem?_getD, getElem?_eq_getElem hlt, Option.getD_some]
    have hshorts : ∀ i, i + 2 ≤ 54 → ntohs? frame i = some (ntohs frame i) := by
      intro i hi
      exact if_pos (by omega)
    have hlongs : ∀ i, i + 4 ≤ 54 → ntohl? frame i = some (ntohl frame i) := by
      intro i hi
      exact if_pos (by omega)
    have hcopy : ∀ off n m, copy? frame off (min (min (frame.length - off) n) m) =
        some ((frame.drop off).take (min (min (frame.length - off) n) m)) := by
      intro off n m
      exact if_pos (by omega)
    simp only [hbyte 23 (by omega), hbyte 47 (by omega), hbyte 14 (by omega), hbyte 46 (by omega),
      hshorts 12 (by omega), hshorts 34 (by omega), hshorts 36 (by omega), hshorts 16 (by omega),
      hlongs 26 (by omega), hlongs 30 (by omega), hlongs 38 (by omega), hlongs 42 (by omega),
      hcopy, Option.bind_eq_bind, Option.bind_some, Option.pure_def, apply_ite some]

/-- For every datagram: `recv_tcp_frame` yields exactly its segment, and reads in bounds, if and
only if what stands at offset 34 reads as the TCP header. -/
theorem recvTcpFrame_encode_iff (d : Datagram) :
    ((∀ max, d.payload.length ≤ max → recvTcpFrame d.endpoints max d.encode = some d.segment) ∧
      ∀ e max frame, recvTcpFrameChecked e max frame = some (recvTcpFrame e max frame)) ↔
      d.Overlay := by
  rw [← d.recvTcpFrame_segment_iff]
  exact and_iff_left recvTcpFrameChecked_eq

def routerAlert : Datagram where
  macs := List.replicate 12 0
  tos := 0
  idFrag := [0, 1, 0x40, 0]
  ttl := 64
  ipSum := [0, 0]
  srcIp := 0x0A000002
  dstIp := 0x0A000001
  ipOptions := [0x94, 4, 0, 0]
  srcPort := 80
  dstPort := 49152
  seq := 1
  ack := 1
  reserved := 0
  flags := 0x18
  window := [0xFF, 0xFF, 0, 0, 0, 0]
  tcpOptions := []
  payload := [0x61]
  trailer := []
  macs_len := rfl
  idFrag_len := rfl
  ipSum_len := rfl
  window_len := rfl
  reserved_lt := by decide
  ipOptions_words := by decide
  ipOptions_le := by decide
  tcpOptions_words := by decide
  tcpOptions_le := by decide
  total_lt := by decide

theorem recvTcpFrame_routerAlert :
    routerAlert.ihl = 6 ∧ recvTcpFrame routerAlert.endpoints 1460 routerAlert.encode = none := by
  decide +kernel

/-! ## Emitted frames -/

theorem toNat_addWords : ∀ (sum : UInt32) (data : List UInt8),
    (addWords sum data).toNat = (sum.toNat + wordSum data) % 2 ^ 32
  | sum, [] => by
    rw [addWords, wordSum, add_zero, Nat.mod_eq_of_lt sum.toNat_lt]
  | sum, [b] => by
    rw [addWords, wordSum, UInt32.toNat_add, UInt8.toNat_toUInt32]
  | sum, a :: b :: rest => by
    have hb := b.toNat_lt
    have hshift : (b.toUInt32 <<< 8).toNat = 256 * b.toNat := by
      rw [UInt32.toNat_shiftLeft, UInt8.toNat_toUInt32]
      refine (congrArg (· % 2 ^ 32) (Nat.shiftLeft_eq b.toNat 8)).trans ?_
      omega
    rw [addWords, toNat_addWords, wordSum, UInt32.toNat_add, UInt32.toNat_add, hshift,
      UInt8.toNat_toUInt32]
    omega

theorem toNat_foldSum (sum : UInt32) : (foldSum sum).toNat = 65535 - carry (carry sum.toNat) := by
  have hlt := foldCarry_twice_lt sum
  have hfold : (foldCarry (foldCarry sum)).toNat = carry (carry sum.toNat) := by
    rw [toNat_foldCarry, toNat_foldCarry]
    rfl
  rw [foldSum, UInt16.toNat_not, UInt32.toNat_toUInt16, Nat.mod_eq_of_lt hlt, hfold]
  rfl

theorem toNat_ipChecksum {data : List UInt8} (h : wordSum data < 2 ^ 32) :
    (ipChecksum data).toNat = 65535 - carry (carry (wordSum data)) := by
  rw [ipChecksum, toNat_foldSum, toNat_addWords, UInt32.toNat_zero, zero_add,
    Nat.mod_eq_of_lt h]

theorem ipChecksum_verifies {post : List UInt8} (heven : pre.length % 2 = 0)
    (hpos : 0 < wordSum (pre ++ ([0, 0] ++ post))) (hlen : pre.length + post.length ≤ 65536) :
    ipChecksum (pre ++ (leBytes 2 (ipChecksum (pre ++ ([0, 0] ++ post))).toNat ++ post)) = 0 := by
  set n := wordSum (pre ++ ([0, 0] ++ post)) with hn
  have hsum : ∀ field : List UInt8, field.length = 2 →
      wordSum (pre ++ (field ++ post)) = wordSum pre + wordSum field + wordSum post := by
    intro field hfield
    rw [wordSum_append _ _ heven, wordSum_append _ _ (by rw [hfield]), add_assoc]
  have hzero : n = wordSum pre + wordSum post := by
    rw [hn, hsum _ rfl]
    rfl
  have hle := wordSum_le pre
  have hle' := wordSum_le post
  have hlt : n + 65535 < 2 ^ 32 := by omega
  have hcks : (ipChecksum (pre ++ ([0, 0] ++ post))).toNat = 65535 - carry (carry n) :=
    toNat_ipChecksum (by omega)
  have htotal : wordSum (pre ++ (leBytes 2 (65535 - carry (carry n)) ++ post)) =
      n + (65535 - carry (carry n)) := by
    rw [hsum _ (length_leBytes 2 _), wordSum_leBytes (by omega), hzero]
    omega
  have hpos' : 0 < n := hpos
  apply UInt16.toNat_inj.mp
  rw [hcks, toNat_ipChecksum (by rw [htotal]; omega), htotal, carry_carry_complement hlt hpos']
  rfl

def Endpoints.flip (e : Endpoints) : Endpoints :=
  ⟨e.remoteIp, e.remotePort, e.localIp, e.localPort⟩

section Emitted

variable (c : TcpConn) (ipId : UInt16) (flags : UInt8) (data : List UInt8)

def sentIpSum : List UInt8 :=
  leBytes 2 (ipChecksum (ipHeader c ipId (UInt16.ofNat (40 + data.length)) [0, 0])).toNat

def sentTcpSum : List UInt8 :=
  leBytes 2 (tcpChecksum c.localIp c.remoteIp (tcpHeader c flags [0, 0] ++ data)).toNat

def sentDatagram (hlocal : c.localMac.length = 6) (hremote : c.remoteMac.length = 6)
    (hdata : data.length ≤ 1460) : Datagram where
  macs := c.remoteMac ++ c.localMac
  tos := 0
  idFrag := htons ipId ++ htons 0x4000
  ttl := 64
  ipSum := sentIpSum c ipId data
  srcIp := c.localIp
  dstIp := c.remoteIp
  ipOptions := []
  srcPort := c.localPort
  dstPort := c.remotePort
  seq := c.seqNum
  ack := c.ackNum
  reserved := 0
  flags := flags
  window := htons 65535 ++ sentTcpSum c flags data ++ [0, 0]
  tcpOptions := []
  payload := data
  trailer := List.replicate (6 - data.length) 0
  macs_len := by simp [hlocal, hremote]
  idFrag_len := by simp [length_htons]
  ipSum_len := length_leBytes 2 _
  window_len := by simp [length_htons, sentTcpSum, length_leBytes]
  reserved_lt := by decide
  ipOptions_words := rfl
  ipOptions_le := by simp
  tcpOptions_words := rfl
  tcpOptions_le := by simp
  total_lt := by
    simp only [length_nil]
    omega

variable {cksum : List UInt8}

theorem length_ipHeader (ipTotal : UInt16) (h : cksum.length = 2) :
    (ipHeader c ipId ipTotal cksum).length = 20 := by
  simp [ipHeader, length_htons, length_htonl, h]

theorem length_tcpHeader (h : cksum.length = 2) : (tcpHeader c flags cksum).length = 20 := by
  simp [tcpHeader, length_htons, length_htonl, h]

def sentEth : List UInt8 := c.remoteMac ++ (c.localMac ++ htons 0x0800)

def sentIp : List UInt8 :=
  ipHeader c ipId (UInt16.ofNat (40 + data.length)) (sentIpSum c ipId data)

def sentTcp : List UInt8 := tcpHeader c flags (sentTcpSum c flags data) ++ data

theorem length_sentIp : (sentIp c ipId data).length = 20 :=
  length_ipHeader c ipId _ (length_leBytes 2 _)

theorem length_sentTcp : (sentTcp c flags data).length = 20 + data.length := by
  have hlen : (sentTcpSum c flags data).length = 2 := length_leBytes 2 _
  rw [sentTcp, length_append, length_tcpHeader c flags hlen]

variable {c ipId flags data}

section

variable (hlocal : c.localMac.length = 6) (hremote : c.remoteMac.length = 6)
include hlocal hremote

theorem length_sentEth :
    (sentEth c).length = 14 := by
  simp [sentEth, hlocal, hremote, length_htons]

theorem tcpFrame_parts :
    tcpFrame c ipId flags data = sentEth c ++ (sentIp c ipId data ++
      (sentTcp c flags data ++ replicate (6 - data.length) 0)) := by
  have hframe : c.remoteMac ++ c.localMac ++ htons 0x0800 ++ sentIp c ipId data ++
      tcpHeader c flags (sentTcpSum c flags data) ++ data =
        sentEth c ++ (sentIp c ipId data ++ sentTcp c flags data) := by
    simp only [sentEth, sentTcp, append_assoc]
  have hlen : (sentEth c ++ (sentIp c ipId data ++ sentTcp c flags data)).length =
      54 + data.length := by
    rw [length_append, length_append, length_sentEth hlocal hremote, length_sentIp, length_sentTcp]
    omega
  change c.remoteMac ++ c.localMac ++ htons 0x0800 ++ sentIp c ipId data ++
    tcpHeader c flags (sentTcpSum c flags data) ++ data ++ replicate (60 - length
      (c.remoteMac ++ c.localMac ++ htons 0x0800 ++ sentIp c ipId data ++
        tcpHeader c flags (sentTcpSum c flags data) ++ data)) 0 = _
  rw [hframe, hlen, show 60 - (54 + data.length) = 6 - data.length by omega]
  simp only [append_assoc]

theorem tcpFrame_eq_encode
    (hdata : data.length ≤ 1460) :
    tcpFrame c ipId flags data = (sentDatagram c ipId flags data hlocal hremote hdata).encode := by
  rw [tcpFrame_parts hlocal hremote]
  simp only [sentEth, sentIp, sentTcp, ipHeader, tcpHeader, Datagram.encode, Datagram.front,
    Datagram.back, Datagram.segmentBytes, Datagram.ihl, Datagram.dataOff, Datagram.ipTotal,
    sentDatagram, append_assoc, cons_append, nil_append, length_nil]
  rfl

end

theorem ipChecksum_sentIp : ipChecksum (sentIp c ipId data) = 0 := by
  set pre := [0x45, 0] ++ htons (UInt16.ofNat (40 + data.length)) ++ htons ipId ++
    htons 0x4000 ++ [64, 6] with hpre
  set post := htonl c.localIp ++ htonl c.remoteIp with hpost
  have hsplit : ∀ cksum : List UInt8,
      ipHeader c ipId (UInt16.ofNat (40 + data.length)) cksum = pre ++ (cksum ++ post) := by
    intro cksum
    simp only [ipHeader, hpre, hpost, append_assoc, cons_append, nil_append]
  have hlen : pre.length = 10 := by simp [hpre, length_htons]
  have hlen' : post.length = 8 := by simp [hpost, length_htonl]
  have hpos : 0 < wordSum (pre ++ ([0, 0] ++ post)) := by
    exact Nat.lt_of_lt_of_le (by decide) (Nat.le_add_right _ _)
  rw [sentIp, sentIpSum, hsplit, hsplit]
  exact ipChecksum_verifies (by omega) hpos (by omega)

theorem tcpChecksum_sentTcp (hdata : data.length ≤ 1460) :
    tcpChecksum c.localIp c.remoteIp (sentTcp c flags data) = 0 := by
  set pseudo := htonl c.localIp ++ htonl c.remoteIp ++ htons 6 ++
    htons (UInt16.ofNat (20 + data.length)) with hpseudo
  set pre := pseudo ++ (htons c.localPort ++ htons c.remotePort ++ htonl c.seqNum ++
    htonl c.ackNum ++ [0x50, flags] ++ htons 65535) with hpre
  have hsum : ∀ cksum : List UInt8, cksum.length = 2 →
      tcpChecksum c.localIp c.remoteIp (tcpHeader c flags cksum ++ data) =
        ipChecksum (pre ++ (cksum ++ ([0, 0] ++ data))) := by
    intro cksum hcksum
    have hlen : (tcpHeader c flags cksum ++ data).length = 20 + data.length := by
      rw [length_append, length_tcpHeader c flags hcksum]
    rw [tcpChecksum, ipChecksum, hlen]
    simp only [tcpHeader, hpre, hpseudo, append_assoc, cons_append, nil_append]
  have hlen : pre.length = 28 := by simp [hpre, hpseudo, length_htons, length_htonl]
  have hpos : 0 < wordSum (pre ++ ([0, 0] ++ ([0, 0] ++ data))) := by
    -- the protocol number alone is positive
    have haddr : (htonl c.localIp ++ htonl c.remoteIp).length % 2 = 0 := by simp [length_htonl]
    have hproto : wordSum (htons 6) = 1536 := by decide
    simp only [hpre, hpseudo, append_assoc]
    rw [← append_assoc, wordSum_append _ _ haddr,
      wordSum_append (htons 6) _ (by rw [length_htons]), hproto]
    omega
  rw [sentTcp, sentTcpSum, hsum _ (length_leBytes 2 _), hsum _ rfl]
  exact ipChecksum_verifies (by omega) hpos (by simp; omega)

end Emitted

/-! ## Both ends -/

/-- For every connection and every payload of at most 1460 bytes, the frame sent is parsed into the
same flags, numbers and payload, and its checksums verify. -/
theorem sendTcpFrame_recv (s : TcpStack) (hlocal : s.conn.localMac.length = 6)
    (hremote : s.conn.remoteMac.length = 6) (flags : UInt8) (data : List UInt8)
    (hdata : data.length ≤ 1460) :
    ∃ frame, (s.sendTcpFrame flags data).sent = s.sent ++ [frame] ∧
      (∀ max, data.length ≤ max → recvTcpFrame s.conn.toEndpoints.flip max frame =
        some ⟨flags, s.conn.seqNum, s.conn.ackNum, data⟩) ∧
      ipChecksum ((frame.drop 14).take 20) = 0 ∧
      tcpChecksum s.conn.localIp s.conn.remoteIp ((frame.drop 34).take (20 + data.length)) = 0 := by
  refine ⟨tcpFrame s.conn s.ipId flags data, rfl, ?_, ?_, ?_⟩
  · intro max hmax
    rw [tcpFrame_eq_encode hlocal hremote hdata]
    have hoverlay := Datagram.overlay_of_no_options
      (sentDatagram s.conn s.ipId flags data hlocal hremote hdata) rfl
    exact (Datagram.recvTcpFrame_segment_iff _).mpr hoverlay max hmax
  · rw [tcpFrame_parts hlocal hremote, ← length_sentEth hlocal hremote, drop_left,
      ← length_sentIp s.conn s.ipId data, take_left, ipChecksum_sentIp]
  · have hfront : (sentEth s.conn ++ sentIp s.conn s.ipId data).length = 34 := by
      rw [length_append, length_sentEth hlocal hremote, length_sentIp]
    rw [tcpFrame_parts hlocal hremote, ← append_assoc, ← hfront, drop_left,
      ← length_sentTcp s.conn flags data, take_left, tcpChecksum_sentTcp hdata]

def oneByteStack : TcpStack where
  conn :=
    { localIp := 0x0A000002, localPort := 49152, remoteIp := 0x0A000003, remotePort := 80
      state := .established, seqNum := 0xFFFFFFFF, ackNum := 5001
      localMac := List.replicate 6 2, remoteMac := List.replicate 6 3 }
  ipId := 1

theorem sendTcpFrame_recv_one :
    ∃ frame, (oneByteStack.sendTcpFrame 0x18 [0x61]).sent = [] ++ [frame] ∧
      (∀ max, 1 ≤ max → recvTcpFrame oneByteStack.conn.toEndpoints.flip max frame =
        some ⟨0x18, 0xFFFFFFFF, 5001, [0x61]⟩) ∧
      ipChecksum ((frame.drop 14).take 20) = 0 ∧
      tcpChecksum 0x0A000002 0x0A000003 ((frame.drop 34).take 21) = 0 :=
  sendTcpFrame_recv oneByteStack rfl rfl 0x18 [0x61] (by decide)

end AlJefra.Net
