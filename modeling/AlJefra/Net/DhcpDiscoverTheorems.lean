/- Whose bytes a lease is made of. -/
import AlJefra.Net.DhcpScan

namespace AlJefra.Net.Dhcp

open AlJefra.Lib AlJefra.Hal List Option

/-! ## The setting -/

def Good (xid : UInt32) (rx : Rx) : Prop :=
  rx.passes = true ∧ ntohlAt rx.frame (netHeaderSize + 4) = xid ∧
    ntohlAt rx.frame (netHeaderSize + 236) = dhcpMagicCookie

structure Reply (xid : UInt32) where
  rx : Rx
  good : Good xid rx
  len_le : rx.len ≤ 594

/-- What a call meets besides the two replies. The discarded frames fit the packet: a longer one
overruns it. -/
structure Arrival (xid : UInt32) where
  mac : List UInt8
  mac_length : mac.length = 6
  pkt : Pointer
  behindOffer : Pointer
  behindAck : Pointer
  beforeOffer : List Rx
  beforeAck : List Rx
  discarded : ∀ rx ∈ beforeOffer ++ beforeAck, rx.len ≤ 594 ∧ ¬ Good xid rx

def Arrival.input {xid : UInt32} (r : Arrival xid) (o a : Reply xid) : DiscoverInput :=
  { device := true, mac := r.mac, xid := xid, pkt := r.pkt, behindOffer := r.behindOffer
    behindAck := r.behindAck, offerRx := r.beforeOffer ++ [o.rx], ackRx := r.beforeAck ++ [a.rx] }

def Arrival.result {xid : UInt32} (r : Arrival xid) (o a : Reply xid) :
    HalStatus × Option (UInt32 × UInt32 × UInt32) :=
  ((dhcpDiscover (r.input o a)).status, (dhcpDiscover (r.input o a)).outputs)

namespace Reply

variable {xid : UInt32} (o : Reply xid)

def payload : Nat := o.rx.payloadLen.toNat
def options : Pointer := fun k => o.rx.frame (netHeaderSize + (optionsOffset + k))
def optionBytes : Nat := o.payload - optionsOffset
def yiaddr : UInt32 := ntohlAt o.rx.frame (netHeaderSize + 16)
@[irreducible] def verdict : Verdict := scan o.options o.optionBytes optionsSize 0 {}

end Reply

/-! ## Receiving -/

theorem payloadLen_ge {rx : Rx} (h : rx.passes = true) : 240 ≤ rx.payloadLen.toNat := by
  have hge : ¬ rx.payloadLen < 240 := by
    intro hlt
    simp [Rx.passes, hlt] at h
  exact UInt32.le_iff_toNat_le.mp (UInt32.not_lt.mp hge)

theorem write_frame (p : Pointer) (rx : Rx) (k : Nat) :
    p.write 0 (rx.frame.bytes netHeaderSize rx.payloadLen.toNat) k =
      if k < rx.payloadLen.toNat then rx.frame (netHeaderSize + k) else p k := by
  unfold Pointer.write
  simp only [Nat.zero_le, true_and, Nat.zero_add, Pointer.length_bytes, Nat.sub_zero]
  split
  · rw [getD_eq_getElem?_getD, getElem?_eq_getElem (by simpa [Pointer.length_bytes])]
    simp [Pointer.bytes]
  · rfl

theorem recvStep_eq (xid : UInt32) (s : RecvState) (rx : Rx) :
    ((recvStep xid s rx).pkt = if rx.passes then
        s.pkt.write 0 (rx.frame.bytes netHeaderSize rx.payloadLen.toNat) else s.pkt) ∧
      ((recvStep xid s rx).found = true ↔ s.found = true ∨ Good xid rx) := by
  unfold recvStep Good
  by_cases hpass : rx.passes = true
  · have hge := payloadLen_ge hpass
    have hown : ∀ off, off + 4 ≤ 240 → ntohlAt (s.pkt.write 0
        (rx.frame.bytes netHeaderSize rx.payloadLen.toNat)) off =
          ntohlAt rx.frame (netHeaderSize + off) := by
      intro off hoff
      refine ntohlAt_shift fun k hk => ?_
      rw [write_frame, if_pos (by omega)]
    simp only [hpass, if_true, hown 4 (by omega), hown 236 (by omega), true_and]
    split
    · rename_i hx
      simp [hx]
    · split
      · rename_i hx hc
        simp [hc]
      · rename_i hx hc
        simp [not_not.mp hx, not_not.mp hc]
  · simp [hpass]

variable {xid : UInt32}

theorem found_discarded : ∀ (junk : List Rx) (s : RecvState), s.found = false →
    (∀ rx ∈ junk, ¬ Good xid rx) → (run (recvStep xid) s junk).found = false := by
  intro junk
  induction junk with
  | nil => intro s hs _; exact hs
  | cons rx junk ih =>
    intro s hs hjunk
    refine ih _ ?_ fun rx' h => hjunk rx' (mem_cons_of_mem _ h)
    have hstep := (recvStep_eq xid s rx).2
    have hbad := hjunk rx mem_cons_self
    simpa [hs, hbad] using hstep

theorem taken_discarded (o : Rx) : ∀ (junk : List Rx) (s : RecvState),
    s.found = false → (∀ rx ∈ junk, ¬ Good xid rx) →
    taken RecvState.found (recvStep xid) s (junk ++ [o]) = junk ++ [o] := by
  intro junk
  induction junk with
  | nil => intro s hs _; simp [taken, hs]
  | cons rx junk ih =>
    intro s hs hjunk
    have hnext : (recvStep xid s rx).found = false := found_discarded [rx] s hs fun rx' h =>
        hjunk rx' (by rw [mem_singleton.mp h]; exact mem_cons_self)
    simp only [cons_append, taken, hs]
    rw [ih _ hnext fun rx' h => hjunk rx' (mem_cons_of_mem _ h)]
    simp

theorem Reply.lt_optionBytes (o : Reply xid) (k : Nat) :
    optionsOffset + k < o.payload ↔ k < o.optionBytes := by
  unfold Reply.optionBytes
  omega

def Reply.over {xid : UInt32} (o : Reply xid) (mem : Pointer) : Pointer :=
  overlay o.options o.optionBytes fun k => mem (optionsOffset + k)

theorem Reply.payload_le (o : Reply xid) : o.rx.payloadLen.toNat ≤ dhcpPacketSize := by
  have hle := o.len_le
  have hlen := payloadLen_of_passes o.good.1 (by omega)
  change _ ≤ 552
  omega

theorem recvDhcp_reply (o : Reply xid) (pkt behind : Pointer) (junk : List Rx)
    (hjunk : ∀ rx ∈ junk, ¬ Good xid rx) :
    (recvDhcp xid pkt (junk ++ [o.rx])).1 = 0 ∧ ∀ lease,
      parseDhcpOptions (packetThen (recvDhcp xid pkt (junk ++ [o.rx])).2.pkt behind) lease =
        parseFrom (o.over (packetThen (run (recvStep xid) { pkt := pkt } junk).pkt behind))
          { lease := { lease with clientIp := o.yiaddr } } := by
  have hge := payloadLen_ge o.good.1
  have hle := o.payload_le
  unfold recvDhcp recvTaken
  rw [taken_discarded o.rx junk _ rfl hjunk, run_append, run_cons, run_nil]
  obtain ⟨hpkt, hfound⟩ := recvStep_eq xid (run (recvStep xid) { pkt := pkt } junk) o.rx
  rw [if_pos o.good.1] at hpkt
  refine ⟨if_pos (hfound.mpr (.inr o.good)), fun lease => ?_⟩
  simp only [hpkt]
  generalize (run (recvStep xid) { pkt := pkt } junk).pkt = mem
  have hwrite : ∀ k, packetThen (mem.write 0
      (o.rx.frame.bytes netHeaderSize o.rx.payloadLen.toNat)) behind k =
        if k < o.rx.payloadLen.toNat then o.rx.frame (netHeaderSize + k)
        else packetThen mem behind k := by
    intro k
    rw [packetThen, packetThen, write_frame]
    split_ifs
    all_goals first | rfl | omega
  have hip : ntohlAt (packetThen (mem.write 0
      (o.rx.frame.bytes netHeaderSize o.rx.payloadLen.toNat)) behind) 16 = o.yiaddr := by
    refine ntohlAt_shift fun k hk => ?_
    rw [hwrite, if_pos (by omega)]
  have hopt : (fun k => packetThen (mem.write 0
      (o.rx.frame.bytes netHeaderSize o.rx.payloadLen.toNat)) behind (optionsOffset + k)) =
        o.over (packetThen mem behind) := by
    funext k
    rw [hwrite, Reply.over, overlay]
    exact if_congr (o.lt_optionBytes k) rfl rfl
  rw [parseDhcpOptions, hip, hopt, parseFrom]

def exchange {xid : UInt32} (o a : Reply xid) (optO optA : Pointer) :
    HalStatus × Option (UInt32 × UInt32 × UInt32) :=
  let offer := parseFrom optO { lease := ⟨o.yiaddr, 0, 0, 0, 0, 0⟩ }
  if offer.msgType ≠ dhcpOfferType then (.error, none)
  else
    let ack := parseFrom optA { lease := { offer.lease with clientIp := a.yiaddr } }
    if ack.msgType ≠ dhcpAckType then (.error, none)
    else (.ok, some (ack.lease.clientIp, ack.lease.gateway, ack.lease.dnsServer))

theorem result_eq_exchange (r : Arrival xid) (o a : Reply xid) :
    ∃ pktO pktA : Pointer, r.result o a = exchange o a
      (o.over (packetThen (run (recvStep xid) { pkt := pktO } r.beforeOffer).pkt r.behindOffer))
      (a.over (packetThen (run (recvStep xid) { pkt := pktA } r.beforeAck).pkt r.behindAck)) := by
  have hbadO : ∀ rx ∈ r.beforeOffer, ¬ Good xid rx := fun rx h =>
    (r.discarded rx (mem_append_left _ h)).2
  have hbadA : ∀ rx ∈ r.beforeAck, ¬ Good xid rx := fun rx h =>
    (r.discarded rx (mem_append_right _ h)).2
  unfold Arrival.result dhcpDiscover Arrival.input exchange
  simp only [not_true_eq_false, if_false]
  generalize buildDhcpPacket r.pkt r.mac dhcpDiscoverType xid 0 0 = built
  obtain ⟨pktO, lenO⟩ := built
  have hrecv := recvDhcp_reply o pktO r.behindOffer r.beforeOffer hbadO
  generalize recvDhcp xid pktO (r.beforeOffer ++ [o.rx]) = received at hrecv ⊢
  obtain ⟨rc, s⟩ := received
  obtain ⟨rfl, hparse⟩ := hrecv
  refine ⟨pktO, ?_⟩
  simp only [hparse, Int.lt_irrefl, if_false]
  generalize parseFrom (o.over _) _ = offer
  by_cases htype : offer.msgType = dhcpOfferType
  · generalize buildDhcpPacket s.pkt r.mac dhcpRequestType xid _ _ = built
    obtain ⟨pktA, lenA⟩ := built
    have hrecvA := recvDhcp_reply a pktA r.behindAck r.beforeAck hbadA
    generalize recvDhcp xid pktA (r.beforeAck ++ [a.rx]) = received at hrecvA ⊢
    obtain ⟨rcA, sA⟩ := received
    obtain ⟨rfl, hparseA⟩ := hrecvA
    refine ⟨pktA, ?_⟩
    simp only [htype, hparseA, Int.lt_irrefl, if_false, ne_eq, not_true_eq_false]
    split <;> rfl
  · refine ⟨s.pkt, ?_⟩
    simp [htype]

/-! ## Every tail can arrive -/

def junkFrame (tail : Pointer) : Rx :=
  { len := 594
    frame := fun k =>
      if k < netHeaderSize + optionsOffset then
        if k = 12 then 8 else if k = 23 then 17 else if k = 37 then 68 else 0
      else tail (k - (netHeaderSize + optionsOffset)) }

theorem junkFrame_payloadLen (tail : Pointer) : (junkFrame tail).payloadLen = 552 := by
  change UInt32.ofNat (594 : Int).toNat - UInt32.ofNat netHeaderSize = 552
  decide

theorem junkFrame_passes (tail : Pointer) : (junkFrame tail).passes = true := by
  have htype : ntohsAt (junkFrame tail).frame 12 = 0x0800 := rfl
  have hproto : (junkFrame tail).frame 23 = 17 := rfl
  have hport : ntohsAt (junkFrame tail).frame 36 = 68 := rfl
  have hlen : (junkFrame tail).len = 594 := rfl
  unfold Rx.passes
  rw [htype, hproto, hport, hlen, junkFrame_payloadLen]
  decide

theorem junkFrame_bad (xid : UInt32) (tail : Pointer) : ¬ Good xid (junkFrame tail) := by
  rintro ⟨-, -, hcookie⟩
  have hzero : ntohlAt (junkFrame tail).frame (netHeaderSize + 236) = 0 := rfl
  rw [hzero] at hcookie
  exact absurd hcookie (by decide)

theorem over_junkFrame (o : Reply xid) (pkt tail : Pointer) :
    o.over (packetThen (run (recvStep xid) { pkt := pkt } [junkFrame tail]).pkt
      fun k => tail (k - optionsOffset)) = overlay o.options o.optionBytes tail := by
  have h552 : (junkFrame tail).payloadLen.toNat = dhcpPacketSize := by
    rw [junkFrame_payloadLen]
    rfl
  rw [run_cons, run_nil, (recvStep_eq xid _ _).1, if_pos (junkFrame_passes tail)]
  unfold Reply.over
  congr 1
  funext k
  rw [packetThen, write_frame, h552, Nat.add_sub_cancel_left]
  split
  · rw [junkFrame]
    simp only
    rw [if_neg (by omega)]
    exact congrArg tail (by omega)
  · rfl

def junkArrival (xid : UInt32) (tailO tailA : Pointer) : Arrival xid :=
  { mac := List.replicate 6 0, mac_length := rfl, pkt := fun _ => 0
    behindOffer := fun k => tailO (k - optionsOffset)
    behindAck := fun k => tailA (k - optionsOffset)
    beforeOffer := [junkFrame tailO], beforeAck := [junkFrame tailA]
    discarded := by
      intro rx hrx
      obtain rfl | rfl : rx = junkFrame tailO ∨ rx = junkFrame tailA := by simpa using hrx
      · exact ⟨Int.le_refl _, junkFrame_bad xid tailO⟩
      · exact ⟨Int.le_refl _, junkFrame_bad xid tailA⟩ }

theorem junkArrival_result (o a : Reply xid) (tailO tailA : Pointer) :
    (junkArrival xid tailO tailA).result o a = exchange o a (overlay o.options o.optionBytes tailO)
        (overlay a.options a.optionBytes tailA) := by
  obtain ⟨pktO, pktA, h⟩ := result_eq_exchange (junkArrival xid tailO tailA) o a
  rw [h]
  simp only [junkArrival, over_junkFrame]

/-! ## Which replies settle the exchange -/

def Fixed (offer ack : Verdict) (c : UInt8) : Prop :=
  match ack.value c with
  | .set _ => True
  | .kept => offer.value c ≠ .stray
  | .stray => False

def Determined (offer ack : Verdict) : Prop :=
  (offer.type ≠ none ∧ offer.type ≠ some dhcpOfferType) ∨
    (ack.type ≠ none ∧ ack.type ≠ some dhcpAckType) ∨
      (offer.type = some dhcpOfferType ∧ ack.type = some dhcpAckType ∧
        Fixed offer ack optRouter ∧ Fixed offer ack optDns)

theorem leaseOption_router : LeaseOption optRouter := .inr (.inl rfl)
theorem leaseOption_dns : LeaseOption optDns := .inr (.inr (.inl rfl))

theorem field_clientIp {c : UInt8} (hc : LeaseOption c) (lease : DhcpLease) (ip : UInt32) :
    ({ lease with clientIp := ip } : DhcpLease).field c = lease.field c := by
  obtain rfl | rfl | rfl | rfl | rfl := hc <;> rfl

section Exchange

variable {xid : UInt32} {o a : Reply xid}

theorem Reply.settles (o : Reply xid) (mem : Pointer) (lease : DhcpLease)
    (h : o.verdict.type ≠ none) : Settles o.verdict lease
      (parseFrom (overlay o.options o.optionBytes mem) { lease := lease }) := by
  unfold Reply.verdict at h ⊢
  refine scan_settles (fun k hk => overlay_own _ _ hk) optionsSize 0 {} (by simp) h _ rfl ?_
  exact ⟨rfl, fun c _ _ => rfl, fun c x _ hx => by cases hx⟩

variable {c x : UInt8} {optA optO : Pointer}

theorem Reply.type_open (o : Reply xid) (h : o.verdict.type = none)
    (hx : x = dhcpOfferType ∨ x = dhcpAckType ∨ x = optEnd) :
    ∃ tail : Pointer, ∀ lease,
      (parseFrom (overlay o.options o.optionBytes tail) { lease := lease }).msgType = x := by
  have h0 : ({} : Verdict).type ≠ none := by simp
  unfold Reply.verdict at h
  obtain ⟨tail, htail⟩ := scan_type_open hx optionsSize 0 {} (by simp) h0 h
  exact ⟨tail, fun lease => htail _ rfl⟩

theorem Reply.value_open (o : Reply xid) (h : o.verdict.type ≠ none) (hc : LeaseOption c)
    (hstray : o.verdict.value c = .stray) (b : UInt8) :
    ∃ tail : Pointer, ∀ lease, ((parseFrom (overlay o.options o.optionBytes tail)
      { lease := lease }).lease.field c).toUInt8 = b := by
  have h0 : ({} : Verdict).value c ≠ .stray := by simp
  unfold Reply.verdict at h hstray
  obtain hnone | ⟨tail, htail⟩ := scan_value_open b hc optionsSize 0 {} (by simp) h0 hstray
  · exact absurd hnone h
  · exact ⟨tail, fun lease => htail _ rfl⟩

theorem Reply.exists_type (o : Reply xid) (hx : x = dhcpOfferType ∨ x = dhcpAckType)
    (h : ¬ (o.verdict.type ≠ none ∧ o.verdict.type ≠ some x)) :
    ∃ tail : Pointer, ∀ lease,
      (parseFrom (overlay o.options o.optionBytes tail) { lease := lease }).msgType = x := by
  by_cases hnone : o.verdict.type = none
  · exact o.type_open hnone (hx.elim .inl fun hack => .inr (.inl hack))
  · refine ⟨fun _ => 0, fun lease => ?_⟩
    have htype := (o.settles (fun _ => 0) lease hnone).type
    have hsome : o.verdict.type = some x := by
      by_contra hne
      exact h ⟨hnone, hne⟩
    rw [hsome] at htype
    exact (some.inj htype).symm

theorem clientIp_parseLoop (opt : Pointer) : ∀ (fuel : Nat) (s : ParseState),
    (parseLoop opt fuel s).lease.clientIp = s.lease.clientIp := by
  have hset : ∀ (l : DhcpLease) c v, (l.setOption c v).clientIp = l.clientIp := by
    intro l c v
    unfold DhcpLease.setOption
    split_ifs <;> rfl
  have hstep : ∀ s, (parseStep opt s).lease.clientIp = s.lease.clientIp := by
    intro s
    unfold parseStep
    simp only
    split
    · rfl
    · simp only
      split
      · exact hset ..
      · rfl
  intro fuel
  induction fuel with
  | zero =>
    intro s
    unfold parseLoop
    split_ifs <;> rfl
  | succ fuel ih =>
    intro s
    unfold parseLoop
    split
    · rfl
    · split
      · rfl
      · exact (ih _).trans (hstep s)

theorem exchange_ok (hO : ∀ lease, (parseFrom optO { lease := lease }).msgType = dhcpOfferType)
    (hA : ∀ lease, (parseFrom optA { lease := lease }).msgType = dhcpAckType) :
    ∃ lease lease' : DhcpLease,
      lease = (parseFrom optO { lease := ⟨o.yiaddr, 0, 0, 0, 0, 0⟩ }).lease ∧
      lease' = (parseFrom optA { lease := { lease with clientIp := a.yiaddr } }).lease ∧
      exchange o a optO optA =
        (.ok, some (a.yiaddr, lease'.field optRouter, lease'.field optDns)) := by
  refine ⟨_, _, rfl, rfl, ?_⟩
  have hip : ∀ lease, (parseFrom optA { lease := lease }).lease.clientIp = lease.clientIp := by
    intro lease
    rw [parseFrom, clientIp_parseLoop]
  unfold exchange
  simp only [hO, hA, ne_eq, not_true_eq_false, if_false, hip]
  rfl

theorem exchange_error_offer (hx : x ≠ dhcpOfferType)
    (hO : ∀ lease, (parseFrom optO { lease := lease }).msgType = x) :
    exchange o a optO optA = (.error, none) := by
  unfold exchange
  simp [hO, hx]

theorem exchange_error_ack (hx : x ≠ dhcpAckType)
    (hA : ∀ lease, (parseFrom optA { lease := lease }).msgType = x) :
    exchange o a optO optA = (.error, none) := by
  unfold exchange
  simp [hA, hx]

theorem field_of_fixed (hO : o.verdict.type ≠ none) (hA : a.verdict.type ≠ none)
    (hc : LeaseOption c) (hfixed : Fixed o.verdict a.verdict c) :
    ∃ x : UInt32, ∀ (memO memA : Pointer) (lease : DhcpLease),
      lease.field c = (parseFrom (overlay o.options o.optionBytes memO)
        { lease := ⟨o.yiaddr, 0, 0, 0, 0, 0⟩ }).lease.field c →
      (parseFrom (overlay a.options a.optionBytes memA) { lease := lease }).lease.field c = x := by
  unfold Fixed at hfixed
  cases hack : a.verdict.value c with
  | set x => exact ⟨x, fun memO memA lease _ => (a.settles memA lease hA).set c x hc hack⟩
  | stray => simp [hack] at hfixed
  | kept =>
    simp only [hack] at hfixed
    have hkept := fun memA lease => (a.settles memA lease hA).kept c hc hack
    cases hoffer : o.verdict.value c with
    | set x =>
      refine ⟨x, fun memO memA lease hl => ?_⟩
      rw [hkept, hl]
      exact (o.settles memO _ hO).set c x hc hoffer
    | stray => exact absurd hoffer hfixed
    | kept =>
      refine ⟨(⟨o.yiaddr, 0, 0, 0, 0, 0⟩ : DhcpLease).field c, fun memO memA lease hl => ?_⟩
      rw [hkept, hl]
      exact (o.settles memO _ hO).kept c hc hoffer

theorem field_of_not_fixed (hO : o.verdict.type ≠ none) (hA : a.verdict.type ≠ none)
    (hc : LeaseOption c) (hfixed : ¬ Fixed o.verdict a.verdict c) (b : UInt8) :
    ∃ memO memA : Pointer, ∀ lease : DhcpLease,
      lease.field c = (parseFrom (overlay o.options o.optionBytes memO)
        { lease := ⟨o.yiaddr, 0, 0, 0, 0, 0⟩ }).lease.field c →
      ((parseFrom (overlay a.options a.optionBytes memA)
        { lease := lease }).lease.field c).toUInt8 = b := by
  unfold Fixed at hfixed
  cases hack : a.verdict.value c with
  | set x => simp [hack] at hfixed
  | stray =>
    obtain ⟨memA, hmem⟩ := a.value_open hA hc hack b
    exact ⟨fun _ => 0, memA, fun lease _ => hmem lease⟩
  | kept =>
    simp only [hack, ne_eq, not_not] at hfixed
    obtain ⟨memO, hmem⟩ := o.value_open hO hc hfixed b
    refine ⟨memO, fun _ => 0, fun lease hl => ?_⟩
    rw [(a.settles _ lease hA).kept c hc hack, hl]
    exact hmem _

theorem Reply.type_eq (o : Reply xid) (h : o.verdict.type = some x) (mem : Pointer)
    (lease : DhcpLease) :
    (parseFrom (overlay o.options o.optionBytes mem) { lease := lease }).msgType = x := by
  have htype := (o.settles mem lease (by rw [h]; simp)).type
  rw [h] at htype
  exact (some.inj htype).symm

theorem exchange_of_determined (h : Determined o.verdict a.verdict) :
    ∃ result, ∀ memO memA : Pointer, exchange o a (overlay o.options o.optionBytes memO)
        (overlay a.options a.optionBytes memA) = result := by
  obtain ⟨hsome, hne⟩ | ⟨hsome, hne⟩ | ⟨hO, hA, hrouter, hdns⟩ := h
  · obtain ⟨x, hx⟩ := ne_none_iff_exists'.mp hsome
    refine ⟨(.error, none), fun memO memA => exchange_error_offer ?_ (o.type_eq hx memO)⟩
    rintro rfl
    exact hne hx
  · obtain ⟨x, hx⟩ := ne_none_iff_exists'.mp hsome
    refine ⟨(.error, none), fun memO memA => exchange_error_ack ?_ (a.type_eq hx memA)⟩
    rintro rfl
    exact hne hx
  · have hO' : o.verdict.type ≠ none := by simp [hO]
    have hA' : a.verdict.type ≠ none := by simp [hA]
    obtain ⟨gateway, hgw⟩ := field_of_fixed hO' hA' leaseOption_router hrouter
    obtain ⟨dns, hdn⟩ := field_of_fixed hO' hA' leaseOption_dns hdns
    refine ⟨(.ok, some (a.yiaddr, gateway, dns)), fun memO memA => ?_⟩
    obtain ⟨lease, lease', rfl, rfl, hok⟩ := exchange_ok (o := o) (a := a)
      (o.type_eq hO memO) (a.type_eq hA memA)
    rw [hok, hgw memO memA _ (field_clientIp leaseOption_router _ _),
      hdn memO memA _ (field_clientIp leaseOption_dns _ _)]

theorem exchange_of_not_determined (h : ¬ Determined o.verdict a.verdict) :
    ∃ memO memA memO' memA' : Pointer, exchange o a (overlay o.options o.optionBytes memO)
          (overlay a.options a.optionBytes memA) ≠
        exchange o a (overlay o.options o.optionBytes memO')
          (overlay a.options a.optionBytes memA') := by
  obtain ⟨hO, hA, hfields⟩ : _ ∧ _ ∧ _ := by
    simpa only [Determined, not_or] using h
  obtain ⟨memO, hmemO⟩ := o.exists_type (.inl rfl) hO
  obtain ⟨memA, hmemA⟩ := a.exists_type (.inr rfl) hA
  obtain ⟨_, _, -, -, hok⟩ := exchange_ok (o := o) (a := a) hmemO hmemA
  by_cases hnoneO : o.verdict.type = none
  · -- another type in the OFFER
    obtain ⟨tail, htail⟩ := o.type_open hnoneO (.inr (.inr rfl))
    refine ⟨memO, memA, tail, memA, ?_⟩
    rw [hok, exchange_error_offer (by decide) htail]
    simp
  · by_cases hnoneA : a.verdict.type = none
    · obtain ⟨tail, htail⟩ := a.type_open hnoneA (.inr (.inr rfl))
      refine ⟨memO, memA, memO, tail, ?_⟩
      rw [hok, exchange_error_ack (by decide) htail]
      simp
    · -- both types are right, so a field is open
      have htypeO : o.verdict.type = some dhcpOfferType := by
        by_contra hne
        exact hO ⟨hnoneO, hne⟩
      have htypeA : a.verdict.type = some dhcpAckType := by
        by_contra hne
        exact hA ⟨hnoneA, hne⟩
      have hopen : ∃ c, (c = optRouter ∨ c = optDns) ∧ ¬ Fixed o.verdict a.verdict c := by
        by_contra hall
        simp only [not_exists, not_and, not_not] at hall
        exact hfields ⟨htypeO, htypeA, hall _ (.inl rfl), hall _ (.inr rfl)⟩
      obtain ⟨c, hc, hnot⟩ := hopen
      have hlease : LeaseOption c := by
        obtain rfl | rfl := hc
        · exact leaseOption_router
        · exact leaseOption_dns
      obtain ⟨memO, memA, hzero⟩ := field_of_not_fixed hnoneO hnoneA hlease hnot 0
      obtain ⟨memO', memA', hone⟩ := field_of_not_fixed hnoneO hnoneA hlease hnot 1
      refine ⟨memO, memA, memO', memA', ?_⟩
      obtain ⟨l, l', rfl, rfl, hok⟩ := exchange_ok (o := o) (a := a)
        (o.type_eq htypeO memO) (a.type_eq htypeA memA)
      obtain ⟨k, k', rfl, rfl, hok'⟩ := exchange_ok (o := o) (a := a)
        (o.type_eq htypeO memO') (a.type_eq htypeA memA')
      rw [hok, hok']
      intro heq
      simp only [Prod.mk.injEq, some.injEq, true_and] at heq
      have hfield : ∀ l l' : DhcpLease, l.field optRouter = l'.field optRouter →
          l.field optDns = l'.field optDns → l.field c = l'.field c := by
        obtain rfl | rfl := hc
        · exact fun _ _ h _ => h
        · exact fun _ _ _ h => h
      have hzero := hzero _ (field_clientIp hlease _ a.yiaddr)
      rw [hfield _ _ heq.1 heq.2, hone _ (field_clientIp hlease _ a.yiaddr)] at hzero
      exact absurd hzero (by decide)

end Exchange

/-! ## Two calls -/

/-- Every two calls that accept the OFFER `o` and the ACK `a` return the same lease exactly if the
two replies settle the exchange by their own bytes. -/
theorem dhcpDiscover_same_iff (xid : UInt32) (o a : Reply xid) :
    (∀ r r' : Arrival xid, r.result o a = r'.result o a) ↔ Determined o.verdict a.verdict := by
  constructor
  · intro hsame
    by_contra hnot
    obtain ⟨memO, memA, memO', memA', hne⟩ := exchange_of_not_determined hnot
    apply hne
    rw [← junkArrival_result, ← junkArrival_result]
    exact hsame _ _
  · intro h r r'
    obtain ⟨result, hresult⟩ := exchange_of_determined h
    have hall : ∀ r : Arrival xid, r.result o a = result := by
      intro r
      obtain ⟨pktO, pktA, hr⟩ := result_eq_exchange r o a
      rw [hr]
      exact hresult _ _
    rw [hall r, hall r']

def bareFrame (msgType : UInt8) : Pointer :=
  Pointer.write (Pointer.write replyFrame 58 [10, 0, 0, 9]) 282 [optMsgType, 1, msgType]

def bareOffer : Reply 0 :=
  { rx := ⟨285, bareFrame dhcpOfferType⟩
    good := ⟨by decide +kernel, by decide +kernel, by decide +kernel⟩
    len_le := by decide }

def bareAck : Reply 0 :=
  { rx := ⟨285, bareFrame dhcpAckType⟩
    good := ⟨by decide +kernel, by decide +kernel, by decide +kernel⟩
    len_le := by decide }

def strayFrame : Rx :=
  ⟨292, Pointer.write (Pointer.write replyFrame 46 [0, 0, 0, 1])
    285 [optRouter, 4, 6, 6, 6, 6, optEnd]⟩

def quietArrival : Arrival 0 :=
  { mac := [0x52, 0x54, 0, 0x12, 0x34, 0x56], mac_length := rfl, pkt := fun _ => 0
    behindOffer := fun _ => 0, behindAck := fun _ => 0
    beforeOffer := [], beforeAck := [], discarded := by simp }

def strayArrival : Arrival 0 :=
  { quietArrival with
    beforeAck := [strayFrame]
    discarded := by
      intro rx hrx
      obtain rfl : rx = strayFrame := by simpa [quietArrival] using hrx
      have hxid : ntohlAt strayFrame.frame (netHeaderSize + 4) ≠ 0 := by decide +kernel
      exact ⟨by decide, fun hgood => hxid hgood.2.1⟩ }

theorem dhcpDiscover_stray_gateway :
    quietArrival.result bareOffer bareAck =
        (.ok, some (0x0A000009, 0, 0)) ∧
      strayArrival.result bareOffer bareAck =
        (.ok, some (0x0A000009, 0x06060606, 0)) := by
  decide +kernel

end AlJefra.Net.Dhcp
