/- What an established connection rests on. -/
import AlJefra.Net.TcpConnect

namespace AlJefra.Net

open AlJefra.Lib AlJefra.Hal List

/-! ## What the handshake receives -/

def Segment.decisive (seg : Segment) : Bool := seg.rst || seg.synAck

def segments (e : Endpoints) : Nat → List Poll → List Segment
  | 0, _ => []
  | n + 1, polls =>
    match await (recvTcpFrame e 0) polls with
    | (none, polls) => segments e n polls
    | (some seg, polls) => seg :: if seg.decisive then [] else segments e n polls

variable {α : Type}

theorem await_mem {accept : List UInt8 → Option α} {a : α} :
    ∀ {polls rest : List Poll}, await accept polls = (some a, rest) →
      ∃ bytes, .frame bytes ∈ polls ∧ accept bytes = some a := by
  intro polls
  induction polls with
  | nil => intro rest h; cases h
  | cons p polls ih =>
    intro rest h
    cases p with
    | frame bytes =>
      cases hb : accept bytes with
      | none =>
        simp only [await, hb] at h
        obtain ⟨bytes', hmem, haccept⟩ := ih h
        exact ⟨bytes', mem_cons_of_mem _ hmem, haccept⟩
      | some b =>
        simp only [await, hb, Prod.mk.injEq, Option.some.injEq] at h
        exact ⟨bytes, mem_cons_self, h.1 ▸ hb⟩
    | quiet | deadline => simp [await] at h

theorem await_subset (accept : List UInt8 → Option α) :
    ∀ (polls : List Poll), (await accept polls).2 ⊆ polls := by
  intro polls
  induction polls with
  | nil => exact List.Subset.refl _
  | cons p polls ih =>
    cases p with
    | frame bytes =>
      cases hb : accept bytes with
      | none =>
        simp only [await, hb]
        exact subset_cons_of_subset _ ih
      | some a =>
        simp only [await, hb]
        exact subset_cons_self _ _
    | quiet | deadline => exact subset_cons_self _ _

theorem segments_mem {e : Endpoints} {seg : Segment} : ∀ {n : Nat} {polls : List Poll},
    seg ∈ segments e n polls → ∃ bytes, .frame bytes ∈ polls ∧
      recvTcpFrame e 0 bytes = some seg := by
  intro n
  induction n with
  | zero => intro polls h; cases h
  | succ n ih =>
    intro polls h
    have hsub := await_subset (recvTcpFrame e 0) polls
    cases ha : await (recvTcpFrame e 0) polls with
    | mk got rest =>
      rw [ha] at hsub
      have hrest : seg ∈ segments e n rest →
          ∃ bytes, .frame bytes ∈ polls ∧ recvTcpFrame e 0 bytes = some seg := by
        intro hmem
        obtain ⟨bytes, hbytes, hrecv⟩ := ih hmem
        exact ⟨bytes, hsub hbytes, hrecv⟩
      cases got with
      | none =>
        simp only [segments, ha] at h
        exact hrest h
      | some first =>
        simp only [segments, ha, mem_cons] at h
        rcases h with rfl | h
        · exact await_mem ha
        · split at h
          · cases h
          · exact hrest h

/-! ## The handshake -/

theorem sendSyn_conn (s : TcpStack) :
    s.sendSyn.conn = { s.conn with seqNum := s.conn.seqNum + 1 } := rfl

def TcpConn.accepted (conn : TcpConn) (seg : Segment) : TcpConn :=
  { conn with ackNum := seg.seq + 1, state := .established }

section Attempt

variable {n : Nat} {s : TcpStack} {polls rest : List Poll} {seg : Segment}

theorem resend_conn (s : TcpStack) :
    ({ s with conn.seqNum := s.conn.seqNum - 1 } : TcpStack).sendSyn.conn = s.conn := by
  rw [sendSyn_conn]
  simp only [UInt32.sub_add_cancel]

theorem handshake_quiet (h : await (recvTcpFrame s.conn.toEndpoints 0) polls = (none, rest)) :
    ∃ s' : TcpStack, s'.conn = s.conn ∧ handshake (n + 1) s polls = handshake n s' rest ∧
      segments s.conn.toEndpoints (n + 1) polls = segments s'.conn.toEndpoints n rest := by
  refine ⟨_, resend_conn s, ?_, ?_⟩
  · simp only [handshake, h]
  · simp only [segments, h, resend_conn]

section

variable (h : await (recvTcpFrame s.conn.toEndpoints 0) polls = (some seg, rest))
include h

theorem handshake_rst
    (hrst : seg.rst = true) : (handshake (n + 1) s polls).1 = .error ∧
      segments s.conn.toEndpoints (n + 1) polls = [seg] := by
  simp [handshake, segments, Segment.decisive, h, hrst]

theorem handshake_synAck
    (hrst : seg.rst = false) (hsyn : seg.synAck = true) :
    (handshake (n + 1) s polls).1 = .ok ∧ (handshake (n + 1) s polls).2.conn = s.conn.accepted seg ∧
      segments s.conn.toEndpoints (n + 1) polls = [seg] := by
  simp [handshake, segments, Segment.decisive, h, hrst, hsyn, TcpConn.accepted,
    TcpStack.sendTcpFrame]

theorem handshake_other
    (hrst : seg.rst = false) (hsyn : seg.synAck = false) :
    handshake (n + 1) s polls = handshake n s rest ∧
      segments s.conn.toEndpoints (n + 1) polls = seg :: segments s.conn.toEndpoints n rest := by
  simp [handshake, segments, Segment.decisive, h, hrst, hsyn]

end

end Attempt

theorem handshake_ok : ∀ {n : Nat} {s : TcpStack} {polls : List Poll},
    (handshake n s polls).1 = .ok →
    ∃ seg ∈ segments s.conn.toEndpoints n polls, seg.rst = false ∧ seg.synAck = true ∧
      (handshake n s polls).2.conn = s.conn.accepted seg ∧
      ∀ seg' ∈ segments s.conn.toEndpoints n polls, seg'.synAck = true → seg' = seg := by
  intro n
  induction n with
  | zero => intro s polls h; cases h
  | succ n ih =>
    intro s polls h
    rcases hr : await (recvTcpFrame s.conn.toEndpoints 0) polls with ⟨_ | seg, rest⟩
    · obtain ⟨s', hconn', heq, hsegs⟩ := handshake_quiet (n := n) hr
      rw [heq] at h ⊢
      rw [hsegs, ← hconn']
      exact ih h
    · cases hrst : seg.rst with
      | true =>
        obtain ⟨herr, -⟩ := handshake_rst (n := n) hr hrst
        rw [herr] at h
        cases h
      | false =>
        cases hsyn : seg.synAck with
        | true =>
          obtain ⟨-, hconn, hsegs⟩ := handshake_synAck (n := n) hr hrst hsyn
          rw [hsegs]
          exact ⟨seg, mem_singleton_self seg, hrst, hsyn, hconn,
            fun seg' hmem _ => mem_singleton.mp hmem⟩
        | false =>
          obtain ⟨heq, hsegs⟩ := handshake_other (n := n) hr hrst hsyn
          rw [heq] at h ⊢
          rw [hsegs]
          obtain ⟨seg', hmem, hrst', hsyn', hconn, huniq⟩ := ih h
          refine ⟨seg', mem_cons_of_mem _ hmem, hrst', hsyn', hconn, ?_⟩
          intro seg'' hmem'' hsyn''
          rcases mem_cons.mp hmem'' with rfl | hmem''
          · rw [hsyn] at hsyn''
            cases hsyn''
          · exact huniq seg'' hmem'' hsyn''

theorem handshake_of_synAck : ∀ {n : Nat} {s : TcpStack} {polls : List Poll} {seg : Segment},
    seg ∈ segments s.conn.toEndpoints n polls → seg.rst = false → seg.synAck = true →
    (handshake n s polls).1 = .ok := by
  intro n
  induction n with
  | zero => intro s polls seg hmem; cases hmem
  | succ n ih =>
    intro s polls seg hmem hrst hsyn
    rcases hr : await (recvTcpFrame s.conn.toEndpoints 0) polls with ⟨_ | first, rest⟩
    · obtain ⟨s', -, heq, hsegs⟩ := handshake_quiet (n := n) hr
      rw [hsegs] at hmem
      rw [heq]
      exact ih hmem hrst hsyn
    · cases hr' : first.rst with
      | true =>
        obtain ⟨-, hsegs⟩ := handshake_rst (n := n) hr hr'
        rw [hsegs, mem_singleton] at hmem
        rw [hmem, hr'] at hrst
        cases hrst
      | false =>
        cases hs : first.synAck with
        | true => exact (handshake_synAck hr hr' hs).1
        | false =>
          obtain ⟨heq, hsegs⟩ := handshake_other (n := n) hr hr' hs
          rw [hsegs, mem_cons] at hmem
          rw [heq]
          rcases hmem with rfl | hmem
          · rw [hs] at hsyn
            cases hsyn
          · exact ih hmem hrst hsyn

/-! ## Connecting -/

def ConnectCall.received (g : TcpGlobals) (c : ConnectCall) : List Segment :=
  if ¬ c.device then []
  else
    match arpAttempts g (nextHop g c.remoteIp) 3 [] c.polls with
    | (none, _, _) => []
    | (some _, _, polls) => segments (newConn g c).toEndpoints 3 polls

/-- `HAL_OK` comes only on a segment from the peer with SYN and ACK that acknowledges the SYN. -/
def Established (g : TcpGlobals) (c : ConnectCall) : Prop :=
  (tcpConnect g c).1 = .ok →
    (tcpConnect g c).2.conn.state = .established ∧
    ∃ seg ∈ c.received g, seg.synAck = true ∧ seg.ack = c.isn + 1 ∧
      (∃ bytes, .frame bytes ∈ c.polls ∧
        recvTcpFrame (newConn g c).toEndpoints 0 bytes = some seg) ∧
      (tcpConnect g c).2.conn.seqNum = seg.ack ∧
      (tcpConnect g c).2.conn.ackNum = seg.seq + 1

theorem arpAttempts_subset (g : TcpGlobals) (targetIp : UInt32) :
    ∀ (n : Nat) (sent : List (List UInt8)) (polls : List Poll),
      (arpAttempts g targetIp n sent polls).2.2 ⊆ polls := by
  intro n
  induction n with
  | zero => intro sent polls; exact List.Subset.refl _
  | succ n ih =>
    intro sent polls
    have hsub := await_subset (arpReply targetIp) polls
    cases ha : await (arpReply targetIp) polls with
    | mk got rest =>
      rw [ha] at hsub
      cases got with
      | none =>
        simp only [arpAttempts, ha]
        exact List.Subset.trans (ih _ _) hsub
      | some mac =>
        simp only [arpAttempts, ha]
        exact hsub

theorem tcpConnect_cases (g : TcpGlobals) (c : ConnectCall) :
    ((tcpConnect g c).1 ≠ .ok ∧ c.received g = []) ∨
    ∃ (s : TcpStack) (polls : List Poll), polls ⊆ c.polls ∧ tcpConnect g c = handshake 3 s polls ∧
      c.received g = segments s.conn.toEndpoints 3 polls ∧
      s.conn.toEndpoints = (newConn g c).toEndpoints ∧ s.conn.seqNum = c.isn + 1 := by
  unfold tcpConnect ConnectCall.received
  cases hd : c.device with
  | false => exact .inl ⟨by simp, by simp⟩
  | true =>
    have hsub := arpAttempts_subset g (nextHop g c.remoteIp) 3 [] c.polls
    generalize arpAttempts g (nextHop g c.remoteIp) 3 [] c.polls = r at hsub ⊢
    obtain ⟨_ | mac, sent, polls⟩ := r
    · exact .inl ⟨by simp, rfl⟩
    · exact .inr ⟨_, polls, hsub, rfl, rfl, rfl, rfl⟩

/-- Whatever is received: a connection is reported only on an acknowledgement of the SYN if and only
if every SYN-ACK received acknowledges it. -/
theorem tcpConnect_established_iff (g : TcpGlobals) (c : ConnectCall) :
    Established g c ↔
      ∀ seg ∈ c.received g, seg.rst = false → seg.synAck = true → seg.ack = c.isn + 1 := by
  obtain ⟨hfail, hnone⟩ | ⟨s, polls, hsub, hcall, hrecv, hends, hseq⟩ := tcpConnect_cases g c
  · simp [Established, hfail, hnone]
  · unfold Established
    rw [hcall, hrecv]
    constructor
    · intro h seg hmem hrst hsyn
      have hok := handshake_of_synAck hmem hrst hsyn
      obtain ⟨-, seg₀, hmem₀, hsyn₀, hack, -⟩ := h hok
      obtain ⟨seg', -, -, -, -, huniq⟩ := handshake_ok hok
      rw [huniq seg hmem hsyn, ← huniq seg₀ hmem₀ hsyn₀, hack]
    · intro h hok
      obtain ⟨seg, hmem, hrst, hsyn, hconn, -⟩ := handshake_ok hok
      have hack := h seg hmem hrst hsyn
      obtain ⟨bytes, hframe, hparse⟩ := segments_mem hmem
      rw [hends] at hparse
      refine ⟨by rw [hconn]; rfl, seg, hmem, hsyn, hack, ⟨bytes, hsub hframe, hparse⟩, ?_, ?_⟩
      · rw [hconn, hack, ← hseq]
        rfl
      · rw [hconn]
        rfl

/-! ## A forged SYN-ACK -/

def homeGlobals : TcpGlobals := ⟨0x0A000002, 0x0A000001, 0xFFFFFF00, List.replicate 6 2, 1⟩

def serverConn (seq ack : UInt32) : TcpConn where
  localIp := 0x0A000003
  localPort := 80
  remoteIp := 0x0A000002
  remotePort := 49152
  state := .established
  seqNum := seq
  ackNum := ack
  localMac := List.replicate 6 3
  remoteMac := List.replicate 6 2

def serverArp : List UInt8 :=
  List.replicate 6 2 ++ List.replicate 6 3 ++ htons 0x0806 ++ htons 1 ++ htons 0x0800 ++ [6, 4] ++
    htons 2 ++ List.replicate 6 3 ++ htonl 0x0A000003 ++ List.replicate 6 2 ++ htonl 0x0A000002

def serverCall (ack : UInt32) : ConnectCall where
  remoteIp := 0x0A000003
  remotePort := 80
  portNs := 0
  seqNs := 1000
  device := true
  polls := [.frame serverArp, .frame (tcpFrame (serverConn 5000 ack) 1 0x12 [])]

/-- The SYN went out with number 1000. A SYN-ACK that acknowledges 7 is
accepted all the same. -/
theorem tcpConnect_accepts_forged :
    (tcpConnect homeGlobals (serverCall 7)).1 = .ok ∧
    ((serverCall 7).received homeGlobals).map (·.ack) = [7] ∧
    (serverCall 7).isn + 1 = 1001 := by
  decide +kernel

end AlJefra.Net
