/-
What a sequence of `tcp_recv` calls delivers. No acknowledged byte is lost exactly if each segment
fits what is left of the buffer it is read into; order is kept if each also starts at `ack_num`.
-/
import AlJefra.Net.Tcp
import Mathlib.Algebra.GroupWithZero.Nat

namespace AlJefra.Net

open AlJefra.Lib AlJefra.Hal List UInt32

variable (s : Session) (c : RecvCall) (e : Endpoints) (ps qs : List Poll) (p : Poll)

/-! ## What a poll carries -/

def segmentOf (e : Endpoints) : Poll → Option Segment
  | .frame bytes => recvTcpFrame e tcpTmpSize bytes
  | .quiet => none
  | .deadline => none

def carried (e : Endpoints) (p : Poll) : List UInt8 :=
  match segmentOf e p with
  | none => []
  | some seg => if seg.rst then [] else seg.payload

def finCount (e : Endpoints) (p : Poll) : Nat :=
  match segmentOf e p with
  | none => 0
  | some seg => if seg.rst then 0 else if seg.fin then 1 else 0

def ackAfter (e : Endpoints) (ack : UInt32) (p : Poll) : UInt32 :=
  match segmentOf e p with
  | none => ack
  | some seg =>
    if seg.rst then ack
    else if seg.fin then seg.seq + UInt32.ofNat seg.payload.length + 1
    else if seg.payload ≠ [] then seg.seq + UInt32.ofNat seg.payload.length
    else ack

def stream (e : Endpoints) (polls : List Poll) : List UInt8 := polls.flatMap (carried e)
def fins (e : Endpoints) (polls : List Poll) : Nat := (polls.map (finCount e)).sum

@[simp] theorem stream_nil : stream e [] = [] := rfl

@[simp] theorem stream_cons (ps : List Poll) : stream e (p :: ps) = carried e p ++ stream e ps := by
  simp [stream]

@[simp] theorem stream_append : stream e (ps ++ qs) = stream e ps ++ stream e qs := by
  simp [stream]

@[simp] theorem fins_cons (ps : List Poll) : fins e (p :: ps) = finCount e p + fins e ps := by
  simp [fins]

@[simp] theorem fins_append : fins e (ps ++ qs) = fins e ps + fins e qs := by
  simp [fins]

/-! ## One step of the loop -/

theorem toNat_int32 (x : UInt32) : (int32 x).toNat = if x.toNat < 2 ^ 31 then x.toNat else 0 := by
  have hx : x.toBitVec.toNat = x.toNat := rfl
  rw [int32, BitVec.toInt_eq_toNat_cond, hx]
  split <;> split <;> omega

def Fits (maxLen : UInt32) (l : RecvLoop) (p : Poll) : Prop :=
  let n := l.total.toNat + (carried l.stack.conn.toEndpoints p).length
  n ≤ maxLen.toNat ∧ n < 2 ^ 31

instance (maxLen : UInt32) (l : RecvLoop) (p : Poll) : Decidable (Fits maxLen l p) :=
  inferInstanceAs (Decidable (_ ∧ _))

section CopyIn

variable {l : RecvLoop} {maxLen : UInt32} {payload : List UInt8}

theorem total_lt_of_stop (h : l.stop maxLen = false) : l.total.toNat < maxLen.toNat := by
  have h' : ¬ maxLen ≤ l.total := by
    intro hle
    simp [RecvLoop.stop, hle] at h
  rw [le_iff_toNat_le] at h'
  omega

theorem result_of_stop (h : l.stop maxLen = false) : l.result = none := by
  cases hr : l.result with
  | none => rfl
  | some r => simp [RecvLoop.stop, hr] at h

theorem copyIn_nil (h : l.total.toNat < maxLen.toNat) : l.copyIn maxLen [] = l := by
  have hlt : ¬ maxLen < l.total := by
    rw [lt_iff_toNat_lt]
    omega
  have hwrite : l.buf.write l.total.toNat [] = l.buf := by
    funext i
    simp only [Pointer.write, length_nil, add_zero]
    rw [if_neg (by omega)]
  simp [RecvLoop.copyIn, hlt, hwrite]

theorem copyIn_total_le (h : l.total.toNat < maxLen.toNat) (payload : List UInt8) :
    (l.copyIn maxLen payload).total.toNat ≤ l.total.toNat + payload.length := by
  simp only [RecvLoop.copyIn]
  split
  · rename_i hlt
    rw [lt_iff_toNat_lt, UInt32.toNat_add, toNat_ofNat'] at hlt
    rw [UInt32.toNat_add, UInt32.toNat_sub]
    omega
  · rw [UInt32.toNat_add, toNat_ofNat']
    omega

theorem copyIn_total_eq (h : l.total.toNat < maxLen.toNat)
    (hlt : l.total.toNat + payload.length < 2 ^ 31) :
    (l.copyIn maxLen payload).total.toNat = l.total.toNat + payload.length ↔
      l.total.toNat + payload.length ≤ maxLen.toNat := by
  simp only [RecvLoop.copyIn]
  split
  · rename_i hc
    rw [lt_iff_toNat_lt, UInt32.toNat_add, toNat_ofNat'] at hc
    rw [UInt32.toNat_add, UInt32.toNat_sub]
    omega
  · rename_i hc
    rw [lt_iff_toNat_lt, UInt32.toNat_add, toNat_ofNat'] at hc
    rw [UInt32.toNat_add, toNat_ofNat']
    omega

theorem copyIn_bytes (hfit : l.total.toNat + payload.length ≤ maxLen.toNat)
    (hlt : l.total.toNat + payload.length < 2 ^ 31) :
    (l.copyIn maxLen payload).buf.bytes 0 (l.total.toNat + payload.length) =
      l.buf.bytes 0 l.total.toNat ++ payload := by
  have hc : ¬ maxLen < l.total + UInt32.ofNat payload.length := by
    rw [lt_iff_toNat_lt, UInt32.toNat_add, toNat_ofNat']
    omega
  have hlen : (UInt32.ofNat payload.length).toNat = payload.length := by
    rw [toNat_ofNat']
    omega
  simp only [RecvLoop.copyIn, hc, if_false, hlen, take_length]
  exact Pointer.bytes_write ..

end CopyIn

structure Advanced (maxLen : UInt32) (l : RecvLoop) (p : Poll) (l' : RecvLoop) : Prop where
  endpoints : l'.stack.conn.toEndpoints = l.stack.conn.toEndpoints
  buf : l'.buf = (l.copyIn maxLen (carried l.stack.conn.toEndpoints p)).buf
  total : l'.total = (l.copyIn maxLen (carried l.stack.conn.toEndpoints p)).total
  ack : l'.stack.conn.ackNum = ackAfter l.stack.conn.toEndpoints l.stack.conn.ackNum p
  state : finCount l.stack.conn.toEndpoints p = 1 → l'.stack.conn.state ≠ .established
  stays : l.stack.conn.state ≠ .established → l'.stack.conn.state ≠ .established
  result : ∀ r, l'.result = some r → r.toNat = (int32 l'.total).toNat

variable {maxLen next : UInt32} {p : Poll} {e : Endpoints}

theorem advanced_of_segmentOf_none {l l' : RecvLoop} (hlt : l.total.toNat < maxLen.toNat)
    (hseg : segmentOf l.stack.conn.toEndpoints p = none) (hstack : l'.stack = l.stack)
    (hbuf : l'.buf = l.buf) (htotal : l'.total = l.total)
    (hres : ∀ r, l'.result = some r → r.toNat = (int32 l'.total).toNat) :
    Advanced maxLen l p l' := by
  have hc : carried l.stack.conn.toEndpoints p = [] := by simp [carried, hseg]
  constructor
  · rw [hstack]
  · rw [hc, copyIn_nil hlt, hbuf]
  · rw [hc, copyIn_nil hlt, htotal]
  · simp [ackAfter, hseg, hstack]
  · simp [finCount, hseg]
  · rw [hstack]
    exact id
  · exact hres

section SegmentCases

variable {maxLen : UInt32} {l : RecvLoop} {p : Poll} {seg : Segment}

theorem copyIn_guard (hlt : l.total.toNat < maxLen.toNat) (payload : List UInt8) :
    (if payload ≠ [] then l.copyIn maxLen payload else l) = l.copyIn maxLen payload := by
  by_cases hp : payload = []
  · simp [hp, copyIn_nil hlt]
  · simp [hp]

variable (hseg : segmentOf l.stack.conn.toEndpoints p = some seg)
include hseg

theorem rst_advanced (hlt : l.total.toNat < maxLen.toNat) (hrst : seg.rst) :
    Advanced maxLen l p (l.segment maxLen seg) := by
  have hc : carried l.stack.conn.toEndpoints p = [] := by simp [carried, hseg, hrst]
  have hf : finCount l.stack.conn.toEndpoints p = 0 := by simp [finCount, hseg, hrst]
  have hnil := copyIn_nil hlt
  simp only [RecvLoop.segment, hrst, if_true]
  constructor
  · rfl
  · rw [hc, hnil]; rfl
  · rw [hc, hnil]; rfl
  · simp [ackAfter, hseg, hrst, RecvLoop.setState]
  · simp [hf]
  · simp [RecvLoop.setState]
  · intro r hr
    cases hr
    by_cases hpos : 0 < l.total
    · simp [RecvLoop.setState, hpos]
    · -- nothing received: `-1` hands over as little as `0` would
      have hz : l.total = 0 := by
        rw [lt_iff_toNat_lt] at hpos
        exact UInt32.toNat_inj.mp (by simpa using hpos)
      simp only [RecvLoop.setState, hz]
      decide

theorem fin_advanced (hlt : l.total.toNat < maxLen.toNat)
    (hrst : seg.rst = false)
    (hfin : seg.fin) : Advanced maxLen l p (l.segment maxLen seg) := by
  have hc : carried l.stack.conn.toEndpoints p = seg.payload := by simp [carried, hseg, hrst]
  let l₁ := (l.sendAck (seg.seq + UInt32.ofNat seg.payload.length + 1)).setState .closeWait
  have hguard := copyIn_guard (show l₁.total.toNat < maxLen.toNat from hlt) seg.payload
  have heq : l.segment maxLen seg = { l₁.copyIn maxLen seg.payload with
        result := some (int32 (l₁.copyIn maxLen seg.payload).total) } := by
    rw [← hguard]
    simp only [RecvLoop.segment, hrst, hfin, if_true, Bool.false_eq_true, if_false, l₁]
  rw [heq]
  constructor
  · rfl
  · rw [hc]; rfl
  · rw [hc]; rfl
  · simp [ackAfter, hseg, hrst, hfin, l₁, RecvLoop.copyIn, RecvLoop.setState, RecvLoop.sendAck,
      TcpStack.sendTcpFrame]
  · simp [l₁, RecvLoop.copyIn, RecvLoop.setState]
  · simp [l₁, RecvLoop.copyIn, RecvLoop.setState]
  · intro r hr
    cases hr
    rfl

theorem data_advanced (hres : l.result = none)
    (hrst : seg.rst = false)
    (hfin : seg.fin = false) (hp : seg.payload ≠ []) :
    Advanced maxLen l p (l.segment maxLen seg) := by
  have hc : carried l.stack.conn.toEndpoints p = seg.payload := by simp [carried, hseg, hrst]
  have hf : finCount l.stack.conn.toEndpoints p = 0 := by simp [finCount, hseg, hrst, hfin]
  simp only [RecvLoop.segment, hrst, hfin, Bool.false_eq_true, if_false, if_pos hp]
  constructor
  · rfl
  · rw [hc]; rfl
  · rw [hc]; rfl
  · simp [ackAfter, hseg, hrst, hfin, hp, RecvLoop.sendAck, TcpStack.sendTcpFrame]
  · simp [hf]
  · exact id
  · intro r hr
    simp [RecvLoop.sendAck, RecvLoop.copyIn, hres] at hr

theorem empty_advanced (hlt : l.total.toNat < maxLen.toNat) (hres : l.result = none)
    (hrst : seg.rst = false)
    (hfin : seg.fin = false) (hp : seg.payload = []) :
    Advanced maxLen l p (l.segment maxLen seg) := by
  have hc : carried l.stack.conn.toEndpoints p = [] := by simp [carried, hseg, hrst, hp]
  have hnil := copyIn_nil hlt
  have heq : l.segment maxLen seg = l := by simp [RecvLoop.segment, hrst, hfin, hp]
  rw [heq]
  constructor
  · rfl
  · rw [hc, hnil]
  · rw [hc, hnil]
  · simp [ackAfter, hseg, hrst, hfin, hp]
  · simp [finCount, hseg, hrst, hfin]
  · exact id
  · intro r hr
    simp [hres] at hr

theorem segment_advanced (hlt : l.total.toNat < maxLen.toNat) (hres : l.result = none) :
    Advanced maxLen l p (l.segment maxLen seg) := by
  cases hrst : seg.rst with
  | true => exact rst_advanced hseg hlt hrst
  | false =>
    cases hfin : seg.fin with
    | true => exact fin_advanced hseg hlt hrst hfin
    | false =>
      by_cases hp : seg.payload = []
      · exact empty_advanced hseg hlt hres hrst hfin hp
      · exact data_advanced hseg hres hrst hfin hp

end SegmentCases

theorem body_advanced {l : RecvLoop} (p : Poll) (h : l.stop maxLen = false) :
    Advanced maxLen l p (l.body maxLen p) := by
  have hlt := total_lt_of_stop h
  have hres := result_of_stop h
  cases p with
  | deadline =>
    refine advanced_of_segmentOf_none hlt rfl rfl rfl rfl ?_
    intro r hr
    cases hr
    rfl
  | quiet =>
    simp only [RecvLoop.body]
    split
    · refine advanced_of_segmentOf_none hlt rfl rfl rfl rfl ?_
      intro r hr
      cases hr
      rfl
    · refine advanced_of_segmentOf_none hlt rfl rfl rfl rfl ?_
      intro r hr
      simp [hres] at hr
  | frame bytes =>
    simp only [RecvLoop.body]
    cases hseg : recvTcpFrame l.stack.conn.toEndpoints tcpTmpSize bytes with
    | none =>
      refine advanced_of_segmentOf_none hlt hseg rfl rfl rfl ?_
      intro r hr
      simp [hres] at hr
    | some seg => exact segment_advanced hseg hlt hres

/-! ## One call -/

abbrev Reading (maxLen : UInt32) : RecvLoop → List Poll → Prop :=
  Steps (RecvLoop.body maxLen) fun l _ => l.stop maxLen = false

section Loop

variable {maxLen : UInt32}

theorem run_endpoints : ∀ (ps : List Poll) (l : RecvLoop), Reading maxLen l ps →
    (run (RecvLoop.body maxLen) l ps).stack.conn.toEndpoints = l.stack.conn.toEndpoints := by
  intro ps
  induction ps with
  | nil => intro l _; rfl
  | cons p ps ih =>
    intro l h
    rw [run_cons, ih _ h.2, (body_advanced p h.1).endpoints]

theorem run_total_le : ∀ (ps : List Poll) (l : RecvLoop), Reading maxLen l ps →
    (run (RecvLoop.body maxLen) l ps).total.toNat ≤
      l.total.toNat + (stream l.stack.conn.toEndpoints ps).length := by
  intro ps
  induction ps with
  | nil => intro l _; simp
  | cons p ps ih =>
    intro l h
    have hadv := body_advanced p h.1
    have hrest := ih _ h.2
    have hstep := copyIn_total_le (total_lt_of_stop h.1) (carried l.stack.conn.toEndpoints p)
    rw [hadv.total, hadv.endpoints] at hrest
    rw [run_cons, stream_cons, length_append]
    omega

theorem run_fits : ∀ (ps : List Poll) (l : RecvLoop), Reading maxLen l ps →
    Steps (RecvLoop.body maxLen) (Fits maxLen) l ps → l.total.toNat < 2 ^ 31 →
    let l' := run (RecvLoop.body maxLen) l ps
    l'.total.toNat = l.total.toNat + (stream l.stack.conn.toEndpoints ps).length ∧
      l'.total.toNat < 2 ^ 31 ∧
      l'.buf.bytes 0 l'.total.toNat =
        l.buf.bytes 0 l.total.toNat ++ stream l.stack.conn.toEndpoints ps := by
  intro ps
  induction ps with
  | nil => intro l _ _ hlt; simpa using hlt
  | cons p ps ih =>
    intro l h hfits _
    obtain ⟨hfit, hlt⟩ := hfits.1
    have hadv := body_advanced p h.1
    have htotal := (copyIn_total_eq (total_lt_of_stop h.1) hlt).mpr hfit
    have hbytes := copyIn_bytes hfit hlt
    rw [← hadv.total] at htotal
    rw [← hadv.buf, ← htotal] at hbytes
    obtain ⟨hsum, hlt', hbuf⟩ := ih _ h.2 hfits.2 (by omega)
    rw [hadv.endpoints] at hsum hbuf
    refine ⟨?_, hlt', ?_⟩
    · rw [run_cons, hsum, stream_cons, length_append]
      omega
    · rw [run_cons, hbuf, hbytes, stream_cons, append_assoc]

theorem fits_of_run : ∀ (ps : List Poll) (l : RecvLoop), Reading maxLen l ps →
    (run (RecvLoop.body maxLen) l ps).total.toNat =
      l.total.toNat + (stream l.stack.conn.toEndpoints ps).length →
    (run (RecvLoop.body maxLen) l ps).total.toNat < 2 ^ 31 →
    Steps (RecvLoop.body maxLen) (Fits maxLen) l ps := by
  intro ps
  induction ps with
  | nil => intro l _ _ _; trivial
  | cons p ps ih =>
    intro l h hsum hlt
    have hadv := body_advanced p h.1
    have hbound := run_total_le ps _ h.2
    have hstep := copyIn_total_le (total_lt_of_stop h.1) (carried l.stack.conn.toEndpoints p)
    rw [hadv.endpoints] at hbound
    rw [← hadv.total] at hstep
    rw [run_cons] at hsum hlt
    rw [stream_cons, length_append] at hsum
    have hpos : l.total.toNat + (carried l.stack.conn.toEndpoints p).length < 2 ^ 31 := by omega
    have heq : (l.body maxLen p).total.toNat =
        l.total.toNat + (carried l.stack.conn.toEndpoints p).length := by omega
    refine ⟨⟨?_, hpos⟩, ih _ h.2 ?_ hlt⟩
    · rw [hadv.total] at heq
      exact (copyIn_total_eq (total_lt_of_stop h.1) hpos).mp heq
    · rw [hadv.endpoints]
      omega

theorem run_result : ∀ (ps : List Poll) (l : RecvLoop), Reading maxLen l ps →
    (∀ r, l.result = some r → r.toNat = (int32 l.total).toNat) →
    let l' := run (RecvLoop.body maxLen) l ps
    (l'.result.getD (int32 l'.total)).toNat = (int32 l'.total).toNat := by
  intro ps
  induction ps with
  | nil =>
    intro l _ hres
    cases hr : l.result with
    | none => simp [hr]
    | some r => simpa [hr] using hres r hr
  | cons p ps ih => exact fun l h _ => ih _ h.2 (body_advanced p h.1).result

end Loop

/-! ## A sequence of calls -/

namespace Session

abbrev endpoints (s : Session) : Endpoints := s.stack.conn.toEndpoints

def start (s : Session) (c : RecvCall) : RecvLoop := { stack := s.stack, buf := c.buf }

def reads (s : Session) (c : RecvCall) : List Poll :=
  (s.stack.tcpRecv c.buf c.maxLen s.polls).read

abbrev last (s : Session) (c : RecvCall) : RecvLoop :=
  run (RecvLoop.body c.maxLen) (s.start c) (s.reads c)

@[simp] theorem start_total : (s.start c).total = 0 := rfl
@[simp] theorem start_stack : (s.start c).stack = s.stack := rfl
@[simp] theorem start_result : (s.start c).result = none := rfl

def Reads (s : Session) (c : RecvCall) (C : RecvLoop → Poll → Prop) : Prop :=
  Steps (RecvLoop.body c.maxLen) C (s.start c) (s.reads c)

def CallFits (s : Session) (c : RecvCall) : Prop := s.Reads c (Fits c.maxLen)

instance (s : Session) (c : RecvCall) : Decidable (s.CallFits c) :=
  inferInstanceAs (Decidable (Steps ..))

def handed (s : Session) (c : RecvCall) : List UInt8 :=
  let r := s.stack.tcpRecv c.buf c.maxLen s.polls
  r.buf.bytes 0 r.result.toNat

theorem tcpRecv_cases : (s.reads c = [] ∧ s.handed c = [] ∧ (s.recv c).stack = s.stack) ∨
    (s.reads c = taken (RecvLoop.stop c.maxLen) (RecvLoop.body c.maxLen) (s.start c) s.polls ∧
      s.handed c = (s.last c).buf.bytes 0 ((s.last c).result.getD (int32 (s.last c).total)).toNat ∧
      (s.recv c).stack = (s.last c).stack) := by
  unfold last reads handed recv TcpStack.tcpRecv
  split
  · exact .inl ⟨rfl, rfl, rfl⟩
  · exact .inr ⟨rfl, rfl, rfl⟩

theorem reading : Reading c.maxLen (s.start c) (s.reads c) := by
  obtain ⟨hread, -⟩ | ⟨hread, -⟩ := s.tcpRecv_cases c
  · rw [hread]
    trivial
  · rw [hread]
    exact steps_taken ..

theorem reads_append_drop : s.reads c ++ s.polls.drop (s.reads c).length = s.polls := by
  obtain ⟨hread, -⟩ | ⟨hread, -⟩ := s.tcpRecv_cases c
  · rw [hread]
    rfl
  · rw [hread]
    exact taken_append_drop ..

theorem recv_stack : (s.recv c).stack = (s.last c).stack := by
  obtain ⟨hread, -, hstack⟩ | ⟨-, -, hstack⟩ := s.tcpRecv_cases c
  · rw [hstack, last, hread, run_nil, start_stack]
  · exact hstack

theorem recv_endpoints : (s.recv c).endpoints = s.endpoints := by
  unfold endpoints
  rw [s.recv_stack c]
  exact run_endpoints _ _ (s.reading c)

theorem recv_seen_polls : (s.recv c).seen ++ (s.recv c).polls = s.seen ++ s.polls := by
  have h : (s.recv c).seen ++ (s.recv c).polls =
      (s.seen ++ s.reads c) ++ s.polls.drop (s.reads c).length := rfl
  rw [h, append_assoc, s.reads_append_drop c]

theorem last_total_le : (s.last c).total.toNat ≤ (stream s.endpoints (s.reads c)).length := by
  have h := run_total_le (s.reads c) _ (s.reading c)
  rwa [start_total, UInt32.toNat_zero, zero_add] at h

theorem handed_eq : s.handed c = (s.last c).buf.bytes 0
    (if (s.last c).total.toNat < 2 ^ 31 then (s.last c).total.toNat else 0) := by
  obtain ⟨hread, hhanded, -⟩ | ⟨-, hhanded, -⟩ := s.tcpRecv_cases c
  · rw [hhanded, last, hread]
    rfl
  · have hres : ((s.last c).result.getD (int32 (s.last c).total)).toNat =
        (int32 (s.last c).total).toNat := run_result (s.reads c) _ (s.reading c) (by simp)
    rw [hhanded, hres, toNat_int32]

theorem handed_of_fits (h : s.CallFits c) : s.handed c = stream s.endpoints (s.reads c) := by
  obtain ⟨-, hlt, hbuf⟩ := run_fits (s.reads c) _ (s.reading c) h (by simp)
  rw [handed_eq, if_pos hlt]
  exact hbuf

theorem length_handed_le : (s.handed c).length ≤ (stream s.endpoints (s.reads c)).length := by
  have hle := s.last_total_le c
  rw [handed_eq, Pointer.length_bytes]
  split <;> omega

theorem callFits_iff :
    s.CallFits c ↔ (s.handed c).length = (stream s.endpoints (s.reads c)).length := by
  constructor
  · intro h
    rw [s.handed_of_fits c h]
  · intro h
    have hle := s.last_total_le c
    rw [handed_eq, Pointer.length_bytes] at h
    have hlt : (s.last c).total.toNat < 2 ^ 31 := by
      by_contra hge
      rw [if_neg hge] at h
      omega
    rw [if_pos hlt] at h
    refine fits_of_run (s.reads c) _ (s.reading c) ?_ hlt
    rw [start_total, UInt32.toNat_zero, zero_add]
    exact h

theorem run_returned_le : ∀ (calls : List RecvCall) (s : Session),
    (run recv s calls).returned.length + (stream s.endpoints s.seen).length ≤
      s.returned.length + (stream s.endpoints (run recv s calls).seen).length := by
  intro calls
  induction calls with
  | nil => intro s; simp
  | cons c calls ih =>
    intro s
    have hrest := ih (s.recv c)
    have hcall := s.length_handed_le c
    have hret : (s.recv c).returned = s.returned ++ s.handed c := rfl
    have hseen : (s.recv c).seen = s.seen ++ s.reads c := rfl
    rw [recv_endpoints, hret, hseen, stream_append, length_append, length_append] at hrest
    rw [run_cons]
    omega

theorem run_returned_of_fits : ∀ (calls : List RecvCall) (s : Session),
    s.returned = stream s.endpoints s.seen → Steps recv CallFits s calls →
    (run recv s calls).returned = stream s.endpoints (run recv s calls).seen := by
  intro calls
  induction calls with
  | nil => intro s h _; exact h
  | cons c calls ih =>
    intro s h hfits
    have hret : (s.recv c).returned = stream (s.recv c).endpoints (s.recv c).seen := by
      have hseen : (s.recv c).seen = s.seen ++ s.reads c := rfl
      rw [recv_endpoints, hseen, stream_append, ← h, ← s.handed_of_fits c hfits.1]
      rfl
    rw [run_cons, ih _ hret hfits.2, recv_endpoints]

theorem run_fits_of_length : ∀ (calls : List RecvCall) (s : Session),
    s.returned = stream s.endpoints s.seen →
    (stream s.endpoints (run recv s calls).seen).length ≤ (run recv s calls).returned.length →
    Steps recv CallFits s calls := by
  intro calls
  induction calls with
  | nil => intro s _ _; trivial
  | cons c calls ih =>
    intro s h hlen
    have hseen : (s.recv c).seen = s.seen ++ s.reads c := rfl
    have hret : (s.recv c).returned = s.returned ++ s.handed c := rfl
    have hcall := s.length_handed_le c
    -- the first call cannot have fallen behind, since the run has not
    have hrest := run_returned_le calls (s.recv c)
    rw [recv_endpoints, hret, hseen, stream_append, length_append, length_append, h] at hrest
    rw [run_cons] at hlen
    have hfits : s.CallFits c := (s.callFits_iff c).mpr (by omega)
    refine ⟨hfits, ih _ ?_ (by rwa [recv_endpoints])⟩
    rw [recv_endpoints, hseen, hret, stream_append, h, s.handed_of_fits c hfits]

theorem run_endpoints_eq (calls : List RecvCall) (s : Session) :
    (run recv s calls).endpoints = s.endpoints :=
  run_invariant (P := fun s' => s'.endpoints = s.endpoints)
    (fun s' c h => by rw [recv_endpoints, h]) calls s rfl

theorem run_seen_polls (calls : List RecvCall) (s : Session) :
    (run recv s calls).seen ++ (run recv s calls).polls = s.seen ++ s.polls :=
  run_invariant (P := fun s' => s'.seen ++ s'.polls = s.seen ++ s.polls)
    (fun s' c h => by rw [recv_seen_polls, h]) calls s rfl

end Session

/-! ## Segments in order -/

def seqLen (e : Endpoints) (ps : List Poll) : Nat := (stream e ps).length + fins e ps

@[simp] theorem seqLen_nil : seqLen e [] = 0 := rfl

theorem seqLen_cons (ps : List Poll) :
    seqLen e (p :: ps) = (carried e p).length + finCount e p + seqLen e ps := by
  simp only [seqLen, stream_cons, fins_cons, length_append]
  omega

theorem seqLen_append : seqLen e (ps ++ qs) = seqLen e ps + seqLen e qs := by
  simp only [seqLen, stream_append, fins_append, length_append]
  omega

def StartsAt (e : Endpoints) (next : UInt32) (p : Poll) : Prop :=
  match segmentOf e p with
  | none => True
  | some seg => seg.rst = true ∨ (seg.payload = [] ∧ seg.fin = false) ∨ seg.seq = next

instance (e : Endpoints) (next : UInt32) (p : Poll) : Decidable (StartsAt e next p) := by
  unfold StartsAt
  split <;> infer_instance

def InOrder (e : Endpoints) : UInt32 → List Poll → Prop
  | _, [] => True
  | next, p :: ps =>
    StartsAt e next p ∧ InOrder e (next + UInt32.ofNat ((carried e p).length + finCount e p)) ps

instance decidableInOrder (e : Endpoints) : ∀ (next : UInt32) (ps : List Poll),
    Decidable (InOrder e next ps)
  | _, [] => inferInstanceAs (Decidable True)
  | next, p :: ps =>
    haveI := decidableInOrder e (next + UInt32.ofNat ((carried e p).length + finCount e p)) ps
    inferInstanceAs (Decidable (_ ∧ _))

theorem ackAfter_cases (h : StartsAt e next p) :
    (carried e p = [] ∧ finCount e p = 0 ∧ ∀ ack, ackAfter e ack p = ack) ∨
      ∀ ack, ackAfter e ack p = next + UInt32.ofNat ((carried e p).length + finCount e p) := by
  unfold StartsAt at h
  unfold ackAfter carried finCount
  cases hseg : segmentOf e p with
  | none => exact .inl ⟨rfl, rfl, fun _ => rfl⟩
  | some seg =>
    simp only [hseg] at h ⊢
    cases hrst : seg.rst with
    | true => simp
    | false =>
      cases hfin : seg.fin with
      | true =>
        obtain rfl : seg.seq = next := by simpa [hrst, hfin] using h
        exact .inr fun ack => by simp [ofNat_add, UInt32.add_assoc]
      | false =>
        by_cases hp : seg.payload = []
        · simp [hp]
        · obtain rfl : seg.seq = next := by simpa [hrst, hfin, hp] using h
          exact .inr fun ack => by simp [hp]

theorem ackAfter_of_startsAt (h : StartsAt e next p) :
    ackAfter e next p = next + UInt32.ofNat ((carried e p).length + finCount e p) := by
  obtain ⟨hnil, hfin, hack⟩ | hack := ackAfter_cases h
  · simp [hack, hnil, hfin]
  · exact hack next

theorem run_ack : ∀ (ps : List Poll) (l : RecvLoop) (rest : List Poll), Reading maxLen l ps →
    InOrder l.stack.conn.toEndpoints l.stack.conn.ackNum (ps ++ rest) →
    let e := l.stack.conn.toEndpoints
    let l' := run (RecvLoop.body maxLen) l ps
    l'.stack.conn.ackNum = l.stack.conn.ackNum + UInt32.ofNat (seqLen e ps) ∧
      InOrder e l'.stack.conn.ackNum rest := by
  intro ps
  induction ps with
  | nil => intro l rest _ h; simpa using h
  | cons p ps ih =>
    intro l rest hread h
    obtain ⟨hstart, hrest⟩ := h
    have hadv := body_advanced p hread.1
    have hack := hadv.ack
    rw [ackAfter_of_startsAt hstart] at hack
    obtain ⟨hsum, hin⟩ := ih (l.body maxLen p) rest hread.2 (by
      rw [hadv.endpoints, hack]
      exact hrest)
    rw [hadv.endpoints] at hsum hin
    refine ⟨?_, hin⟩
    rw [run_cons, hsum, hack, seqLen_cons, ofNat_add _ (seqLen _ _), UInt32.add_assoc]

theorem Session.recv_ack (h : InOrder s.endpoints s.stack.conn.ackNum s.polls) :
    (s.recv c).stack.conn.ackNum =
        s.stack.conn.ackNum + UInt32.ofNat (seqLen s.endpoints (s.reads c)) ∧
      InOrder s.endpoints (s.recv c).stack.conn.ackNum (s.recv c).polls := by
  rw [← s.reads_append_drop c] at h
  have hrun := run_ack (s.reads c) (s.start c) (s.polls.drop (s.reads c).length) (s.reading c) h
  rw [s.recv_stack c]
  exact hrun

theorem Session.run_ack (first : UInt32) : ∀ (calls : List RecvCall) (s : Session),
    s.stack.conn.ackNum = first + UInt32.ofNat (seqLen s.endpoints s.seen) →
    InOrder s.endpoints s.stack.conn.ackNum s.polls →
    (run Session.recv s calls).stack.conn.ackNum =
      first + UInt32.ofNat (seqLen s.endpoints (run Session.recv s calls).seen) := by
  intro calls
  induction calls with
  | nil => intro s h _; exact h
  | cons c calls ih =>
    intro s h hin
    obtain ⟨hack, hin'⟩ := s.recv_ack c hin
    have hseen : (s.recv c).seen = s.seen ++ s.reads c := rfl
    have hfirst : (s.recv c).stack.conn.ackNum =
        first + UInt32.ofNat (seqLen (s.recv c).endpoints (s.recv c).seen) := by
      rw [hack, h, recv_endpoints, hseen, seqLen_append, ofNat_add, UInt32.add_assoc]
    rw [run_cons, ih _ hfirst (by rwa [recv_endpoints]), recv_endpoints]

/-! ## No acknowledged byte is lost -/

structure Fresh (isn : UInt32) (s : Session) : Prop where
  established : s.stack.conn.state = .established
  ack : s.stack.conn.ackNum = isn + 1
  seen : s.seen = []
  returned : s.returned = []

/-- The caller has all of the stream up to the last byte acknowledged. -/
structure NothingLost (peer : List UInt8) (s : Session) : Prop where
  isPrefix : s.returned <+: peer
  acked : (stream s.endpoints s.seen).length ≤ s.returned.length

/-- For every segmentation and every sequence of calls: no acknowledged byte is lost if and only if
every segment fits the buffer of the call that reads it. -/
theorem tcpRecv_no_acked_byte_lost_iff (isn : UInt32) (s : Session) (calls : List RecvCall)
    (hfresh : Fresh isn s) (hin : InOrder s.endpoints (isn + 1) s.polls) :
    let s' := run Session.recv s calls
    s'.stack.conn.ackNum = isn + 1 + UInt32.ofNat (seqLen s'.endpoints s'.seen) ∧
      (NothingLost (stream s.endpoints s.polls) s' ↔
        Steps Session.recv Session.CallFits s calls) := by
  have hep := Session.run_endpoints_eq calls s
  have hret : s.returned = stream s.endpoints s.seen := by
    rw [hfresh.returned, hfresh.seen, stream_nil]
  refine ⟨?_, ?_, ?_⟩
  · rw [hep]
    refine Session.run_ack (isn + 1) calls s ?_ (by rwa [hfresh.ack])
    rw [hfresh.ack, hfresh.seen]
    simp
  · intro h
    have hacked := h.acked
    rw [hep] at hacked
    exact Session.run_fits_of_length calls s hret hacked
  · intro h
    have hall := Session.run_returned_of_fits calls s hret h
    have hsplit := Session.run_seen_polls calls s
    rw [hfresh.seen, List.nil_append] at hsplit
    refine ⟨?_, Nat.le_of_eq (by rw [hep, hall])⟩
    rw [hall, ← hsplit, stream_append]
    exact prefix_append ..

def webConn : TcpConn :=
  { localIp := 0x0A000002, localPort := 49152, remoteIp := 0x0A000001, remotePort := 80
    state := .established, seqNum := 1000, ackNum := 1
    localMac := [2, 0, 0, 0, 0, 2], remoteMac := [2, 0, 0, 0, 0, 1] }

def peerFrame (seq : UInt32) (flags : UInt8) (data : List UInt8) : Poll :=
  .frame (tcpFrame
    { localIp := 0x0A000001, localPort := 80, remoteIp := 0x0A000002, remotePort := 49152
      state := .established, seqNum := seq, ackNum := 1000
      localMac := [2, 0, 0, 0, 0, 1], remoteMac := [2, 0, 0, 0, 0, 2] } 1 flags data)

def webSession (polls : List Poll) : Session := { stack := ⟨webConn, 1, []⟩, polls := polls }
def callOf (n : UInt32) : RecvCall := ⟨pointerTo [], n⟩

theorem tcpRecv_no_acked_byte_lost_iff_two_segments :
    let s := webSession [peerFrame 1 0x18 [1, 2], .quiet, peerFrame 3 0x19 [3]]
    InOrder s.endpoints 1 s.polls ∧
      NothingLost [1, 2, 3] (run Session.recv s [callOf 100, callOf 1]) :=
  ⟨by decide +kernel,
    (tcpRecv_no_acked_byte_lost_iff 0
      (webSession [peerFrame 1 0x18 [1, 2], .quiet, peerFrame 3 0x19 [3]]) [callOf 100, callOf 1]
      ⟨rfl, rfl, rfl, rfl⟩ (by decide +kernel)).2.mpr (by decide +kernel)⟩

/-- The second byte of a segment is acknowledged and never returned. -/
theorem tcpRecv_drops_acked_byte :
    let s := webSession [peerFrame 1 0x18 [1, 2], .deadline]
    let s' := run Session.recv s [callOf 1, callOf 1]
    InOrder s.endpoints 1 s.polls ∧ stream s.endpoints s.polls = [1, 2] ∧
      s'.returned = [1] ∧ s'.stack.conn.ackNum = 3 ∧ s'.polls = [] := by
  decide +kernel

/-! ## Delivery in order -/

def Expected (peer : List UInt8) (isn : UInt32) (n : Nat) (e : Endpoints) (p : Poll) : Prop :=
  carried e p <+: peer.drop n ∧ StartsAt e (isn + 1 + UInt32.ofNat n) p ∧
    (finCount e p ≠ 0 → n + (carried e p).length = peer.length)

instance (peer : List UInt8) (isn : UInt32) (n : Nat) (e : Endpoints) (p : Poll) :
    Decidable (Expected peer isn n e p) :=
  inferInstanceAs (Decidable (_ ∧ _))

def AckAt (peer : List UInt8) (isn : UInt32) (conn : TcpConn) (n : Nat) : Prop :=
  conn.ackNum = isn + 1 + UInt32.ofNat n ∨
    (n = peer.length ∧ conn.state ≠ .established ∧ conn.ackNum = isn + 1 + UInt32.ofNat (n + 1))

theorem append_isPrefix_of_drop {α : Type} {as bs cs : List α} (ha : as <+: cs)
    (hb : bs <+: cs.drop as.length) : as ++ bs <+: cs := by
  obtain ⟨rest, rfl⟩ := ha
  rw [drop_left] at hb
  obtain ⟨tail, rfl⟩ := hb
  exact ⟨tail, by rw [append_assoc]⟩

section Delivery

variable {peer : List UInt8} {isn : UInt32} {maxLen : UInt32} {before : List UInt8}

def InSequence (peer : List UInt8) (isn : UInt32) (before : List UInt8) (maxLen : UInt32)
    (l : RecvLoop) (p : Poll) : Prop :=
  Fits maxLen l p ∧
    Expected peer isn (before.length + l.total.toNat) l.stack.conn.toEndpoints p

instance (l : RecvLoop) (p : Poll) : Decidable (InSequence peer isn before maxLen l p) :=
  inferInstanceAs (Decidable (_ ∧ _))

structure Delivering (peer : List UInt8) (isn : UInt32) (before : List UInt8) (l : RecvLoop) :
    Prop where
  isPrefix : before ++ l.buf.bytes 0 l.total.toNat <+: peer
  ack : AckAt peer isn l.stack.conn (before.length + l.total.toNat)
  small : l.total.toNat < 2 ^ 31

variable {p : Poll}

theorem Advanced.ackAt {l l' : RecvLoop} {n : Nat} (hadv : Advanced maxLen l p l')
    (h : AckAt peer isn l.stack.conn n) (hexp : Expected peer isn n l.stack.conn.toEndpoints p) :
    AckAt peer isn l'.stack.conn (n + (carried l.stack.conn.toEndpoints p).length) := by
  obtain ⟨-, hstart, hend⟩ := hexp
  obtain ⟨hnil, -, hack⟩ | hack := ackAfter_cases hstart
  · -- nothing carried: `ack_num` and the position stay
    obtain h | ⟨hn, hst, h⟩ := h
    · left
      rw [hadv.ack, hack, h, hnil, length_nil, add_zero]
    · right
      refine ⟨by rw [hnil, hn]; rfl, hadv.stays hst, ?_⟩
      rw [hadv.ack, hack, h, hnil, length_nil, add_zero]
  · have hnew := hadv.ack
    rw [hack, UInt32.add_assoc (isn + 1), ← ofNat_add, ← add_assoc] at hnew
    by_cases hf : finCount l.stack.conn.toEndpoints p = 0
    · left
      rw [hnew, hf, add_zero]
    · right
      have hone : finCount l.stack.conn.toEndpoints p = 1 := by
        revert hf
        unfold finCount
        split
        · simp
        · split
          · simp
          · split <;> simp
      refine ⟨hend hf, hadv.state hone, ?_⟩
      rw [hnew, hone]

theorem Delivering.body {l : RecvLoop} (h : Delivering peer isn before l)
    (hrun : l.stop maxLen = false) (hseq : InSequence peer isn before maxLen l p) :
    Delivering peer isn before (l.body maxLen p) := by
  obtain ⟨⟨hfit, hlt⟩, hexp⟩ := hseq
  have hadv := body_advanced p hrun
  have htotal := (copyIn_total_eq (total_lt_of_stop hrun) hlt).mpr hfit
  have hbytes := copyIn_bytes hfit hlt
  rw [← hadv.total] at htotal
  rw [← hadv.buf, ← htotal] at hbytes
  constructor
  · rw [hbytes, ← append_assoc]
    refine append_isPrefix_of_drop h.isPrefix ?_
    rw [length_append, Pointer.length_bytes]
    exact hexp.1
  · rw [htotal, ← add_assoc]
    exact hadv.ackAt h.ack hexp
  · omega

theorem Delivering.run : ∀ (ps : List Poll) (l : RecvLoop), Delivering peer isn before l →
    Reading maxLen l ps →
    Steps (RecvLoop.body maxLen) (InSequence peer isn before maxLen) l ps →
    Delivering peer isn before (Lib.run (RecvLoop.body maxLen) l ps) := by
  intro ps
  induction ps with
  | nil => intro l h _ _; exact h
  | cons p ps ih =>
    intro l h hread hseq
    exact ih _ (h.body hread.1 hseq.1) hread.2 hseq.2

/-- The caller has a prefix of the stream, and `ack_num` is the next byte expected. -/
structure Delivered (peer : List UInt8) (isn : UInt32) (s : Session) : Prop where
  isPrefix : s.returned <+: peer
  ack : AckAt peer isn s.stack.conn s.returned.length

def Session.CallInSequence (peer : List UInt8) (isn : UInt32) (s : Session) (c : RecvCall) : Prop :=
  s.Reads c (InSequence peer isn s.returned c.maxLen)

instance (s : Session) (c : RecvCall) : Decidable (s.CallInSequence peer isn c) :=
  inferInstanceAs (Decidable (Steps ..))

theorem Delivered.recv {s : Session} {c : RecvCall} (h : Delivered peer isn s)
    (hseq : s.CallInSequence peer isn c) : Delivered peer isn (s.recv c) := by
  have hstart : Delivering peer isn s.returned (s.start c) :=
    ⟨by simpa [Pointer.bytes] using h.isPrefix, by simpa using h.ack, by simp⟩
  have hlast := hstart.run (s.reads c) _ (s.reading c) hseq
  have hret : (s.recv c).returned =
      s.returned ++ (s.last c).buf.bytes 0 (s.last c).total.toNat := by
    have hhanded := s.handed_eq c
    rw [if_pos hlast.small] at hhanded
    rw [← hhanded]
    rfl
  constructor
  · rw [hret]
    exact hlast.isPrefix
  · rw [hret, s.recv_stack c, length_append, Pointer.length_bytes]
    exact hlast.ack

end Delivery

/-- In every run that reads each segment where it fits and is the next one expected, the caller has
a contiguous prefix of the peer's stream after every call. -/
theorem tcpRecv_in_order_delivery (peer : List UInt8) (isn : UInt32) (s : Session)
    (calls : List RecvCall) (hfresh : Fresh isn s)
    (hseq : Steps Session.recv (Session.CallInSequence peer isn) s calls) :
    Delivered peer isn (run Session.recv s calls) := by
  refine run_invariant_of_steps (fun s c h hc => h.recv hc) calls s ?_ hseq
  constructor
  · rw [hfresh.returned]
    exact nil_prefix
  · left
    rw [hfresh.ack, hfresh.returned]
    simp

theorem tcpRecv_in_order_delivery_two_segments :
    Steps Session.recv (Session.CallInSequence [1, 2, 3] 0)
        (webSession [peerFrame 1 0x18 [1, 2], .quiet, peerFrame 3 0x19 [3]])
        [callOf 100, callOf 100] ∧
      Delivered [1, 2, 3] 0
        (run Session.recv (webSession [peerFrame 1 0x18 [1, 2], .quiet, peerFrame 3 0x19 [3]])
          [callOf 100, callOf 100]) :=
  ⟨by decide +kernel, tcpRecv_in_order_delivery _ _ _ _ ⟨rfl, rfl, rfl, rfl⟩ (by decide +kernel)⟩

/-- A retransmitted segment is returned twice; one that overtakes another is returned first. -/
theorem tcpRecv_repeats_and_skips :
    (run Session.recv
        (webSession [peerFrame 1 0x18 [1, 2], peerFrame 1 0x18 [1, 2], .deadline])
        [callOf 100]).returned = [1, 2, 1, 2] ∧
      let s' := run Session.recv (webSession [peerFrame 3 0x18 [3], .deadline]) [callOf 100]
      s'.returned = [3] ∧ s'.stack.conn.ackNum = 4 := by
  decide +kernel

end AlJefra.Net
