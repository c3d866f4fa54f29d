/- `tcp_send` of `src/net/tcp.c`, and the peer that reads its frames. -/
import AlJefra.Net.TcpFrameTheorems
import AlJefra.Net.TcpTheorems

namespace AlJefra.Net

open List

def tcpPsh : UInt8 := 0x08
def tcpTxMss : Nat := 1460

def TcpStack.sendChunk (s : TcpStack) (chunk : List UInt8) : TcpStack :=
  { s.sendTcpFrame (tcpPsh ||| tcpAck) chunk with
    conn.seqNum := s.conn.seqNum + UInt32.ofNat chunk.length }

-- Every turn sends a byte or more, so that the length is enough fuel.
def TcpStack.sendLoop : Nat → TcpStack → List UInt8 → TcpStack
  | 0, s, _ => s
  | fuel + 1, s, p =>
    if p = [] then s else sendLoop fuel (s.sendChunk (p.take tcpTxMss)) (p.drop tcpTxMss)

def TcpStack.tcpSend (s : TcpStack) (data : List UInt8) : Int × TcpStack :=
  if s.conn.state ≠ .established then (-1, s)
  else (int32 (UInt32.ofNat data.length), s.sendLoop data.length data)

/-- The peer reads the frames sent between `s` and `t` as consecutive segments that carry `data`. -/
def Transmits (s t : TcpStack) (data : List UInt8) : Prop :=
  ∃ frames, t.sent = s.sent ++ frames ∧
    stream s.conn.toEndpoints.flip (frames.map .frame) = data ∧
    InOrder s.conn.toEndpoints.flip s.conn.seqNum (frames.map .frame) ∧
    t.conn.seqNum = s.conn.seqNum + UInt32.ofNat data.length

theorem Transmits.nil (s : TcpStack) : Transmits s s [] :=
  ⟨[], (append_nil _).symm, rfl, trivial, (UInt32.add_zero _).symm⟩

section

variable {s : TcpStack} (hlocal : s.conn.localMac.length = 6)
  (hremote : s.conn.remoteMac.length = 6)
include hlocal hremote

theorem sendChunk_read {chunk : List UInt8} (hlen : chunk.length ≤ 1460) :
    let p := Poll.frame (tcpFrame s.conn s.ipId (tcpPsh ||| tcpAck) chunk)
    carried s.conn.toEndpoints.flip p = chunk ∧ finCount s.conn.toEndpoints.flip p = 0 ∧
      StartsAt s.conn.toEndpoints.flip s.conn.seqNum p := by
  intro p
  have hflags : (tcpPsh ||| tcpAck) &&& tcpRst = 0 ∧ (tcpPsh ||| tcpAck) &&& tcpFin = 0 := by
    decide
  have hseg : segmentOf s.conn.toEndpoints.flip p =
      some ⟨tcpPsh ||| tcpAck, s.conn.seqNum, s.conn.ackNum, chunk⟩ := by
    rw [segmentOf, tcpFrame_eq_encode hlocal hremote hlen]
    exact (Datagram.recvTcpFrame_segment_iff _).mpr (Datagram.overlay_of_no_options _ rfl) _ hlen
  simp [carried, finCount, StartsAt, hseg, Segment.rst, Segment.fin, hflags]

theorem sendLoop_transmits {fuel : Nat} {p : List UInt8} (hfuel : p.length ≤ fuel) :
    Transmits s (s.sendLoop fuel p) p := by
  induction fuel generalizing s p with
  | zero =>
    obtain rfl := length_eq_zero_iff.mp (Nat.le_zero.mp hfuel)
    exact .nil s
  | succ fuel ih =>
    rw [TcpStack.sendLoop]
    split
    · next h => exact h ▸ .nil s
    · next h =>
      have hpos := length_pos_iff.mpr h
      obtain ⟨hcarried, hfin, hstarts⟩ := sendChunk_read hlocal hremote (length_take_le tcpTxMss p)
      obtain ⟨frames, hsent, hstream, horder, hseq⟩ := ih (s := s.sendChunk (p.take tcpTxMss))
        hlocal hremote (p := p.drop tcpTxMss) (by rw [length_drop, tcpTxMss]; omega)
      refine ⟨_ :: frames, hsent.trans (append_cons ..).symm, ?_, ⟨hstarts, ?_⟩, ?_⟩
      · rw [map_cons, stream_cons, hcarried]
        exact (congrArg _ hstream).trans (take_append_drop _ _)
      · rw [hcarried, hfin]
        exact horder
      · rw [hseq]
        change s.conn.seqNum + _ + _ = _
        rw [UInt32.add_assoc, ← UInt32.ofNat_add, ← length_append, take_append_drop]

/-- Whatever the length of the data, the peer reads all of it and nothing else. -/
theorem tcpSend_transmits (hstate : s.conn.state = .established) (data : List UInt8) :
    Transmits s (s.tcpSend data).2 data := by
  rw [TcpStack.tcpSend, if_neg (not_not.mpr hstate)]
  exact sendLoop_transmits hlocal hremote (Nat.le_refl _)

end

theorem tcpSend_transmits_two : Transmits oneByteStack
    (oneByteStack.tcpSend (List.replicate 2000 0x61)).2 (List.replicate 2000 0x61) :=
  tcpSend_transmits rfl rfl rfl _

end AlJefra.Net
