/- The receiving side of the minimal TCP client (`src/net/tcp.c`). -/
import AlJefra.Hal.Memory
import AlJefra.Lib.Run

namespace AlJefra.Net

open AlJefra.Lib AlJefra.Hal

/-! ## Byte order and checksums -/

def htons (v : UInt16) : List UInt8 := (leBytes 2 v.toNat).reverse
def htonl (v : UInt32) : List UInt8 := (leBytes 4 v.toNat).reverse

def ntohs (frame : List UInt8) (off : Nat) : UInt16 :=
  UInt16.ofNat (leNat ((frame.drop off).take 2).reverse)

def ntohl (frame : List UInt8) (off : Nat) : UInt32 :=
  UInt32.ofNat (leNat ((frame.drop off).take 4).reverse)

def addWords : UInt32 → List UInt8 → UInt32
  | sum, [] => sum
  | sum, [b] => sum + b.toUInt32
  | sum, a :: b :: rest => addWords (sum + (a.toUInt32 + b.toUInt32 <<< 8)) rest

def foldCarry (sum : UInt32) : UInt32 := (sum &&& (0xFFFF : UInt32)) + (sum >>> (16 : UInt32))
def foldSum (sum : UInt32) : UInt16 := ~~~(foldCarry (foldCarry sum)).toUInt16

theorem toNat_foldCarry (sum : UInt32) :
    (foldCarry sum).toNat = sum.toNat % 2 ^ 16 + sum.toNat / 2 ^ 16 := by
  have hlt := sum.toNat_lt
  have hand : (sum &&& 0xFFFF).toNat = sum.toNat % 2 ^ 16 := by
    rw [UInt32.toNat_and]
    exact Nat.and_two_pow_sub_one_eq_mod sum.toNat 16
  have hshift : (sum >>> 16).toNat = sum.toNat / 2 ^ 16 := by
    rw [UInt32.toNat_shiftRight]
    exact Nat.shiftRight_eq_div_pow sum.toNat 16
  rw [foldCarry, UInt32.toNat_add, hand, hshift]
  omega

theorem foldCarry_twice_lt (sum : UInt32) : (foldCarry (foldCarry sum)).toNat < 2 ^ 16 := by
  have hlt := sum.toNat_lt
  rw [toNat_foldCarry, toNat_foldCarry]
  omega

def ipChecksum (data : List UInt8) : UInt16 := foldSum (addWords 0 data)

def tcpChecksum (srcIp dstIp : UInt32) (tcp : List UInt8) : UInt16 :=
  foldSum (addWords 0 (htonl srcIp ++ htonl dstIp ++ htons 6 ++
    htons (UInt16.ofNat tcp.length) ++ tcp))

/-! ## Connections and frames -/

inductive TcpState where
  | closed
  | synSent
  | established
  | finWait1
  | finWait2
  | timeWait
  | closeWait
  deriving DecidableEq, Repr

structure Endpoints where
  localIp : UInt32
  localPort : UInt16
  remoteIp : UInt32
  remotePort : UInt16
  deriving DecidableEq, Repr

structure TcpConn extends Endpoints where
  state : TcpState
  seqNum : UInt32
  ackNum : UInt32
  localMac : List UInt8
  remoteMac : List UInt8
  deriving DecidableEq, Repr

def tcpFin : UInt8 := 0x01
def tcpRst : UInt8 := 0x04
def tcpAck : UInt8 := 0x10
def tcpFrameHdr : Nat := 54
def tcpTmpSize : Nat := 1460

structure TcpStack where
  conn : TcpConn
  /-- `g_ip_id`. -/
  ipId : UInt16
  sent : List (List UInt8) := []
  deriving DecidableEq, Repr

def ipHeader (c : TcpConn) (ipId ipTotal : UInt16) (cksum : List UInt8) : List UInt8 :=
  [0x45, 0] ++ htons ipTotal ++ htons ipId ++ htons 0x4000 ++ [64, 6] ++ cksum ++
    htonl c.localIp ++ htonl c.remoteIp

def tcpHeader (c : TcpConn) (flags : UInt8) (cksum : List UInt8) : List UInt8 :=
  htons c.localPort ++ htons c.remotePort ++ htonl c.seqNum ++ htonl c.ackNum ++
    [0x50, flags] ++ htons 65535 ++ cksum ++ [0, 0]

def tcpFrame (c : TcpConn) (ipId : UInt16) (flags : UInt8) (data : List UInt8) : List UInt8 :=
  let ipTotal := UInt16.ofNat (40 + data.length)
  let ip := ipHeader c ipId ipTotal
  let tcp := tcpHeader c flags
  let ipSum := leBytes 2 (ipChecksum (ip [0, 0])).toNat
  let tcpSum := leBytes 2 (tcpChecksum c.localIp c.remoteIp (tcp [0, 0] ++ data)).toNat
  let frame := c.remoteMac ++ c.localMac ++ htons 0x0800 ++ ip ipSum ++ tcp tcpSum ++ data
  frame ++ List.replicate (60 - frame.length) 0

def TcpStack.sendTcpFrame (s : TcpStack) (flags : UInt8) (data : List UInt8) : TcpStack :=
  { s with
    ipId := s.ipId + 1
    sent := s.sent ++ [tcpFrame s.conn s.ipId flags data] }

structure Segment where
  flags : UInt8
  seq : UInt32
  ack : UInt32
  payload : List UInt8
  deriving DecidableEq, Repr

def Segment.rst (seg : Segment) : Bool := seg.flags &&& tcpRst ≠ 0
def Segment.fin (seg : Segment) : Bool := seg.flags &&& tcpFin ≠ 0

def recvTcpFrame (e : Endpoints) (maxPayload : Nat) (frame : List UInt8) : Option Segment :=
  if frame.length < tcpFrameHdr then none
  else if ntohs frame 12 ≠ 0x0800 then none
  else if frame.getD 23 0 ≠ 6 then none
  else if ntohl frame 26 ≠ e.remoteIp then none
  else if ntohl frame 30 ≠ e.localIp then none
  else if ntohs frame 34 ≠ e.remotePort then none
  else if ntohs frame 36 ≠ e.localPort then none
  else
    let ipHdrLen := (frame.getD 14 0 &&& 0x0F).toNat * 4
    let tcpHdrLen := (frame.getD 46 0 >>> 4).toNat * 4
    let hdrTotal := 14 + ipHdrLen + tcpHdrLen
    -- truncated subtraction is the two "if greater" tests of the source
    let payloadLen := min (frame.length - hdrTotal)
      ((ntohs frame 16).toNat - (ipHdrLen + tcpHdrLen))
    some
      { flags := frame.getD 47 0
        seq := ntohl frame 38
        ack := ntohl frame 42
        payload := (frame.drop hdrTotal).take (min payloadLen maxPayload) }

/-! ## Receiving -/

inductive Poll where
  /-- `net_rx` returned a frame. -/
  | frame (bytes : List UInt8)
  /-- The timeout of `recv_tcp_frame` passed. -/
  | quiet
  /-- The deadline of `tcp_recv` passed. -/
  | deadline
  deriving DecidableEq, Repr

structure RecvLoop where
  stack : TcpStack
  buf : Pointer
  total : UInt32 := 0
  gotData : Bool := false
  /-- The return value once a `break` or `return` is reached. -/
  result : Option Int := none

def int32 (x : UInt32) : Int := x.toBitVec.toInt

def RecvLoop.copyIn (l : RecvLoop) (maxLen : UInt32) (payload : List UInt8) : RecvLoop :=
  let plen := UInt32.ofNat payload.length
  let copy := if maxLen < l.total + plen then maxLen - l.total else plen
  { l with
    buf := l.buf.write l.total.toNat (payload.take copy.toNat)
    total := l.total + copy }

def RecvLoop.sendAck (l : RecvLoop) (ack : UInt32) : RecvLoop :=
  { l with stack := { l.stack with conn.ackNum := ack }.sendTcpFrame tcpAck [] }

def RecvLoop.setState (l : RecvLoop) (st : TcpState) : RecvLoop :=
  { l with stack.conn.state := st }

def RecvLoop.segment (l : RecvLoop) (maxLen : UInt32) (seg : Segment) : RecvLoop :=
  let plen := UInt32.ofNat seg.payload.length
  if seg.rst then
    { l.setState .closed with result := some (if 0 < l.total then int32 l.total else -1) }
  else if seg.fin then
    let l := (l.sendAck (seg.seq + plen + 1)).setState .closeWait
    let l := if seg.payload ≠ [] then l.copyIn maxLen seg.payload else l
    { l with result := some (int32 l.total) }
  else if seg.payload ≠ [] then
    -- the source copies between setting `ack_num` and sending the ACK
    { (l.copyIn maxLen seg.payload).sendAck (seg.seq + plen) with gotData := true }
  else l

def RecvLoop.body (maxLen : UInt32) (l : RecvLoop) : Poll → RecvLoop
  | .deadline => { l with result := some (int32 l.total) }
  | .quiet => if l.gotData then { l with result := some (int32 l.total) } else l
  | .frame bytes =>
    match recvTcpFrame l.stack.conn.toEndpoints tcpTmpSize bytes with
    | none => l
    | some seg => l.segment maxLen seg

def RecvLoop.stop (maxLen : UInt32) (l : RecvLoop) : Bool :=
  l.result.isSome || decide (maxLen ≤ l.total)

structure Received where
  result : Int
  buf : Pointer
  stack : TcpStack
  /-- What the call has read. -/
  read : List Poll

def TcpStack.tcpRecv (s : TcpStack) (buf : Pointer) (maxLen : UInt32) (polls : List Poll) :
    Received :=
  if s.conn.state ≠ .established ∧ s.conn.state ≠ .closeWait then
    { result := -1, buf := buf, stack := s, read := [] }
  else
    let start : RecvLoop := { stack := s, buf := buf }
    let read := taken (RecvLoop.stop maxLen) (RecvLoop.body maxLen) start polls
    let l := run (RecvLoop.body maxLen) start read
    { result := l.result.getD (int32 l.total), buf := l.buf, stack := l.stack, read := read }

/-! ## A sequence of calls -/

structure Session where
  stack : TcpStack
  seen : List Poll := []
  polls : List Poll
  returned : List UInt8 := []

structure RecvCall where
  buf : Pointer
  maxLen : UInt32

def Session.recv (s : Session) (c : RecvCall) : Session :=
  let r := s.stack.tcpRecv c.buf c.maxLen s.polls
  { stack := r.stack
    seen := s.seen ++ r.read
    polls := s.polls.drop r.read.length
    returned := s.returned ++ r.buf.bytes 0 r.result.toNat }

end AlJefra.Net
