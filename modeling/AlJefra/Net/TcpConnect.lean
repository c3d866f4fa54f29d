/- `tcp_connect` and `arp_resolve` of `src/net/tcp.c`. -/
import AlJefra.Net.Tcp

namespace AlJefra.Net

open AlJefra.Lib AlJefra.Hal

def tcpSyn : UInt8 := 0x02
def Segment.synAck (seg : Segment) : Bool := seg.flags &&& (tcpSyn ||| tcpAck) = tcpSyn ||| tcpAck

structure TcpGlobals where
  localIp : UInt32
  gateway : UInt32
  netmask : UInt32
  localMac : List UInt8
  ipId : UInt16
  deriving DecidableEq, Repr

/-! ## ARP -/

def arpRequest (g : TcpGlobals) (targetIp : UInt32) : List UInt8 :=
  List.replicate 6 0xFF ++ g.localMac ++ htons 0x0806 ++ htons 1 ++ htons 0x0800 ++ [6, 4] ++
    htons 1 ++ g.localMac ++ htonl g.localIp ++ List.replicate 6 0 ++ htonl targetIp

def arpReply (targetIp : UInt32) (frame : List UInt8) : Option (List UInt8) :=
  if frame.length < 42 then none
  else if ntohs frame 12 ≠ 0x0806 then none
  else if ntohs frame 20 ≠ 2 then none
  else if ntohl frame 28 ≠ targetIp then none
  else some ((frame.drop 22).take 6)

def await {α : Type} (accept : List UInt8 → Option α) : List Poll → Option α × List Poll
  | [] => (none, [])
  | .frame bytes :: polls =>
    match accept bytes with
    | none => await accept polls
    | some a => (some a, polls)
  | .quiet :: polls => (none, polls)
  | .deadline :: polls => (none, polls)

def arpAttempts (g : TcpGlobals) (targetIp : UInt32) : Nat → List (List UInt8) → List Poll →
    Option (List UInt8) × List (List UInt8) × List Poll
  | 0, sent, polls => (none, sent, polls)
  | n + 1, sent, polls =>
    let sent := sent ++ [arpRequest g targetIp]
    match await (arpReply targetIp) polls with
    | (some mac, polls) => (some mac, sent, polls)
    | (none, polls) => arpAttempts g targetIp n sent polls

/-! ## Connecting -/

structure ConnectCall where
  remoteIp : UInt32
  remotePort : UInt16
  portNs : UInt64
  seqNs : UInt64
  device : Bool
  polls : List Poll
  deriving DecidableEq, Repr

def ConnectCall.isn (c : ConnectCall) : UInt32 := c.seqNs.toUInt32

def newConn (g : TcpGlobals) (c : ConnectCall) : TcpConn where
  localIp := g.localIp
  localPort := 49152 + (c.portNs &&& 0x3FFF).toUInt16
  remoteIp := c.remoteIp
  remotePort := c.remotePort
  state := .closed
  seqNum := c.isn
  ackNum := 0
  localMac := g.localMac
  remoteMac := List.replicate 6 0

def nextHop (g : TcpGlobals) (remoteIp : UInt32) : UInt32 :=
  if remoteIp &&& g.netmask = g.localIp &&& g.netmask then remoteIp else g.gateway

def TcpStack.sendSyn (s : TcpStack) : TcpStack :=
  let s := s.sendTcpFrame tcpSyn []
  { s with conn.seqNum := s.conn.seqNum + 1 }

def handshake : Nat → TcpStack → List Poll → HalStatus × TcpStack
  | 0, s, _ => (.timeout, { s with conn.state := .closed })
  | n + 1, s, polls =>
    match await (recvTcpFrame s.conn.toEndpoints 0) polls with
    | (none, polls) =>
      -- back up and send the same SYN again
      handshake n { s with conn.seqNum := s.conn.seqNum - 1 }.sendSyn polls
    | (some seg, polls) =>
      if seg.rst then (.error, { s with conn.state := .closed })
      else if seg.synAck then
        let s := { s with conn.ackNum := seg.seq + 1 }.sendTcpFrame tcpAck []
        (.ok, { s with conn.state := .established })
      else handshake n s polls

def tcpConnect (g : TcpGlobals) (c : ConnectCall) : HalStatus × TcpStack :=
  let conn := newConn g c
  if ¬ c.device then (.noDevice, ⟨conn, g.ipId, []⟩)
  else
    match arpAttempts g (nextHop g c.remoteIp) 3 [] c.polls with
    | (none, sent, _) => (.timeout, ⟨conn, g.ipId, sent⟩)
    | (some mac, sent, polls) =>
      let conn := { conn with remoteMac := mac, state := .synSent }
      handshake 3 (TcpStack.sendSyn ⟨conn, g.ipId, sent⟩) polls

end AlJefra.Net
