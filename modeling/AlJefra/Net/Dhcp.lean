/- Receiving a DHCP reply (`src/net/dhcp.c`). -/
import AlJefra.Net.Tcp

namespace AlJefra.Net.Dhcp

open AlJefra.Lib AlJefra.Hal

/-! ## Constants -/

def netHeaderSize : Nat := 42
def dhcpPacketSize : Nat := 552
def optionsOffset : Nat := 240
def optionsSize : Nat := 312
def dhcpMagicCookie : UInt32 := 0x63825363
def optSubnetMask : UInt8 := 1
def optRouter : UInt8 := 3
def optDns : UInt8 := 6
def optLeaseTime : UInt8 := 51
def optMsgType : UInt8 := 53
def optServerId : UInt8 := 54
def optEnd : UInt8 := 255

/-! ## Receiving -/

structure Rx where
  len : Int
  frame : Pointer

def ntohsAt (p : Pointer) (off : Nat) : UInt16 := ntohs (p.bytes off 2) 0
def ntohlAt (p : Pointer) (off : Nat) : UInt32 := ntohl (p.bytes off 4) 0
def Rx.payloadLen (rx : Rx) : UInt32 := UInt32.ofNat rx.len.toNat - UInt32.ofNat netHeaderSize

def Rx.passes (rx : Rx) : Bool :=
  if rx.len ≤ 0 then false
  else if rx.len < netHeaderSize then false
  else if ntohsAt rx.frame 12 ≠ 0x0800 then false
  else if rx.frame 23 ≠ 17 then false
  else if ntohsAt rx.frame 36 ≠ 68 then false
  else if rx.payloadLen < 240 then false
  else true

structure RecvState where
  pkt : Pointer
  copies : List Nat := []
  found : Bool := false

/-- The copy is not bounded by the packet: of a frame longer than 594 bytes the rest is written
behind it, whatever its transaction id. -/
def recvStep (xid : UInt32) (s : RecvState) (rx : Rx) : RecvState :=
  if rx.passes then
    let pkt := s.pkt.write 0 (rx.frame.bytes netHeaderSize rx.payloadLen.toNat)
    let s := { s with pkt := pkt, copies := s.copies ++ [rx.payloadLen.toNat] }
    if ntohlAt s.pkt 4 ≠ xid then s
    else if ntohlAt s.pkt 236 ≠ dhcpMagicCookie then s
    else { s with found := true }
  else s

def recvTaken (xid : UInt32) (pkt : Pointer) (rxs : List Rx) : List Rx :=
  taken RecvState.found (recvStep xid) { pkt := pkt } rxs

def recvDhcp (xid : UInt32) (pkt : Pointer) (rxs : List Rx) : Int × RecvState :=
  let s := run (recvStep xid) { pkt := pkt } (recvTaken xid pkt rxs)
  (if s.found then 0 else -1, s)

/-! ## Options -/

structure DhcpLease where
  clientIp : UInt32
  serverIp : UInt32
  gateway : UInt32
  subnetMask : UInt32
  dnsServer : UInt32
  leaseTime : UInt32
  deriving DecidableEq, Repr

structure ParseState where
  i : Nat := 0
  msgType : UInt8 := 0
  lease : DhcpLease
  reads : List Nat := []

def DhcpLease.setOption (lease : DhcpLease) (code : UInt8) (v : UInt32) : DhcpLease :=
  if code = optSubnetMask then { lease with subnetMask := v }
  else if code = optRouter then { lease with gateway := v }
  else if code = optDns then { lease with dnsServer := v }
  else if code = optLeaseTime then { lease with leaseTime := v }
  else if code = optServerId then { lease with serverIp := v }
  else lease

def valueRead (code len : UInt8) : Nat :=
  if code = optMsgType then 1
  else if code = optSubnetMask ∨ code = optRouter ∨ code = optDns ∨ code = optLeaseTime ∨
      code = optServerId then
    if 4 ≤ len then 4 else 0
  else 0

def parseStep (opt : Pointer) (s : ParseState) : ParseState :=
  let code := opt s.i
  if code = 0 then { s with i := s.i + 1, reads := s.reads ++ [s.i] }
  else
    let len := opt (s.i + 1)
    let n := valueRead code len
    { i := s.i + 2 + len.toNat
      msgType := if code = optMsgType then opt (s.i + 2) else s.msgType
      lease := if n = 4 then s.lease.setOption code (ntohlAt opt (s.i + 2)) else s.lease
      reads := s.reads ++ List.range' s.i (2 + n) }

def parseLoop (opt : Pointer) : Nat → ParseState → ParseState
  | fuel, s =>
    if ¬ s.i < optionsSize then s
    else if opt s.i = optEnd then { s with reads := s.reads ++ [s.i] }
    else match fuel with
    | 0 => s
    | fuel + 1 => parseLoop opt fuel (parseStep opt s)

def parseDhcpOptions (pkt : Pointer) (lease : DhcpLease) : ParseState :=
  parseLoop (fun i => pkt (optionsOffset + i)) optionsSize
    { lease := { lease with clientIp := ntohlAt pkt 16 } }

end AlJefra.Net.Dhcp
