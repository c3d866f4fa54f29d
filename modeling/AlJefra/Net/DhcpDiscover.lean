/-
`dhcp_discover` of `src/net/dhcp.c`. Receptions, MAC address, timer and the memory of the packet
are inputs, and so is the memory behind the packet: the walk of the options can leave it.
-/
import AlJefra.Net.Dhcp

namespace AlJefra.Net.Dhcp

open AlJefra.Lib AlJefra.Hal

def optHostname : UInt8 := 12
def optRequestedIp : UInt8 := 50
def optParamRequest : UInt8 := 55
def dhcpDiscoverType : UInt8 := 1
def dhcpOfferType : UInt8 := 2
def dhcpRequestType : UInt8 := 3
def dhcpAckType : UInt8 := 5

/-! ## Sending -/

def requestOptions (msgType : UInt8) (requestedIp serverIp : UInt32) : List UInt8 :=
  [optMsgType, 1, msgType] ++
    (if msgType = dhcpRequestType then
      [optRequestedIp, 4] ++ htonl requestedIp ++ [optServerId, 4] ++ htonl serverIp
    else []) ++
    [optParamRequest, 3, optSubnetMask, optRouter, optDns] ++
    [optHostname, 7, 0x61, 0x6C, 0x6A, 0x65, 0x66, 0x72, 0x61, optEnd]

def requestHeader (mac : List UInt8) (xid : UInt32) : List UInt8 :=
  [1, 1, 6, 0] ++ htonl xid ++ [0, 0] ++ htons 0x8000 ++ List.replicate 16 0 ++ mac ++
    List.replicate 10 0 ++ List.replicate 64 0 ++ List.replicate 128 0 ++ htonl dhcpMagicCookie

def buildDhcpPacket (pkt : Pointer) (mac : List UInt8) (msgType : UInt8)
    (xid requestedIp serverIp : UInt32) : Pointer × Nat :=
  let bytes := requestHeader mac xid ++ requestOptions msgType requestedIp serverIp
  ((pkt.write 0 (List.replicate dhcpPacketSize 0)).write 0 bytes, bytes.length)

def broadcastIp (ipTotal : UInt16) (cksum : List UInt8) : List UInt8 :=
  [0x45, 0] ++ htons ipTotal ++ htons 1 ++ [0, 0] ++ [64, 17] ++ cksum ++ htonl 0 ++
    htonl 0xFFFFFFFF

def dhcpFrame (mac payload : List UInt8) : List UInt8 :=
  let udpTotal := UInt16.ofNat (8 + payload.length)
  let ip := broadcastIp (20 + udpTotal)
  let frame := List.replicate 6 0xFF ++ mac ++ htons 0x0800 ++
    ip (leBytes 2 (ipChecksum (ip [0, 0])).toNat) ++
    htons 68 ++ htons 67 ++ htons udpTotal ++ [0, 0] ++ payload
  frame ++ List.replicate (60 - frame.length) 0

/-! ## The exchange -/

/-- The packet with the memory behind it. -/
def packetThen (pkt behind : Pointer) : Pointer :=
  fun k => if k < dhcpPacketSize then pkt k else behind k

structure DiscoverInput where
  device : Bool
  mac : List UInt8
  xid : UInt32
  pkt : Pointer
  behindOffer : Pointer
  behindAck : Pointer
  offerRx : List Rx
  ackRx : List Rx

structure DiscoverResult where
  status : HalStatus
  outputs : Option (UInt32 × UInt32 × UInt32) := none
  sent : List (List UInt8) := []
  deriving DecidableEq, Repr

def dhcpDiscover (c : DiscoverInput) : DiscoverResult :=
  if ¬ c.device then { status := .noDevice }
  else
    let (pkt, len) := buildDhcpPacket c.pkt c.mac dhcpDiscoverType c.xid 0 0
    let discover := dhcpFrame c.mac (pkt.bytes 0 len)
    let (rc, s) := recvDhcp c.xid pkt c.offerRx
    if rc < 0 then { status := .timeout, sent := [discover] }
    else
      let offer := parseDhcpOptions (packetThen s.pkt c.behindOffer) ⟨0, 0, 0, 0, 0, 0⟩
      if offer.msgType ≠ dhcpOfferType then { status := .error, sent := [discover] }
      else
        let (pkt, len) := buildDhcpPacket s.pkt c.mac dhcpRequestType c.xid
          offer.lease.clientIp offer.lease.serverIp
        let request := dhcpFrame c.mac (pkt.bytes 0 len)
        let (rc, s) := recvDhcp c.xid pkt c.ackRx
        if rc < 0 then { status := .timeout, sent := [discover, request] }
        else
          let ack := parseDhcpOptions (packetThen s.pkt c.behindAck) offer.lease
          if ack.msgType ≠ dhcpAckType then { status := .error, sent := [discover, request] }
          else
            { status := .ok
              outputs := some (ack.lease.clientIp, ack.lease.gateway, ack.lease.dnsServer)
              sent := [discover, request] }

end AlJefra.Net.Dhcp
