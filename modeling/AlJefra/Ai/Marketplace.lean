/-
`marketplace_get_driver` of `src/ai/marketplace.c`. The network, the allocator and the memory of
the buffer are inputs.
-/
import AlJefra.Hal.Memory
import AlJefra.Lib.Http

namespace AlJefra.Ai.Marketplace

open AlJefra.Lib AlJefra.Hal
open AlJefra.Lib.Http (isDigit toLower)

def ascii (s : String) : List UInt8 := s.toList.map fun c => UInt8.ofNat c.toNat
def marketplacePort : Nat := 80
def apiDriver : List UInt8 := ascii "/v1/drivers"
def maxDriverSize : UInt32 := 1024 * 1024
def tcpRxBufSize : UInt32 := 65536

/-! ## The request -/

inductive HalArch where
  | x8664
  | aarch64
  | riscv64
  deriving DecidableEq, Repr

def HalArch.name : HalArch → List UInt8
  | .x8664 => ascii "x86_64"
  | .aarch64 => ascii "aarch64"
  | .riscv64 => ascii "riscv64"

def u16ToHex (v : UInt16) : List UInt8 :=
  ([12, 8, 4, 0] : List UInt16).map fun k =>
    (ascii "0123456789abcdef").getD ((v >>> k) &&& 0xF).toNat 0

def intToStr (v : Nat) : List UInt8 := (Nat.toDigits 10 v).map fun c => UInt8.ofNat c.toNat

def octetToStr (octet : UInt8) : List UInt8 :=
  (if 100 ≤ octet then [0x30 + octet / 100] else []) ++
    (if 10 ≤ octet then [0x30 + octet / 10 % 10] else []) ++ [0x30 + octet % 10]

def ipToStr (ip : UInt32) : List UInt8 :=
  octetToStr (ip >>> 24).toUInt8 ++ ascii "." ++ octetToStr (ip >>> 16).toUInt8 ++ ascii "." ++
    octetToStr (ip >>> 8).toUInt8 ++ ascii "." ++ octetToStr ip.toUInt8

def buildHostStr (ip : UInt32) : List UInt8 := ipToStr ip ++ ascii ":" ++ intToStr marketplacePort
def append (max : Nat) (p s : List UInt8) : List UInt8 := p ++ s.take (max - 1 - p.length)

def buildHttpRequest (method path hostStr body : List UInt8) (max : Nat) : List UInt8 :=
  ([method, ascii " ", path, ascii " HTTP/1.1\r\n", ascii "Host: ", hostStr, ascii "\r\n",
      ascii "User-Agent: AlJefra-OS/1.0\r\n", ascii "Connection: close\r\n"] ++
    (if body ≠ [] then
      [ascii "Content-Type: application/json\r\n", ascii "Content-Length: ",
        intToStr body.length, ascii "\r\n"]
    else []) ++ [ascii "\r\n", body]).foldl (append max) []

def driverPath (vendorId deviceId : UInt16) (arch : HalArch) : List UInt8 :=
  apiDriver ++ ascii "/" ++ u16ToHex vendorId ++ ascii "/" ++ u16ToHex deviceId ++ ascii "/" ++
    arch.name

/-! ## The response -/

def parseHttpStatus (response : List UInt8) : Int :=
  if response.length < 12 then -1
  else if response.take 4 ≠ ascii "HTTP" then -1
  else
    let code := (response.dropWhile (· ≠ 0x20)).drop 1
    if code.length < 3 then -1
    else if (code.take 3).all isDigit then
      (code.take 3).foldl (fun status c => status * 10 + (c - 0x30).toNat) (0 : Int)
    else -1

def findHttpBody : List UInt8 → Nat → Option Nat
  | [], _ => none
  | c :: cs, i =>
    if (c :: cs).take 4 = [0x0D, 0x0A, 0x0D, 0x0A] then some (i + 4)
    else findHttpBody cs (i + 1)

def contentLengthKey : List UInt8 := ascii "content-length:"

def lengthValue (s : List UInt8) : Int32 :=
  ((s.dropWhile (· = 0x20)).takeWhile isDigit).foldl
    (fun val c => val * 10 + Int32.ofNat (c - 0x30).toNat) 0

def parseContentLength : List UInt8 → Int32
  | [] => -1
  | c :: cs =>
    if 15 < (c :: cs).length ∧ ((c :: cs).take 15).map toLower = contentLengthKey then
      lengthValue ((c :: cs).drop 15)
    else parseContentLength cs

/-! ## `marketplace_get_driver` -/

structure DriverNet where
  connects : Bool
  sends : Bool
  header : List UInt8
  chunks : List (List UInt8)

structure DriverResult where
  status : HalStatus
  data : Option Pointer := none
  size : UInt64 := 0
  sent : List UInt8 := []

def stalled (totalBody : UInt32) (buf : Pointer) (received : UInt32) : Option (Pointer × UInt32) :=
  if totalBody / 2 < received then some (buf, received) else none

def receiveLoop (totalBody : UInt32) : List (List UInt8) → Pointer → UInt32 →
    Option (Pointer × UInt32)
  | [], buf, received =>
    if received < totalBody then stalled totalBody buf received else some (buf, received)
  | c :: cs, buf, received =>
    if received < totalBody then
      let chunk := c.take (min (totalBody - received) tcpRxBufSize).toNat
      if chunk = [] then stalled totalBody buf received
      else receiveLoop totalBody cs (buf.write received.toNat chunk)
        (received + UInt32.ofNat chunk.length)
    else some (buf, received)

def totalBodySize (hdr : List UInt8) (hdrSize : Nat) : UInt32 :=
  if 0 < parseContentLength (hdr.take hdrSize) then
    (parseContentLength (hdr.take hdrSize)).toUInt32
  else UInt32.ofNat (hdr.length - hdrSize)

def receiveBody (dmaAlloc : UInt32 → Option Pointer) (hdr : List UInt8) (hdrSize : Nat)
    (chunks : List (List UInt8)) (request : List UInt8) : DriverResult :=
  let totalBody := totalBodySize hdr hdrSize
  if totalBody = 0 ∨ maxDriverSize < totalBody then { status := .error, sent := request }
  else
    match dmaAlloc totalBody with
    | none => { status := .error, sent := request }
    | some buf =>
      let received := min (UInt32.ofNat (hdr.length - hdrSize)) totalBody
      let buf := buf.write 0 ((hdr.drop hdrSize).take received.toNat)
      match receiveLoop totalBody chunks buf received with
      | none => { status := .timeout, sent := request }
      | some (buf, received) =>
        { status := .ok, data := some buf, size := received.toUInt64, sent := request }

def marketplaceGetDriver (arch : HalArch) (remoteIp : UInt32) (vendorId deviceId : UInt16)
    (net : DriverNet) (dmaAlloc : UInt32 → Option Pointer) : DriverResult :=
  if ¬ net.connects then { status := .error }
  else
    let request := buildHttpRequest (ascii "GET") (driverPath vendorId deviceId arch)
      (buildHostStr remoteIp) [] 2048
    if ¬ net.sends then { status := .error, sent := request }
    else
      let hdr := net.header.take 4095
      if hdr = [] then { status := .timeout, sent := request }
      else if parseHttpStatus hdr = 404 then { status := .noDevice, sent := request }
      else if parseHttpStatus hdr ≠ 200 then { status := .error, sent := request }
      else
        match findHttpBody hdr 0 with
        | none => { status := .error, sent := request }
        | some hdrSize => receiveBody dmaAlloc hdr hdrSize net.chunks request

end AlJefra.Ai.Marketplace
