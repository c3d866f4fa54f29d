/- The 802.11 station of `drivers/network/wifi_framework.c`. -/
import AlJefra.Network.AesCcmp
import AlJefra.Network.Sha1
import AlJefra.Lib.Run

namespace AlJefra.Network

open AlJefra.Lib AlJefra.Hal

/-! ## Bytes -/

abbrev Mac := Table UInt8 6

def be16At (b : List UInt8) (i : Nat) : UInt16 :=
  (byteAt b i).toUInt16 <<< 8 ||| (byteAt b (i + 1)).toUInt16

def le16At (b : List UInt8) (i : Nat) : UInt16 :=
  (byteAt b i).toUInt16 ||| (byteAt b (i + 1)).toUInt16 <<< 8

def be16 (v : UInt16) : List UInt8 := [(v >>> 8).toUInt8, v.toUInt8]
def le16 (v : UInt16) : List UInt8 := [v.toUInt8, (v >>> 8).toUInt8]
def le64 (x : UInt64) : List UInt8 := (be64 x).reverse
def tableAt (n : Nat) (b : List UInt8) (off : Nat) : Table UInt8 n := Table.ofList 0 (b.drop off)
def broadcastAddr : Mac := ⟨[0xFF, 0xFF, 0xFF, 0xFF, 0xFF, 0xFF], rfl⟩
def zeroTable (n : Nat) : Table UInt8 n := ⟨List.replicate n 0, List.length_replicate ..⟩

def incBytes : List UInt8 → List UInt8
  | [] => []
  | b :: bs => if b + 1 = 0 then 0 :: incBytes bs else (b + 1) :: bs

theorem length_incBytes : ∀ l, (incBytes l).length = l.length
  | [] => rfl
  | b :: bs => by
    unfold incBytes
    split
    · rw [List.length_cons, length_incBytes bs, List.length_cons]
    · rfl

def wfIncPn (pn : Table UInt8 ccmpPnLen) : Table UInt8 ccmpPnLen :=
  ⟨incBytes pn.slots, by rw [length_incBytes, pn.length_slots]⟩

def pnGreater (a b : Table UInt8 ccmpPnLen) : Bool := memLess b.slots.reverse a.slots.reverse

/-! ## The context -/

inductive WifiState where
  | idle
  | scanning
  | authenticating
  | associating
  | fourWay1
  | fourWay2
  | fourWay3
  | connected
  | disconnecting
  deriving DecidableEq, Repr

structure WifiBss where
  bssid : Mac
  ssid : List UInt8
  channel : UInt8
  beaconInterval : UInt16
  capability : UInt16
  wpa2 : Bool
  hasRsn : Bool
  deriving DecidableEq

def WifiBss.zero : WifiBss := ⟨zeroTable 6, [], 0, 0, 0, false, false⟩

structure KeyInputs where
  pmk : Table UInt8 pmkLen
  anonce : Table UInt8 nonceLen
  snonce : Table UInt8 nonceLen
  aa : Mac
  spa : Mac
  deriving DecidableEq

def KeyInputs.ptk (k : KeyInputs) : Table UInt8 ptkLen :=
  wifiDerivePtk k.pmk k.anonce k.snonce k.aa k.spa

structure Msg3Check where
  state : WifiState
  data : List UInt8
  pmk : Table UInt8 pmkLen
  ptk : Table UInt8 ptkLen
  deriving DecidableEq

inductive WifiEvent where
  /-- A connection attempt begins (`wifi_init`, `wifi_connect`) or is
  over (`wifi_disconnect`). -/
  | attempt
  /-- Message 1 was processed and the pairwise key derived anew. -/
  | msg1 (key : KeyInputs)
  /-- Message 3 was processed: its MIC was compared with the one under
  the first 16 bytes of the pairwise key. -/
  | msg3 (check : Msg3Check)
  deriving DecidableEq

structure WifiCtx where
  state : WifiState
  ourMac : Mac
  bss : WifiBss
  assocId : UInt16
  pmk : Table UInt8 pmkLen
  ptk : Table UInt8 ptkLen
  anonce : Table UInt8 nonceLen
  snonce : Table UInt8 nonceLen
  replayCounter : Table UInt8 8
  ptkInstalled : Bool
  gtkInstalled : Bool
  txPn : Table UInt8 ccmpPnLen
  rxPn : Table UInt8 ccmpPnLen
  txSeq : UInt16
  scanResults : List WifiBss
  sent : List (List UInt8)
  log : List WifiEvent

def kckOf (ptk : Table UInt8 ptkLen) : List UInt8 := ptk.slots.take kckLen
def WifiCtx.kck (ctx : WifiCtx) : List UInt8 := kckOf ctx.ptk

def WifiCtx.tk (ctx : WifiCtx) : Table UInt8 aesKeySize :=
  ⟨ctx.ptk.slots.drop 32, by rw [List.length_drop, ctx.ptk.length_slots]; rfl⟩

def WifiCtx.transmit (ctx : WifiCtx) (frame : List UInt8) : WifiCtx :=
  { ctx with sent := frame :: ctx.sent }

structure RxFrame where
  bytes : List UInt8
  ns0 : UInt64
  ns1 : UInt64
  ns2 : UInt64

/-! ## Beacons -/

def parseIe (id : UInt8) (data : List UInt8) (bss : WifiBss) : WifiBss :=
  if id = 0 then (if data.length ≤ 32 then { bss with ssid := data } else bss)
  else if id = 3 then (if 1 ≤ data.length then { bss with channel := byteAt data 0 } else bss)
  else if id = 48 then
    { bss with
      hasRsn := true
      wpa2 := if 8 ≤ data.length ∧ le16At data 0 = 1 then true else bss.wpa2 }
  else bss

def wfParseIes : Nat → List UInt8 → WifiBss → WifiBss
  | 0, _, bss => bss
  | fuel + 1, ies, bss =>
    if ies.length < 2 then bss
    else if ies.length < 2 + (byteAt ies 1).toNat then bss
    else
      wfParseIes fuel (ies.drop (2 + (byteAt ies 1).toNat))
        (parseIe (byteAt ies 0) ((ies.drop 2).take (byteAt ies 1).toNat) bss)

abbrev macHdrSize : Nat := 24
abbrev wifiMaxScanResults : Nat := 16

def wfParseBeacon (ctx : WifiCtx) (frame : List UInt8) : WifiCtx :=
  if frame.length < macHdrSize + 12 then ctx
  else if ctx.scanResults.any (fun b => b.bssid = tableAt 6 frame 10) then ctx
  else if wifiMaxScanResults ≤ ctx.scanResults.length then ctx
  else
    let bss := { WifiBss.zero with
      bssid := tableAt 6 frame 10
      beaconInterval := le16At frame 32
      capability := le16At frame 34 }
    { ctx with scanResults := ctx.scanResults ++
        [wfParseIes frame.length (frame.drop (macHdrSize + 12)) bss] }

/-! ## Frames the station sends -/

def wfFc (type subtype flags : UInt16) : UInt16 := type <<< 2 ||| subtype <<< 4 ||| flags <<< 8

def macHdr (fc : UInt16) (a1 a2 a3 : Mac) (seqCtrl : UInt16) : List UInt8 :=
  le16 fc ++ le16 0 ++ a1.slots ++ a2.slots ++ a3.slots ++ le16 seqCtrl

def WifiCtx.nextHdr (ctx : WifiCtx) (fc : UInt16) (a1 a2 a3 : Mac) : List UInt8 × WifiCtx :=
  (macHdr fc a1 a2 a3 (ctx.txSeq <<< 4), { ctx with txSeq := ctx.txSeq + 1 })

def supportedRatesIe : List UInt8 := [1, 8, 0x82, 0x84, 0x8B, 0x96, 0x0C, 0x12, 0x18, 0x24]

def rsnIe : List UInt8 :=
  [48, 20] ++ le16 1 ++ [0x00, 0x0F, 0xAC, 4] ++ le16 1 ++ [0x00, 0x0F, 0xAC, 4] ++ le16 1 ++
    [0x00, 0x0F, 0xAC, 2] ++ le16 0

def wifiBuildProbeReq (ctx : WifiCtx) : List UInt8 × WifiCtx :=
  let (hdr, ctx) := ctx.nextHdr (wfFc 0 4 0) broadcastAddr ctx.ourMac broadcastAddr
  (hdr ++ [0, 0] ++ supportedRatesIe, ctx)

def wifiBuildAuth (ctx : WifiCtx) : List UInt8 × WifiCtx :=
  let (hdr, ctx) := ctx.nextHdr (wfFc 0 0xB 0) ctx.bss.bssid ctx.ourMac ctx.bss.bssid
  (hdr ++ le16 0 ++ le16 1 ++ le16 0, ctx)

def wifiBuildAssocReq (ctx : WifiCtx) : List UInt8 × WifiCtx :=
  let (hdr, ctx) := ctx.nextHdr (wfFc 0 0 0) ctx.bss.bssid ctx.ourMac ctx.bss.bssid
  (hdr ++ le16 0x0431 ++ le16 10 ++ [0, UInt8.ofNat ctx.bss.ssid.length] ++ ctx.bss.ssid ++
    supportedRatesIe ++ rsnIe, ctx)

def wifiBuildDeauth (ctx : WifiCtx) (reason : UInt16) : List UInt8 × WifiCtx :=
  let (hdr, ctx) := ctx.nextHdr (wfFc 0 0xC 0) ctx.bss.bssid ctx.ourMac ctx.bss.bssid
  (hdr ++ le16 reason, ctx)

def llcSnap (etherType : UInt16) : List UInt8 :=
  [0xAA, 0xAA, 0x03, 0x00, 0x00, 0x00] ++ be16 etherType

abbrev llcSnapHdrLen : Nat := 8
def eapolEtherType : UInt16 := 0x888E

def wfWrapEapol (ctx : WifiCtx) (eapol : List UInt8) : List UInt8 × WifiCtx :=
  let (hdr, ctx) := ctx.nextHdr (wfFc 2 0 1) ctx.bss.bssid ctx.ourMac ctx.bss.bssid
  (hdr ++ llcSnap eapolEtherType ++ eapol, ctx)

def wfGenerateSnonce (mac : Mac) (rx : RxFrame) : Table UInt8 nonceLen :=
  let digest := sha1Final (sha1Update (sha1Update (sha1Update sha1Init (le64 rx.ns0)) mac.slots)
    (le64 rx.ns1))
  let rest := sha1Final (sha1Update (sha1Update sha1Init digest) (le64 rx.ns2))
  Table.ofList 0 (digest ++ rest)

/-! ## EAPOL frames -/

def eapolKeyInfoPairwise : UInt16 := 0x0008
def eapolKeyInfoInstall : UInt16 := 0x0040
def eapolKeyInfoAck : UInt16 := 0x0080
def eapolKeyInfoMic : UInt16 := 0x0100
def eapolKeyInfoSecure : UInt16 := 0x0200

abbrev eapolMinLen : Nat := 99
abbrev eapolNonceOff : Nat := 17
abbrev eapolMicOff : Nat := 81

def eapolKeyFrame (keyInfo : UInt16) (replay : Table UInt8 8) (nonce mic keyData : List UInt8) :
    List UInt8 :=
  [2, 3] ++ be16 (UInt16.ofNat (95 + keyData.length)) ++ [2] ++ be16 keyInfo ++ be16 16 ++
    replay.slots ++ nonce ++ List.replicate 32 0 ++ mic ++ be16 (UInt16.ofNat keyData.length) ++
    keyData

def signedKeyFrame (kck : List UInt8) (keyInfo : UInt16) (replay : Table UInt8 8)
    (nonce keyData : List UInt8) : List UInt8 :=
  let mic := (wifiHmacSha1 kck
    (eapolKeyFrame keyInfo replay nonce (List.replicate 16 0) keyData)).take 16
  eapolKeyFrame keyInfo replay nonce mic keyData

def WifiCtx.keyInputs (ctx : WifiCtx) : KeyInputs :=
  ⟨ctx.pmk, ctx.anonce, ctx.snonce, ctx.bss.bssid, ctx.ourMac⟩

def wifiBuildEapolMsg2 (ctx : WifiCtx) : List UInt8 × WifiCtx :=
  let ctx := { ctx with ptk := ctx.keyInputs.ptk }
  wfWrapEapol ctx (signedKeyFrame ctx.kck (eapolKeyInfoPairwise ||| eapolKeyInfoMic ||| 0x0002)
    ctx.replayCounter ctx.snonce.slots rsnIe)

def wifiBuildEapolMsg4 (ctx : WifiCtx) : List UInt8 × WifiCtx :=
  wfWrapEapol ctx (signedKeyFrame ctx.kck
    (eapolKeyInfoPairwise ||| eapolKeyInfoMic ||| eapolKeyInfoSecure ||| 0x0002)
    ctx.replayCounter (List.replicate 32 0) [])

def keyInfoHas (data : List UInt8) (bit : UInt16) : Bool := be16At data 5 &&& bit ≠ 0
def isEapolKey (data : List UInt8) : Bool := eapolMinLen ≤ data.length ∧ byteAt data 1 = 3

def isMsg1 (data : List UInt8) : Bool :=
  isEapolKey data && keyInfoHas data eapolKeyInfoPairwise && keyInfoHas data eapolKeyInfoAck &&
    !keyInfoHas data eapolKeyInfoMic

def isMsg3 (data : List UInt8) : Bool :=
  isEapolKey data && keyInfoHas data eapolKeyInfoPairwise && keyInfoHas data eapolKeyInfoAck &&
    keyInfoHas data eapolKeyInfoMic && keyInfoHas data eapolKeyInfoSecure &&
    keyInfoHas data eapolKeyInfoInstall

def isGroupMsg1 (data : List UInt8) : Bool :=
  isEapolKey data && !keyInfoHas data eapolKeyInfoPairwise && keyInfoHas data eapolKeyInfoAck &&
    keyInfoHas data eapolKeyInfoMic && keyInfoHas data eapolKeyInfoSecure

def zeroMic (data : List UInt8) : List UInt8 :=
  data.take eapolMicOff ++ List.replicate 16 0 ++ data.drop (eapolMicOff + 16)

def micMatches (kck data : List UInt8) : Bool :=
  (data.drop eapolMicOff).take 16 = (wifiHmacSha1 kck (zeroMic data)).take 16

def keyDataLen (own : Bool) (raw : List UInt8) (off : Nat) : UInt16 :=
  let data := raw.drop off
  if own then be16At (zeroMic data ++ raw.drop data.length) (off + 97) else be16At data 97

def processMsg1 (ctx : WifiCtx) (data : List UInt8) (rx : RxFrame) : WifiCtx :=
  let ctx := { ctx with
    anonce := tableAt nonceLen data eapolNonceOff
    replayCounter := tableAt 8 data 9
    snonce := wfGenerateSnonce ctx.ourMac rx
    state := .fourWay1 }
  let (frame, ctx) := wifiBuildEapolMsg2 ctx
  { ctx.transmit frame with state := .fourWay2, log := .msg1 ctx.keyInputs :: ctx.log }

def processMsg3 (ctx : WifiCtx) (own : Bool) (raw : List UInt8) (off : Nat) : HalStatus × WifiCtx :=
  let data := raw.drop off
  let ctx := { ctx with
    replayCounter := tableAt 8 data 9
    log := .msg3 ⟨ctx.state, data, ctx.pmk, ctx.ptk⟩ :: ctx.log }
  if micMatches ctx.kck data then
    let len := (keyDataLen own raw off).toNat
    let ctx := { ctx with
      gtkInstalled := if 0 < len ∧ eapolMinLen + len ≤ data.length then true else ctx.gtkInstalled
      ptkInstalled := true }
    let (frame, ctx) := wifiBuildEapolMsg4 ctx
    (.ok, { ctx.transmit frame with state := .connected })
  else (.error, ctx)

def wfProcessEapol (ctx : WifiCtx) (own : Bool) (rx : RxFrame) (off : Nat) : HalStatus × WifiCtx :=
  let data := rx.bytes.drop off
  if isMsg1 data then (.ok, processMsg1 ctx data rx)
  else if isMsg3 data then processMsg3 ctx own rx.bytes off
  else if isGroupMsg1 data then (.ok, ctx)
  else (.error, ctx)

/-! ## Received frames -/

def frameType (raw : List UInt8) : UInt16 := (le16At raw 0 >>> 2) &&& 0x03
def frameSubtype (raw : List UInt8) : UInt16 := (le16At raw 0 >>> 4) &&& 0x0F

def dataHdrLen (raw : List UInt8) : Nat :=
  macHdrSize + if frameSubtype raw &&& 0x08 ≠ 0 then 2 else 0

def hasEapol (raw : List UInt8) : Bool :=
  dataHdrLen raw + llcSnapHdrLen ≤ raw.length ∧ be16At raw (dataHdrLen raw + 6) = eapolEtherType

def eapolOff (raw : List UInt8) : Nat := dataHdrLen raw + llcSnapHdrLen

def isDeauth (raw : List UInt8) : Bool :=
  frameType raw = 0 ∧ (frameSubtype raw = 0xC ∨ frameSubtype raw = 0xA)

def processMgmt (ctx : WifiCtx) (raw : List UInt8) : WifiCtx :=
  let subtype := frameSubtype raw
  if subtype = 0x8 ∨ subtype = 0x5 then
    if ctx.state = .scanning then wfParseBeacon ctx raw else ctx
  else if subtype = 0xB then
    if ctx.state ≠ .authenticating then ctx
    else if raw.length < macHdrSize + 6 then ctx
    else if le16At raw 26 = 2 ∧ le16At raw 28 = 0 then { ctx with state := .associating }
    else { ctx with state := .idle }
  else if subtype = 0x1 then
    if ctx.state ≠ .associating then ctx
    else if raw.length < macHdrSize + 6 then ctx
    else if le16At raw 26 = 0 then { ctx with assocId := le16At raw 28 &&& 0x3FFF }
    else { ctx with state := .idle }
  else if subtype = 0xC ∨ subtype = 0xA then
    { ctx with state := .idle, ptkInstalled := false, gtkInstalled := false }
  else ctx

def wifiProcessFrame (ctx : WifiCtx) (own : Bool) (rx : RxFrame) : HalStatus × WifiCtx :=
  if rx.bytes.length < macHdrSize then (.error, ctx)
  else if frameType rx.bytes = 0 then (.ok, processMgmt ctx rx.bytes)
  else if frameType rx.bytes = 2 ∧ hasEapol rx.bytes then
    wfProcessEapol ctx own rx (eapolOff rx.bytes)
  else (.ok, ctx)

/-! ## Connecting -/

def wifiInit (mac : Mac) : WifiCtx where
  state := .idle
  ourMac := mac
  bss := .zero
  assocId := 0
  pmk := zeroTable pmkLen
  ptk := zeroTable ptkLen
  anonce := zeroTable nonceLen
  snonce := zeroTable nonceLen
  replayCounter := zeroTable 8
  ptkInstalled := false
  gtkInstalled := false
  txPn := zeroTable ccmpPnLen
  rxPn := zeroTable ccmpPnLen
  txSeq := 0
  scanResults := []
  sent := []
  log := [.attempt]

def rxLoop (go : WifiState → Bool) : List RxFrame → WifiCtx → WifiCtx
  | [], ctx => ctx
  | rx :: rest, ctx =>
    if go ctx.state then rxLoop go rest (wifiProcessFrame ctx true rx).2 else ctx

def scanChannel (ctx : WifiCtx) (heard : List RxFrame) : WifiCtx :=
  let (frame, ctx) := wifiBuildProbeReq ctx
  rxLoop (fun _ => true) heard (ctx.transmit frame)

def wifiScan (ctx : WifiCtx) (heard : List (List RxFrame)) : WifiCtx :=
  let ctx := heard.foldl scanChannel { ctx with scanResults := [], state := .scanning }
  { ctx with state := .idle }

def findBss (ctx : WifiCtx) (ssid : List UInt8) : Option WifiBss :=
  ctx.scanResults.find? fun b => b.ssid = ssid

structure ConnectRx where
  scan : List (List RxFrame)
  auth : List RxFrame
  assoc : List RxFrame

def associate (ctx : WifiCtx) (rx : List RxFrame) : HalStatus × WifiCtx :=
  let (frame, ctx) := wifiBuildAssocReq ctx
  let ctx := rxLoop (fun st => st ≠ .connected) rx (ctx.transmit frame)
  (if ctx.state = .connected then .ok else .timeout, ctx)

def authenticate (ctx : WifiCtx) (target : WifiBss) (rx : ConnectRx) : HalStatus × WifiCtx :=
  let (frame, ctx) := wifiBuildAuth { ctx with bss := target, state := .authenticating }
  let ctx := rxLoop (fun st => st = .authenticating) rx.auth (ctx.transmit frame)
  if ctx.state = .associating then associate ctx rx.assoc else (.timeout, ctx)

def WifiCtx.newAttempt (ctx : WifiCtx) (pmk : Table UInt8 pmkLen) : WifiCtx :=
  { ctx with pmk := pmk, log := .attempt :: ctx.log }

def findAndConnect (ctx : WifiCtx) (ssid : List UInt8) (rx : ConnectRx) : HalStatus × WifiCtx :=
  match findBss ctx ssid with
  | some target => authenticate ctx target rx
  | none =>
    let ctx := wifiScan ctx ((List.range 11).map fun i => rx.scan.getD i [])
    match findBss ctx ssid with
    | some target => authenticate ctx target rx
    | none => (.noDevice, ctx)

def wifiConnect (ctx : WifiCtx) (ssid passphrase : List UInt8) (rx : ConnectRx) :
    HalStatus × WifiCtx :=
  findAndConnect (ctx.newAttempt (wifiDerivePmk passphrase ssid)) ssid rx

def wifiDisconnect (ctx : WifiCtx) : WifiCtx :=
  if ctx.state = .idle then ctx
  else
    let (frame, ctx) := wifiBuildDeauth { ctx with state := .disconnecting } 1
    { ctx.transmit frame with
      state := .idle
      ptkInstalled := false
      gtkInstalled := false
      ptk := zeroTable ptkLen
      txPn := zeroTable ccmpPnLen
      rxPn := zeroTable ccmpPnLen
      log := .attempt :: ctx.log }

/-! ## Data -/

def wifi80211ToEther (raw : List UInt8) : Option (List UInt8) :=
  let fc1 := byteAt raw 1
  let hdrLen := macHdrSize +
    (if (byteAt raw 0 >>> 2) &&& 0x03 = 2 ∧ (byteAt raw 0 >>> 4) &&& 0x08 ≠ 0 then 2 else 0) +
    (if fc1 &&& 0x40 ≠ 0 then ccmpHdrLen else 0)
  let addr := fun off => (raw.drop off).take 6
  let payload := raw.drop (hdrLen + llcSnapHdrLen)
  let etherType := le16At raw (hdrLen + 6)
  if raw.length < macHdrSize + llcSnapHdrLen then none
  else if fc1 &&& 0x03 = 0x03 then none
  else if raw.length < hdrLen + llcSnapHdrLen then none
  else if (raw.drop hdrLen).take 3 ≠ [0xAA, 0xAA, 0x03] then none
  else
    some ((if fc1 &&& 0x03 = 0x01 then addr 16 ++ addr 10
      else if fc1 &&& 0x03 = 0x02 then addr 4 ++ addr 16
      else addr 4 ++ addr 10) ++ be16 etherType ++ payload)

def wifiEtherTo80211 (ctx : WifiCtx) (ether : List UInt8) : Option (List UInt8) × WifiCtx :=
  if ether.length < 14 then (none, ctx)
  else
    let (hdr, ctx) := ctx.nextHdr (wfFc 2 0 1) ctx.bss.bssid (tableAt 6 ether 6) (tableAt 6 ether 0)
    (some (hdr ++ llcSnap (be16At ether 12) ++ ether.drop 14), ctx)

def wifiSend (ctx : WifiCtx) (frame : List UInt8) (txStatus : HalStatus) : HalStatus × WifiCtx :=
  if ctx.state ≠ .connected then (.error, ctx)
  else
    match wifiEtherTo80211 ctx frame with
    | (none, ctx) => (.error, ctx)
    | (some raw, ctx) =>
      if ctx.ptkInstalled then
        let ctx := { ctx with txPn := wfIncPn ctx.txPn }
        let enc := ccmpEncryptFrame ctx.tk raw ctx.txPn
        if enc.status ≠ .ok then (enc.status, ctx) else (txStatus, ctx.transmit enc.out)
      else (txStatus, ctx.transmit raw)

def deliver (raw : List UInt8) : HalStatus × Option (List UInt8) :=
  match wifi80211ToEther raw with
  | none => (.error, none)
  | some ether => (.ok, some ether)

def wifiRecv (ctx : WifiCtx) (rx : Option RxFrame) : HalStatus × Option (List UInt8) × WifiCtx :=
  match rx with
  | none => (.noDevice, none, ctx)
  | some rx =>
    let raw := rx.bytes
    let isProtected := byteAt raw 1 &&& 0x40 ≠ 0
    if raw = [] then (.noDevice, none, ctx)
    else if frameType raw = 0 then (.noDevice, none, (wifiProcessFrame ctx true rx).2)
    else if frameType raw ≠ 2 then (.noDevice, none, ctx)
    else if isProtected ∧ ctx.ptkInstalled then
      let dec := ccmpDecryptFrame ctx.tk raw
      let pn := (ccmpParseHdr (raw.drop (dataHdrLen raw))).1
      if dec.status ≠ .ok then (.error, none, ctx)
      else if !pnGreater pn ctx.rxPn then (.error, none, ctx)
      else ((deliver dec.out).1, (deliver dec.out).2, { ctx with rxPn := pn })
    else if ¬ isProtected ∧ hasEapol raw then (.noDevice, none, (wifiProcessFrame ctx true rx).2)
    else ((deliver raw).1, (deliver raw).2, ctx)

/-! ## Runs -/

inductive WifiCall where
  | scan (heard : List (List RxFrame))
  | connect (ssid passphrase : List UInt8) (rx : ConnectRx)
  | disconnect
  | processFrame (own : Bool) (rx : RxFrame)
  | send (frame : List UInt8) (txStatus : HalStatus)
  | recv (rx : Option RxFrame)

def wifiStep (ctx : WifiCtx) : WifiCall → WifiCtx
  | .scan heard => wifiScan ctx heard
  | .connect ssid passphrase rx => (wifiConnect ctx ssid passphrase rx).2
  | .disconnect => wifiDisconnect ctx
  | .processFrame own rx => (wifiProcessFrame ctx own rx).2
  | .send frame txStatus => (wifiSend ctx frame txStatus).2
  | .recv rx => (wifiRecv ctx rx).2.2

end AlJefra.Network
