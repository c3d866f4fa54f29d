/-
The pairwise key and the handshake. A message 3 is taken in any state, under whatever key there is,
and a message 1 replaces a key in use; the theorems say exactly when neither does harm.
-/
import AlJefra.Network.Wifi

namespace AlJefra.Network

open AlJefra.Lib AlJefra.Hal Relation List

/-! ## What can happen to the keys -/

structure KeyView where
  state : WifiState
  pmk : Table UInt8 pmkLen
  ptk : Table UInt8 ptkLen
  ptkInstalled : Bool
  log : List WifiEvent

def WifiCtx.keyView (ctx : WifiCtx) : KeyView :=
  ⟨ctx.state, ctx.pmk, ctx.ptk, ctx.ptkInstalled, ctx.log⟩

def WifiState.expectsMsg3 : WifiState → Bool
  | .fourWay2 | .connected => true
  | _ => false

def Msg3Check.accepted (check : Msg3Check) : Bool :=
  isMsg3 check.data && micMatches (kckOf check.ptk) check.data

def KeyView.msg3Check (v : KeyView) (data : List UInt8) : Msg3Check :=
  ⟨v.state, data, v.pmk, v.ptk⟩

inductive KeyStep : KeyView → KeyView → Prop where
  | setState (v : KeyView) {st : WifiState} (h : st.expectsMsg3 = false) :
      KeyStep v { v with state := st }
  | deauth (v : KeyView) : KeyStep v { v with state := .idle, ptkInstalled := false }
  | msg1 (v : KeyView) {key : KeyInputs} (h : key.pmk = v.pmk) :
      KeyStep v { v with state := .fourWay2, ptk := key.ptk, log := .msg1 key :: v.log }
  | rejected (v : KeyView) (data : List UInt8) :
      KeyStep v { v with log := .msg3 (v.msg3Check data) :: v.log }
  | accepted (v : KeyView) {data : List UInt8} (h : (v.msg3Check data).accepted = true) :
      KeyStep v { v with
        state := .connected
        ptkInstalled := true
        log := .msg3 (v.msg3Check data) :: v.log }
  | attempt (v : KeyView) (pmk : Table UInt8 pmkLen) {st : WifiState}
      (h : st.expectsMsg3 = false) :
      KeyStep v { v with state := st, pmk := pmk, log := .attempt :: v.log }
  | ended (v : KeyView) :
      KeyStep v { v with
        state := .idle
        ptkInstalled := false
        ptk := zeroTable ptkLen
        log := .attempt :: v.log }

abbrev KeySteps : KeyView → KeyView → Prop := ReflTransGen KeyStep

variable {v w : KeyView} {off : Nat} {ctx : WifiCtx} {data raw : List UInt8} {rx : RxFrame}

theorem KeySteps.of_eq (h : w = v) : KeySteps v w := h ▸ .refl

theorem wfParseBeacon_keyView (ctx : WifiCtx) (raw : List UInt8) :
    (wfParseBeacon ctx raw).keyView = ctx.keyView := by
  unfold wfParseBeacon
  split
  · rfl
  split
  · rfl
  split <;> rfl

theorem processMgmt_keySteps (ctx : WifiCtx) (raw : List UInt8) :
    KeySteps ctx.keyView (processMgmt ctx raw).keyView := by
  have hstate : ∀ st : WifiState, st.expectsMsg3 = false →
      KeySteps ctx.keyView { ctx.keyView with state := st } :=
    fun st hst => .single (.setState _ hst)
  unfold processMgmt
  dsimp only
  split
  · split
    · exact .of_eq (wfParseBeacon_keyView ctx raw)
    · exact .refl
  split
  · split
    · exact .refl
    split
    · exact .refl
    split
    · exact hstate .associating rfl
    · exact hstate .idle rfl
  split
  · split
    · exact .refl
    split
    · exact .refl
    split
    · exact .refl
    · exact hstate .idle rfl
  split
  · exact .single (.deauth _)
  · exact .refl

theorem processMsg3_keySteps (ctx : WifiCtx) (own : Bool) (raw : List UInt8)
    (h3 : isMsg3 (raw.drop off) = true) :
    KeySteps ctx.keyView (processMsg3 ctx own raw off).2.keyView := by
  unfold processMsg3
  dsimp only
  split
  · next hmic => exact .single (.accepted ctx.keyView (Bool.and_eq_true_iff.mpr ⟨h3, hmic⟩))
  · exact .single (.rejected ctx.keyView _)

theorem wfProcessEapol_keySteps (ctx : WifiCtx) (own : Bool) (rx : RxFrame) (off : Nat) :
    KeySteps ctx.keyView (wfProcessEapol ctx own rx off).2.keyView := by
  unfold wfProcessEapol
  dsimp only
  split
  · exact .single (.msg1 ctx.keyView rfl)
  split
  · next h3 => exact processMsg3_keySteps ctx own rx.bytes h3
  split <;> exact .refl

theorem wifiProcessFrame_keySteps (ctx : WifiCtx) (own : Bool) (rx : RxFrame) :
    KeySteps ctx.keyView (wifiProcessFrame ctx own rx).2.keyView := by
  unfold wifiProcessFrame
  split
  · exact .refl
  split
  · exact processMgmt_keySteps ctx rx.bytes
  split
  · exact wfProcessEapol_keySteps ctx own rx _
  · exact .refl

theorem rxLoop_keySteps (go : WifiState → Bool) : ∀ (frames : List RxFrame) (ctx : WifiCtx),
    KeySteps ctx.keyView (rxLoop go frames ctx).keyView
  | [], _ => .refl
  | rx :: rest, ctx => by
    unfold rxLoop
    split
    · exact (wifiProcessFrame_keySteps ctx true rx).trans (rxLoop_keySteps go rest _)
    · exact .refl

theorem scanChannels_keySteps : ∀ (heard : List (List RxFrame)) (ctx : WifiCtx),
    KeySteps ctx.keyView (heard.foldl scanChannel ctx).keyView
  | [], _ => .refl
  | frames :: rest, ctx =>
    (rxLoop_keySteps (fun _ => true) frames
      ((wifiBuildProbeReq ctx).2.transmit (wifiBuildProbeReq ctx).1)).trans
      (scanChannels_keySteps rest (scanChannel ctx frames))

theorem wifiScan_keySteps (heard : List (List RxFrame))
    (h : KeySteps v { ctx with scanResults := [], state := .scanning : WifiCtx }.keyView) :
    KeySteps v (wifiScan ctx heard).keyView :=
  (h.trans (scanChannels_keySteps heard _)).tail (.setState _ rfl)

theorem associate_keySteps (ctx : WifiCtx) (rx : List RxFrame) :
    KeySteps ctx.keyView (associate ctx rx).2.keyView :=
  rxLoop_keySteps _ rx ((wifiBuildAssocReq ctx).2.transmit (wifiBuildAssocReq ctx).1)

theorem authenticate_keySteps {target : WifiBss} (rx : ConnectRx)
    (h : KeySteps v { ctx with bss := target, state := .authenticating : WifiCtx }.keyView) :
    KeySteps v (authenticate ctx target rx).2.keyView := by
  unfold authenticate
  dsimp only
  have hauth := h.trans (rxLoop_keySteps (fun st => st = .authenticating) rx.auth
    ((wifiBuildAuth { ctx with bss := target, state := .authenticating }).2.transmit
      (wifiBuildAuth { ctx with bss := target, state := .authenticating }).1))
  split
  · exact hauth.trans (associate_keySteps _ rx.assoc)
  · exact hauth

theorem findAndConnect_keySteps (ctx : WifiCtx) (pmk : Table UInt8 pmkLen) (ssid : List UInt8)
    (rx : ConnectRx) :
    KeySteps ctx.keyView (findAndConnect (ctx.newAttempt pmk) ssid rx).2.keyView := by
  unfold findAndConnect
  split
  · have hstart : KeyStep ctx.keyView
        { ctx.newAttempt pmk with state := .authenticating : WifiCtx }.keyView :=
      .attempt ctx.keyView _ rfl
    exact authenticate_keySteps rx (.single hstart)
  · -- the new attempt is first seen in the state `scanning`
    have hscan : KeySteps ctx.keyView
        (wifiScan (ctx.newAttempt pmk) ((range 11).map fun i => rx.scan.getD i [])).keyView :=
      wifiScan_keySteps _ (.single (.attempt ctx.keyView _ rfl))
    dsimp only
    split
    · exact authenticate_keySteps rx (hscan.tail (.setState _ rfl))
    · exact hscan

theorem wifiDisconnect_keySteps (ctx : WifiCtx) :
    KeySteps ctx.keyView (wifiDisconnect ctx).keyView := by
  unfold wifiDisconnect
  split
  · exact .refl
  · exact .single (.ended ctx.keyView)

theorem wifiSend_keyView (ctx : WifiCtx) (frame : List UInt8) (txStatus : HalStatus) :
    (wifiSend ctx frame txStatus).2.keyView = ctx.keyView := by
  unfold wifiSend wifiEtherTo80211
  split
  · rfl
  split
  · next h =>
    split at h
    · cases h
      rfl
    · cases h
  · next h =>
    split at h
    · cases h
    · cases h
      split
      · dsimp only
        split <;> rfl
      · rfl

theorem wifiRecv_keySteps (ctx : WifiCtx) (rx : Option RxFrame) :
    KeySteps ctx.keyView (wifiRecv ctx rx).2.2.keyView := by
  cases rx with
  | none => exact .refl
  | some rx =>
    unfold wifiRecv
    dsimp only
    split
    · exact .refl
    split
    · exact wifiProcessFrame_keySteps ctx true rx
    split
    · exact .refl
    split
    · split
      · exact .refl
      split <;> exact .refl
    split
    · exact wifiProcessFrame_keySteps ctx true rx
    · exact .refl

theorem wifiStep_keySteps (ctx : WifiCtx) (call : WifiCall) :
    KeySteps ctx.keyView (wifiStep ctx call).keyView := by
  cases call with
  | scan heard => exact wifiScan_keySteps heard (.single (.setState _ rfl))
  | connect ssid passphrase rx => exact findAndConnect_keySteps ctx _ ssid rx
  | disconnect => exact wifiDisconnect_keySteps ctx
  | processFrame own rx => exact wifiProcessFrame_keySteps ctx own rx
  | send frame txStatus => exact .of_eq (wifiSend_keyView ctx frame txStatus)
  | recv rx => exact wifiRecv_keySteps ctx rx

/-! ## The history -/

def lastMsg1 : List WifiEvent → Option KeyInputs
  | [] => none
  | .attempt :: _ => none
  | .msg1 key :: _ => some key
  | .msg3 _ :: earlier => lastMsg1 earlier

def msg3InState : List WifiEvent → Bool
  | [] => true
  | .msg3 check :: earlier => check.state.expectsMsg3 && msg3InState earlier
  | _ :: earlier => msg3InState earlier

def KeysDerived : List WifiEvent → Prop
  | [] => True
  | .msg3 check :: earlier =>
    (∃ key, lastMsg1 earlier = some key ∧ key.pmk = check.pmk ∧ key.ptk = check.ptk) ∧
      KeysDerived earlier
  | _ :: earlier => KeysDerived earlier

theorem lastMsg1_eq_some {key : KeyInputs} : ∀ (log : List WifiEvent), lastMsg1 log = some key →
      ∃ since before, log = since ++ .msg1 key :: before ∧ .attempt ∉ since
  | .msg1 _ :: before, h => ⟨[], before, by rw [Option.some.inj h]; rfl, not_mem_nil⟩
  | .msg3 check :: earlier, h => by
    obtain ⟨since, before, heq, hin⟩ := lastMsg1_eq_some earlier h
    exact ⟨.msg3 check :: since, before, congrArg _ heq, by simp [hin]⟩

theorem KeysDerived.of_append {later earlier : List WifiEvent} {check : Msg3Check}
    (h : KeysDerived (later ++ .msg3 check :: earlier)) :
    ∃ key, lastMsg1 earlier = some key ∧ key.pmk = check.pmk ∧ key.ptk = check.ptk := by
  induction later with
  | nil => exact h.1
  | cons e later ih =>
    cases e with
    | attempt | msg1 key => exact ih h
    | msg3 check' => exact ih h.2

structure KeyInv (v : KeyView) : Prop where
  installed : v.state = .connected → v.ptkInstalled = true
  derived : ∀ key, lastMsg1 v.log = some key → key.pmk = v.pmk ∧ key.ptk = v.ptk
  afterMsg1 : v.state.expectsMsg3 = true → ∃ key, lastMsg1 v.log = some key
  history : KeysDerived v.log

def InvOfLog (v : KeyView) : Prop := msg3InState v.log = true → KeyInv v

theorem KeyInv.msg3 (hv : KeyInv v) (hst : v.state.expectsMsg3 = true) (data : List UInt8) :
    KeysDerived (.msg3 (v.msg3Check data) :: v.log) := by
  obtain ⟨key, hkey⟩ := hv.afterMsg1 hst
  obtain ⟨hpmk, hptk⟩ := hv.derived key hkey
  exact ⟨⟨key, hkey, hpmk, hptk⟩, hv.history⟩

theorem KeyStep.invOfLog (hstep : KeyStep v w) (hv : InvOfLog v) : InvOfLog w := by
  intro hlog
  cases hstep with
  | setState h =>
    have hinv := hv hlog
    refine ⟨?_, hinv.derived, ?_, hinv.history⟩
    · rintro rfl
      cases h
    · intro hst
      cases h.symm.trans hst
  | deauth =>
    have hinv := hv hlog
    exact ⟨WifiState.noConfusion, hinv.derived, Bool.noConfusion, hinv.history⟩
  | msg1 h =>
    have hinv := hv hlog
    refine ⟨WifiState.noConfusion, ?_, fun _ => ⟨_, rfl⟩, hinv.history⟩
    intro key hkey
    cases hkey
    exact ⟨h, rfl⟩
  | rejected data =>
    obtain ⟨hst, hrest⟩ := Bool.and_eq_true_iff.mp hlog
    have hinv := hv hrest
    exact ⟨hinv.installed, hinv.derived, hinv.afterMsg1, hinv.msg3 hst data⟩
  | accepted h =>
    obtain ⟨hst, hrest⟩ := Bool.and_eq_true_iff.mp hlog
    have hinv := hv hrest
    exact ⟨fun _ => rfl, hinv.derived, fun _ => hinv.afterMsg1 hst, hinv.msg3 hst _⟩
  | attempt pmk h =>
    have hinv := hv hlog
    refine ⟨?_, (fun _ hkey => nomatch hkey), ?_, hinv.history⟩
    · rintro rfl
      cases h
    · intro hst
      cases h.symm.trans hst
  | ended =>
    have hinv := hv hlog
    exact ⟨WifiState.noConfusion, (fun _ hkey => nomatch hkey), Bool.noConfusion, hinv.history⟩

theorem KeySteps.invOfLog (hsteps : KeySteps v w) (hv : InvOfLog v) : InvOfLog w := by
  induction hsteps with
  | refl => exact hv
  | tail _ hstep ih => exact hstep.invOfLog ih

theorem invOfLog_wifiInit (mac : Mac) : InvOfLog (wifiInit mac).keyView :=
  fun _ => ⟨WifiState.noConfusion, (fun _ hkey => nomatch hkey), Bool.noConfusion, trivial⟩

theorem invOfLog_run (mac : Mac) (calls : List WifiCall) :
    InvOfLog (run wifiStep (wifiInit mac) calls).keyView :=
  run_invariant (P := fun ctx => InvOfLog ctx.keyView)
    (fun ctx call => (wifiStep_keySteps ctx call).invOfLog) calls _ (invOfLog_wifiInit mac)

/-! ## Key frames -/

def eapolPart (raw : List UInt8) : Option (List UInt8) :=
  if macHdrSize ≤ raw.length ∧ frameType raw = 2 ∧ hasEapol raw then some (raw.drop (eapolOff raw))
  else none

def WifiCtx.accepts (ctx : WifiCtx) (raw : List UInt8) : Bool :=
  (eapolPart raw).any fun data => isMsg3 data && micMatches ctx.kck data

def eapolFrame (eapol : List UInt8) : RxFrame :=
  ⟨[0x08, 0x02] ++ List.replicate 22 0 ++ llcSnap eapolEtherType ++ eapol, 1, 2, 3⟩

def msg3Frame (ptk : Table UInt8 ptkLen) : RxFrame :=
  eapolFrame (signedKeyFrame (kckOf ptk) 0x03CA (zeroTable 8) (List.replicate 32 7) [])

def beforeMic (keyInfo : UInt16) (replay : Table UInt8 8) (nonce keyData : List UInt8) :
    List UInt8 :=
  [2, 3] ++ be16 (UInt16.ofNat (95 + keyData.length)) ++ [2] ++ be16 keyInfo ++ be16 16 ++
    replay.slots ++ nonce ++ List.replicate 32 0

section KeyFrames

variable (kck : List UInt8) (keyInfo : UInt16) (replay : Table UInt8 8) {nonce : List UInt8}
  (keyData : List UInt8)

theorem eapolKeyFrame_eq (mic : List UInt8) :
    eapolKeyFrame keyInfo replay nonce mic keyData = beforeMic keyInfo replay nonce keyData ++
      (mic ++ (be16 (UInt16.ofNat keyData.length) ++ keyData)) := by
  simp only [eapolKeyFrame, beforeMic, append_assoc]

theorem length_beforeMic (hnonce : nonce.length = 32) :
    (beforeMic keyInfo replay nonce keyData).length = eapolMicOff := by
  simp [beforeMic, be16, replay.length_slots, hnonce]

theorem micMatches_signedKeyFrame (hnonce : nonce.length = 32) :
    micMatches kck (signedKeyFrame kck keyInfo replay nonce keyData) = true := by
  have hpre := length_beforeMic keyInfo replay keyData hnonce
  have hmic : ((wifiHmacSha1 kck (eapolKeyFrame keyInfo replay nonce (replicate 16 0)
      keyData)).take 16).length = 16 := rfl
  have hzero : zeroMic (signedKeyFrame kck keyInfo replay nonce keyData)
      = eapolKeyFrame keyInfo replay nonce (replicate 16 0) keyData := by
    unfold zeroMic signedKeyFrame
    rw [eapolKeyFrame_eq _ _ _ (take _ _), ← drop_drop, take_left' hpre,
      drop_left' hpre, drop_left' hmic, eapolKeyFrame_eq, append_assoc]
  apply decide_eq_true
  rw [hzero]
  unfold signedKeyFrame
  rw [eapolKeyFrame_eq _ _ _ (take _ _), drop_left' hpre, take_left' hmic]

theorem isMsg3_signedKeyFrame (hnonce : nonce.length = 32) :
    isMsg3 (signedKeyFrame kck 0x03CA replay nonce keyData) = true := by
  have hlen : eapolMinLen ≤ (signedKeyFrame kck 0x03CA replay nonce keyData).length := by
    unfold signedKeyFrame
    rw [eapolKeyFrame_eq, length_append, length_beforeMic _ _ _ hnonce]
    simp only [be16, wifiHmacSha1, sha1Final, be32, length_append, length_take,
      length_cons, length_nil, eapolMinLen, eapolMicOff]
    omega
  have hkey : isEapolKey (signedKeyFrame kck 0x03CA replay nonce keyData) = true :=
    decide_eq_true ⟨hlen, rfl⟩
  have h5 : byteAt (signedKeyFrame kck 0x03CA replay nonce keyData) 5 = 0x03 := rfl
  have h6 : byteAt (signedKeyFrame kck 0x03CA replay nonce keyData) 6 = 0xCA := rfl
  simp only [isMsg3, hkey, keyInfoHas, be16At, h5, h6]
  decide

end KeyFrames

theorem eapolFrame_header (eapol : List UInt8) :
    frameType (eapolFrame eapol).bytes = 2 ∧ dataHdrLen (eapolFrame eapol).bytes = 24 := by
  have h0 : byteAt (eapolFrame eapol).bytes 0 = 0x08 := rfl
  have h1 : byteAt (eapolFrame eapol).bytes 1 = 0x02 := rfl
  rw [frameType, dataHdrLen, frameSubtype, le16At, h0, h1]
  decide

theorem eapolPart_eapolFrame (eapol : List UInt8) :
    eapolPart (eapolFrame eapol).bytes = some eapol := by
  obtain ⟨htype, hhdr⟩ := eapolFrame_header eapol
  have hsplit : (eapolFrame eapol).bytes
      = ([0x08, 0x02] ++ replicate 22 0 ++ llcSnap eapolEtherType) ++ eapol := rfl
  have hlen : 32 ≤ (eapolFrame eapol).bytes.length := by
    rw [hsplit, length_append]
    exact Nat.le_add_right ..
  have heapol : hasEapol (eapolFrame eapol).bytes = true := by
    have h30 : byteAt (eapolFrame eapol).bytes 30 = 0x88 := rfl
    have h31 : byteAt (eapolFrame eapol).bytes 31 = 0x8E := rfl
    apply decide_eq_true
    rw [hhdr, be16At, h30, h31]
    exact ⟨hlen, by decide⟩
  rw [eapolPart, if_pos ⟨Nat.le_trans (by decide) hlen, htype, heapol⟩, eapolOff, hhdr]
  rfl

theorem accepts_msg3Frame (ctx : WifiCtx) {ptk : Table UInt8 ptkLen} (h : ctx.ptk = ptk) :
    ctx.accepts (msg3Frame ptk).bytes = true := by
  subst h
  rw [WifiCtx.accepts, msg3Frame, eapolPart_eapolFrame]
  exact Bool.and_eq_true_iff.mpr
    ⟨isMsg3_signedKeyFrame _ _ _ rfl, micMatches_signedKeyFrame _ _ _ _ rfl⟩

theorem isMsg3_of_isMsg1 (h : isMsg1 data = true) : isMsg3 data = false := by
  have hmic : keyInfoHas data eapolKeyInfoMic = false := by
    simpa using (Bool.and_eq_true_iff.mp h).2
  simp [isMsg3, hmic]

theorem wifiProcessFrame_of_eapolPart (ctx : WifiCtx) (own : Bool)
    (h : eapolPart rx.bytes = some data) :
    wifiProcessFrame ctx own rx = wfProcessEapol ctx own rx (eapolOff rx.bytes) ∧
      rx.bytes.drop (eapolOff rx.bytes) = data := by
  unfold eapolPart at h
  split at h
  · next hdata =>
    refine ⟨?_, Option.some.inj h⟩
    unfold wifiProcessFrame
    rw [if_neg (Nat.not_lt.mpr hdata.1), if_neg (by rw [hdata.2.1]; decide), if_pos hdata.2]
  · cases h

theorem wfProcessEapol_of_isMsg3 {own : Bool} (h : isMsg3 (rx.bytes.drop off) = true) :
    wfProcessEapol ctx own rx off = processMsg3 ctx own rx.bytes off := by
  have h1 : isMsg1 (rx.bytes.drop off) = false := by
    cases h1 : isMsg1 (rx.bytes.drop off) with
    | false => rfl
    | true => exact absurd (isMsg3_of_isMsg1 h1) (by simp [h])
  unfold wfProcessEapol
  dsimp only
  rw [h1, h]
  rfl

theorem wifiProcessFrame_of_accepts (own : Bool) (h : ctx.accepts rx.bytes = true) :
    (wifiProcessFrame ctx own rx).2.keyView = { ctx.keyView with
      state := .connected
      ptkInstalled := true
      log := .msg3 (ctx.keyView.msg3Check (rx.bytes.drop (eapolOff rx.bytes))) :: ctx.log } := by
  obtain ⟨data, hpart, hacc⟩ := Option.any_eq_true .. |>.mp h
  obtain ⟨h3, hmic⟩ := Bool.and_eq_true_iff.mp hacc
  obtain ⟨heq, rfl⟩ := wifiProcessFrame_of_eapolPart ctx own hpart
  rw [heq, wfProcessEapol_of_isMsg3 h3]
  unfold processMsg3
  dsimp only
  split
  · rfl
  · next hbad => exact absurd hmic hbad

section Accepted

variable {ctx : WifiCtx} {rx : RxFrame} (own : Bool) (h : ctx.accepts rx.bytes = true)
include h

theorem state_of_accepts : (wifiProcessFrame ctx own rx).2.state = .connected :=
  congrArg KeyView.state (wifiProcessFrame_of_accepts own h)

theorem ptkInstalled_of_accepts : (wifiProcessFrame ctx own rx).2.ptkInstalled = true :=
  congrArg KeyView.ptkInstalled (wifiProcessFrame_of_accepts own h)

theorem ptk_of_accepts : (wifiProcessFrame ctx own rx).2.ptk = ctx.ptk :=
  congrArg KeyView.ptk (wifiProcessFrame_of_accepts own h)

theorem log_of_accepts : (wifiProcessFrame ctx own rx).2.log =
    .msg3 (ctx.keyView.msg3Check (rx.bytes.drop (eapolOff rx.bytes))) :: ctx.log :=
  congrArg KeyView.log (wifiProcessFrame_of_accepts own h)

theorem msg3InState_of_accepts (hst : ctx.state.expectsMsg3 = true)
    (hlog : msg3InState ctx.log = true) :
    msg3InState (wifiProcessFrame ctx own rx).2.log = true := by
  rw [log_of_accepts own h]
  exact Bool.and_eq_true_iff.mpr ⟨hst, hlog⟩

end Accepted

/-! ## Becoming connected -/

def Connects (v w : KeyView) : Prop :=
  ∃ new, w.log = new ++ v.log ∧
    (w.state = .connected → (v.state = .connected ∧ .attempt ∉ new) ∨
      ∃ check, .msg3 check ∈ new ∧ check.accepted = true)

theorem Connects.of_not_connected (new : List WifiEvent) (hlog : w.log = new ++ v.log)
    (h : w.state ≠ .connected) : Connects v w :=
  ⟨new, hlog, fun hw => absurd hw h⟩

theorem Connects.trans {u : KeyView} (huv : Connects u v) (hvw : Connects v w) : Connects u w := by
  obtain ⟨new, hlog, hconn⟩ := huv
  obtain ⟨new', hlog', hconn'⟩ := hvw
  refine ⟨new' ++ new, by rw [hlog', hlog, append_assoc], ?_⟩
  intro hw
  obtain ⟨hv, hnew'⟩ | ⟨check, hmem, hacc⟩ := hconn' hw
  · obtain ⟨hu, hnew⟩ | ⟨check, hmem, hacc⟩ := hconn hv
    · exact .inl ⟨hu, by simp [hnew, hnew']⟩
    · exact .inr ⟨check, mem_append_right _ hmem, hacc⟩
  · exact .inr ⟨check, mem_append_left _ hmem, hacc⟩

theorem KeyStep.connects (hstep : KeyStep v w) : Connects v w := by
  have hne : ∀ {st : WifiState}, st.expectsMsg3 = false → st ≠ .connected := by
    rintro _ h rfl
    cases h
  cases hstep with
  | setState h => exact .of_not_connected [] rfl (hne h)
  | deauth => exact .of_not_connected [] rfl WifiState.noConfusion
  | msg1 h => exact .of_not_connected [.msg1 _] rfl WifiState.noConfusion
  | rejected data => exact ⟨[.msg3 _], rfl, fun hv => .inl ⟨hv, by simp⟩⟩
  | accepted h => exact ⟨[.msg3 _], rfl, fun _ => .inr ⟨_, mem_singleton_self _, h⟩⟩
  | attempt pmk h => exact .of_not_connected [.attempt] rfl (hne h)
  | ended => exact .of_not_connected [.attempt] rfl WifiState.noConfusion

theorem KeySteps.connects (hsteps : KeySteps v w) : Connects v w := by
  induction hsteps with
  | refl => exact ⟨[], rfl, fun hv => .inl ⟨hv, not_mem_nil⟩⟩
  | tail _ hstep ih => exact ih.trans hstep.connects

/-- In every run whose messages 3 come where they are due, the station connects only by one whose
MIC matches, under the key of an earlier message 1 of the same attempt. -/
theorem wifiStep_connected_authenticated (mac : Mac) (calls : List WifiCall) (call : WifiCall)
    (hlog : msg3InState (wifiStep (run wifiStep (wifiInit mac) calls) call).log = true) :
    Connects (run wifiStep (wifiInit mac) calls).keyView
        (wifiStep (run wifiStep (wifiInit mac) calls) call).keyView ∧
      ((wifiStep (run wifiStep (wifiInit mac) calls) call).state = .connected →
        (wifiStep (run wifiStep (wifiInit mac) calls) call).ptkInstalled = true) ∧
      ∀ later check earlier,
        (wifiStep (run wifiStep (wifiInit mac) calls) call).log =
            later ++ .msg3 check :: earlier →
          ∃ key since before, earlier = since ++ .msg1 key :: before ∧ .attempt ∉ since ∧
            key.pmk = check.pmk ∧ key.ptk = check.ptk := by
  have hsteps := wifiStep_keySteps (run wifiStep (wifiInit mac) calls) call
  have hinv : KeyInv (wifiStep (run wifiStep (wifiInit mac) calls) call).keyView :=
    hsteps.invOfLog (invOfLog_run mac calls) hlog
  refine ⟨hsteps.connects, hinv.installed, ?_⟩
  intro later check earlier heq
  have hhist : KeysDerived (later ++ .msg3 check :: earlier) := heq ▸ hinv.history
  obtain ⟨key, hkey, hpmk, hptk⟩ := hhist.of_append
  obtain ⟨since, before, hsplit, hsince⟩ := lastMsg1_eq_some earlier hkey
  exact ⟨key, since, before, hsplit, hsince, hpmk, hptk⟩

def stationMac : Mac := ⟨[2, 0, 0, 0, 0, 1], rfl⟩

def msg1Frame : RxFrame :=
  eapolFrame (eapolKeyFrame 0x008A (zeroTable 8) (List.replicate 32 7) (List.replicate 16 0) [])

def afterMsg1 : WifiCtx := wifiStep (wifiInit stationMac) (.processFrame false msg1Frame)

theorem wifiStep_connected_authenticated_handshake :
    (wifiStep (run wifiStep (wifiInit stationMac) [.processFrame false msg1Frame])
        (.processFrame false (msg3Frame afterMsg1.ptk))).state = .connected ∧
      (wifiStep (run wifiStep (wifiInit stationMac) [.processFrame false msg1Frame])
        (.processFrame false (msg3Frame afterMsg1.ptk))).ptkInstalled = true := by
  have hacc := accepts_msg3Frame afterMsg1 rfl
  have hafter : afterMsg1.state.expectsMsg3 = true ∧ msg3InState afterMsg1.log = true := by
    decide +kernel
  have hconn := state_of_accepts false hacc
  have hlog := msg3InState_of_accepts false hacc hafter.1 hafter.2
  have hrun : run wifiStep (wifiInit stationMac) [.processFrame false msg1Frame] = afterMsg1 := rfl
  have h := wifiStep_connected_authenticated stationMac [.processFrame false msg1Frame]
    (.processFrame false (msg3Frame afterMsg1.ptk))
  rw [hrun, wifiStep] at h ⊢
  exact ⟨hconn, (h hlog).2.1 hconn⟩

def forgedConnection : WifiCtx :=
  wifiStep (wifiInit stationMac) (.processFrame false (msg3Frame (zeroTable ptkLen)))

theorem accepts_forged :
    (wifiInit stationMac).accepts (msg3Frame (zeroTable ptkLen)).bytes = true :=
  accepts_msg3Frame (wifiInit stationMac) rfl

theorem forgedConnection_ptkInstalled : forgedConnection.ptkInstalled = true := by
  rw [forgedConnection, wifiStep]
  exact ptkInstalled_of_accepts false accepts_forged

theorem forgedConnection_ptk : forgedConnection.ptk = zeroTable ptkLen := by
  rw [forgedConnection, wifiStep, ptk_of_accepts false accepts_forged]
  rfl

/-- A message 3 made with the all-zero key connects a station that has
just been initialised. -/
theorem wifiProcessFrame_connects_under_zero_key :
    forgedConnection.state = .connected ∧ forgedConnection.ptkInstalled = true ∧
      forgedConnection.ptk = zeroTable ptkLen ∧ lastMsg1 forgedConnection.log = none := by
  refine ⟨?_, forgedConnection_ptkInstalled, forgedConnection_ptk, ?_⟩
  · rw [forgedConnection, wifiStep]
    exact state_of_accepts false accepts_forged
  · rw [forgedConnection, wifiStep, log_of_accepts false accepts_forged]
    rfl

/-! ## The key in use -/

inductive TrafficCall where
  | processFrame (own : Bool) (rx : RxFrame)
  | recv (rx : Option RxFrame)
  | send (frame : List UInt8) (txStatus : HalStatus)
  | disconnect

def TrafficCall.call : TrafficCall → WifiCall
  | .processFrame own rx => .processFrame own rx
  | .recv rx => .recv rx
  | .send frame txStatus => .send frame txStatus
  | .disconnect => .disconnect

def trafficStep (ctx : WifiCtx) (c : TrafficCall) : WifiCtx := wifiStep ctx c.call

def recvProcesses (raw : List UInt8) : Bool :=
  raw ≠ [] ∧ (frameType raw = 0 ∨
    frameType raw = 2 ∧ byteAt raw 1 &&& 0x40 = 0 ∧ hasEapol raw)

def TrafficCall.processed : TrafficCall → Option RxFrame
  | .processFrame _ rx => some rx
  | .recv (some rx) => if recvProcesses rx.bytes then some rx else none
  | _ => none

def carriesMsg1 (raw : List UInt8) : Bool := (eapolPart raw).any isMsg1

def WifiCtx.msg1Inputs (ctx : WifiCtx) (rx : RxFrame) : KeyInputs :=
  ⟨ctx.pmk, tableAt nonceLen (rx.bytes.drop (eapolOff rx.bytes)) eapolNonceOff,
    wfGenerateSnonce ctx.ourMac rx, ctx.bss.bssid, ctx.ourMac⟩

/-- The installed key changes only by an accepted message 3, or with the flag cleared. -/
def KeyStable (ctx : WifiCtx) (c : TrafficCall) : Prop :=
  ctx.ptkInstalled = true → (trafficStep ctx c).ptk ≠ ctx.ptk →
    (∃ rx, c.processed = some rx ∧ ctx.accepts rx.bytes = true) ∨
      ((c = .disconnect ∨ ∃ rx, c.processed = some rx ∧ isDeauth rx.bytes = true) ∧
        (trafficStep ctx c).ptkInstalled = false)

def Rekeys (ctx : WifiCtx) (c : TrafficCall) : Prop :=
  ctx.ptkInstalled = true ∧ ∃ rx, c.processed = some rx ∧ carriesMsg1 rx.bytes = true ∧
    (ctx.msg1Inputs rx).ptk ≠ ctx.ptk

theorem processMgmt_ptk (ctx : WifiCtx) (raw : List UInt8) :
    (processMgmt ctx raw).ptk = ctx.ptk := by
  have hbeacon := congrArg KeyView.ptk (wfParseBeacon_keyView ctx raw)
  unfold processMgmt
  dsimp only
  repeat' split
  · exact hbeacon
  all_goals rfl

theorem wfProcessEapol_ptk (ctx : WifiCtx) (own : Bool) (rx : RxFrame) (off : Nat) :
    (wfProcessEapol ctx own rx off).2.ptk = if isMsg1 (rx.bytes.drop off) then
        KeyInputs.ptk ⟨ctx.pmk, tableAt nonceLen (rx.bytes.drop off) eapolNonceOff,
          wfGenerateSnonce ctx.ourMac rx, ctx.bss.bssid, ctx.ourMac⟩
      else ctx.ptk := by
  unfold wfProcessEapol processMsg3
  dsimp only
  repeat' split
  all_goals rfl

theorem carriesMsg1_iff (raw : List UInt8) : carriesMsg1 raw = true ↔
      (macHdrSize ≤ raw.length ∧ frameType raw = 2 ∧ hasEapol raw = true) ∧
        isMsg1 (raw.drop (eapolOff raw)) = true := by
  unfold carriesMsg1 eapolPart
  split
  · next hdata => exact ⟨fun h => ⟨hdata, h⟩, fun h => h.2⟩
  · next hdata => exact ⟨fun h => absurd h Bool.false_ne_true, fun h => absurd h.1 hdata⟩

theorem wifiProcessFrame_ptk (ctx : WifiCtx) (own : Bool) (rx : RxFrame) :
    (wifiProcessFrame ctx own rx).2.ptk =
      if carriesMsg1 rx.bytes then (ctx.msg1Inputs rx).ptk else ctx.ptk := by
  unfold wifiProcessFrame
  simp only [carriesMsg1_iff]
  split
  · next hlen => rw [if_neg fun h => absurd h.1.1 (Nat.not_le.mpr hlen)]
  split
  · next hmgmt =>
    rw [if_neg fun h => absurd (hmgmt.symm.trans h.1.2.1) (by decide)]
    exact processMgmt_ptk ctx rx.bytes
  split
  · next hlen _ heapol =>
    simp only [Nat.not_lt.mp hlen, heapol, and_self, true_and]
    exact wfProcessEapol_ptk ctx own rx _
  · next heapol => rw [if_neg fun h => heapol h.1.2]

theorem processed_recv (h : recvProcesses rx.bytes = true) :
    (TrafficCall.recv (some rx)).processed = some rx := if_pos h

theorem wifiRecv_processed (h : recvProcesses rx.bytes = true) :
    (wifiRecv ctx (some rx)).2.2 = (wifiProcessFrame ctx true rx).2 := by
  obtain ⟨hne, htype⟩ := of_decide_eq_true h
  unfold wifiRecv
  dsimp only
  rw [if_neg hne]
  obtain hmgmt | ⟨hdata, hprot, heapol⟩ := htype
  · rw [if_pos hmgmt]
  · rw [if_neg (by rw [hdata]; decide), if_neg (not_not.mpr hdata),
      if_neg (fun hc => hc.1 hprot), if_pos ⟨not_not.mpr hprot, heapol⟩]

theorem wifiRecv_ptk_of_not_processed (h : recvProcesses rx.bytes = false) :
    (wifiRecv ctx (some rx)).2.2.ptk = ctx.ptk := by
  have hnot := of_decide_eq_false h
  unfold wifiRecv
  dsimp only
  split
  · rfl
  split
  · next hne hmgmt => exact absurd ⟨hne, .inl hmgmt⟩ hnot
  split
  · rfl
  split
  · split
    · rfl
    split <;> rfl
  split
  · next hne _ hdata _ heapol =>
    exact absurd ⟨hne, .inr ⟨not_not.mp hdata, not_not.mp heapol.1, heapol.2⟩⟩ hnot
  · rfl

theorem trafficStep_cases (ctx : WifiCtx) (c : TrafficCall) :
    (∃ own rx, c.processed = some rx ∧ trafficStep ctx c = (wifiProcessFrame ctx own rx).2) ∨
      (c = .disconnect ∧ trafficStep ctx c = wifiDisconnect ctx) ∨
      (c.processed = none ∧ (trafficStep ctx c).ptk = ctx.ptk) := by
  cases c with
  | processFrame own rx => exact .inl ⟨own, rx, rfl, rfl⟩
  | recv rx =>
    cases rx with
    | none => exact .inr (.inr ⟨rfl, rfl⟩)
    | some rx =>
      cases h : recvProcesses rx.bytes with
      | true => exact .inl ⟨true, rx, processed_recv h, wifiRecv_processed h⟩
      | false =>
        exact .inr (.inr ⟨if_neg (by rw [h]; decide), wifiRecv_ptk_of_not_processed h⟩)
  | send frame txStatus =>
    exact .inr (.inr ⟨rfl, congrArg KeyView.ptk (wifiSend_keyView ctx frame txStatus)⟩)
  | disconnect => exact .inr (.inl ⟨rfl, rfl⟩)

theorem not_accepts_of_carriesMsg1 (h : carriesMsg1 raw = true) : ctx.accepts raw = false := by
  unfold carriesMsg1 at h
  unfold WifiCtx.accepts
  cases hpart : eapolPart raw with
  | none => rfl
  | some data =>
    rw [hpart] at h
    have h3 : isMsg3 data = false := isMsg3_of_isMsg1 h
    simp [h3]

theorem not_isDeauth_of_carriesMsg1 (h : carriesMsg1 raw = true) : isDeauth raw = false := by
  have htype := ((carriesMsg1_iff raw).mp h).1.2.1
  simp [isDeauth, htype]

theorem keyStable_iff (ctx : WifiCtx) (c : TrafficCall) : KeyStable ctx c ↔ ¬ Rekeys ctx c := by
  constructor
  · rintro hstable ⟨hinst, rx, hrx, hmsg1, hne⟩
    obtain ⟨own, rx', hrx', hstep⟩ | ⟨rfl, -⟩ | ⟨hnone, -⟩ := trafficStep_cases ctx c
    · cases hrx.symm.trans hrx'
      have hptk := wifiProcessFrame_ptk ctx own rx
      rw [if_pos hmsg1, ← hstep] at hptk
      obtain ⟨rx', hrx', hacc⟩ | ⟨rfl | ⟨rx', hrx', hdeauth⟩, -⟩ := hstable hinst (hptk ▸ hne)
      · cases hrx.symm.trans hrx'
        cases (not_accepts_of_carriesMsg1 hmsg1).symm.trans hacc
      · cases hrx
      · cases hrx.symm.trans hrx'
        cases (not_isDeauth_of_carriesMsg1 hmsg1).symm.trans hdeauth
    · cases hrx
    · cases hnone.symm.trans hrx
  · intro hrekeys hinst hchange
    obtain ⟨own, rx, hrx, hstep⟩ | ⟨rfl, hstep⟩ | ⟨-, hsame⟩ := trafficStep_cases ctx c
    · -- a frame changes the key by message 1 only
      rw [hstep, wifiProcessFrame_ptk] at hchange
      split at hchange
      · next hmsg1 => exact absurd ⟨hinst, rx, hrx, hmsg1, hchange⟩ hrekeys
      · exact absurd rfl hchange
    · refine .inr ⟨.inl rfl, ?_⟩
      rw [hstep] at hchange ⊢
      unfold wifiDisconnect at hchange ⊢
      split
      · next hidle => exact absurd (by rw [if_pos hidle]) hchange
      · rfl
    · exact absurd hsame hchange

/-- The installed key is stable exactly if no message 1 with other nonces comes while it is
installed. -/
theorem trafficStep_keyStable_iff (ctx : WifiCtx) (calls : List TrafficCall) :
    Steps trafficStep KeyStable ctx calls ↔
      Steps trafficStep (fun ctx c => ¬ Rekeys ctx c) ctx calls :=
  steps_congr keyStable_iff calls ctx

theorem trafficStep_replaces_installed_key :
    ¬ Steps trafficStep KeyStable (wifiInit stationMac)
      [.processFrame false (msg3Frame (zeroTable ptkLen)), .recv (some msg1Frame)] := by
  have hrekeys : Rekeys forgedConnection (.recv (some msg1Frame)) := by
    refine ⟨forgedConnection_ptkInstalled, msg1Frame,
      processed_recv (by decide +kernel), by decide +kernel, ?_⟩
    decide +kernel
  rintro ⟨-, hstable, -⟩
  exact (keyStable_iff forgedConnection _).mp hstable hrekeys

/-! ## Forged messages -/

structure ProtocolState where
  state : WifiState
  ptk : Table UInt8 ptkLen
  anonce : Table UInt8 nonceLen
  snonce : Table UInt8 nonceLen
  replayCounter : Table UInt8 8
  ptkInstalled : Bool
  gtkInstalled : Bool
  txPn : Table UInt8 ccmpPnLen
  rxPn : Table UInt8 ccmpPnLen
  deriving DecidableEq

def WifiCtx.protocol (ctx : WifiCtx) : ProtocolState :=
  ⟨ctx.state, ctx.ptk, ctx.anonce, ctx.snonce, ctx.replayCounter, ctx.ptkInstalled,
    ctx.gtkInstalled, ctx.txPn, ctx.rxPn⟩

theorem wfProcessEapol_forged (ctx : WifiCtx) (own : Bool) (rx : RxFrame) (off : Nat)
    (hmic : keyInfoHas (rx.bytes.drop off) eapolKeyInfoMic = true)
    (hforged : micMatches ctx.kck (rx.bytes.drop off) = false) :
    (wfProcessEapol ctx own rx off).2.sent = ctx.sent ∧ (wfProcessEapol ctx own rx off).2.protocol =
        if isMsg3 (rx.bytes.drop off) then
          { ctx.protocol with replayCounter := tableAt 8 (rx.bytes.drop off) 9 }
        else ctx.protocol := by
  cases h3 : isMsg3 (rx.bytes.drop off) with
  | true =>
    rw [wfProcessEapol_of_isMsg3 h3]
    unfold processMsg3
    dsimp only
    split
    · next hgood => exact absurd hgood (by simpa [WifiCtx.kck] using hforged)
    · exact ⟨rfl, rfl⟩
  | false =>
    have h1 : isMsg1 (rx.bytes.drop off) = false := by simp [isMsg1, hmic]
    unfold wfProcessEapol
    dsimp only
    rw [h1, h3]
    simp only [Bool.false_eq_true, if_false]
    split <;> exact ⟨rfl, rfl⟩

/-- A key frame with a wrong MIC has no effect exactly if it is not a message 3 or repeats the
replay counter. -/
theorem wifiProcessFrame_forged_iff (ctx : WifiCtx) (own : Bool) (rx : RxFrame) (data : List UInt8)
    (hpart : eapolPart rx.bytes = some data) (hmic : keyInfoHas data eapolKeyInfoMic = true)
    (hforged : micMatches ctx.kck data = false) :
    ((wifiProcessFrame ctx own rx).2.protocol = ctx.protocol ∧
        (wifiProcessFrame ctx own rx).2.sent = ctx.sent) ↔
      (isMsg3 data = true → tableAt 8 data 9 = ctx.replayCounter) := by
  obtain ⟨heq, rfl⟩ := wifiProcessFrame_of_eapolPart ctx own hpart
  obtain ⟨hsent, hprotocol⟩ := wfProcessEapol_forged ctx own rx _ hmic hforged
  rw [heq, hsent, hprotocol]
  cases isMsg3 (rx.bytes.drop (eapolOff rx.bytes)) with
  | true =>
    constructor
    · exact fun h _ => congrArg ProtocolState.replayCounter h.1
    · intro h
      rw [h rfl]
      exact ⟨rfl, rfl⟩
  | false => exact ⟨(fun _ h => nomatch h), fun _ => ⟨rfl, rfl⟩⟩

def otherCounter : Table UInt8 8 := ⟨[0, 0, 0, 0, 0, 0, 0, 1], rfl⟩

def forgedMsg3 : List UInt8 :=
  eapolKeyFrame 0x03CA otherCounter (List.replicate 32 7) (List.replicate 16 0) []

theorem micMatches_forgedMsg3 : micMatches (kckOf (zeroTable ptkLen)) forgedMsg3 = false := by
  decide +kernel

theorem wifiProcessFrame_forged_same_counter :
    (wifiProcessFrame { wifiInit stationMac with replayCounter := otherCounter } false
        (eapolFrame forgedMsg3)).2.protocol
      = { wifiInit stationMac with replayCounter := otherCounter : WifiCtx }.protocol := by
  have h := wifiProcessFrame_forged_iff { wifiInit stationMac with replayCounter := otherCounter }
    false (eapolFrame forgedMsg3) forgedMsg3 (eapolPart_eapolFrame _) (by decide)
    micMatches_forgedMsg3
  exact (h.mpr fun _ => by decide).1

theorem wifiProcessFrame_forged_changes_counter :
    eapolPart (eapolFrame forgedMsg3).bytes = some forgedMsg3 ∧
      keyInfoHas forgedMsg3 eapolKeyInfoMic = true ∧
      micMatches (wifiInit stationMac).kck forgedMsg3 = false ∧
      (wifiInit stationMac).replayCounter = zeroTable 8 ∧
      (wifiProcessFrame (wifiInit stationMac) false (eapolFrame forgedMsg3)).2.replayCounter
        = otherCounter := by
  have hmic : keyInfoHas forgedMsg3 eapolKeyInfoMic = true := by decide
  refine ⟨eapolPart_eapolFrame _, hmic, micMatches_forgedMsg3, rfl, ?_⟩
  obtain ⟨heq, hdrop⟩ := wifiProcessFrame_of_eapolPart (wifiInit stationMac) false
    (eapolPart_eapolFrame forgedMsg3)
  have h := wfProcessEapol_forged (wifiInit stationMac) false (eapolFrame forgedMsg3)
    (eapolOff (eapolFrame forgedMsg3).bytes) (by rw [hdrop]; exact hmic)
    (by rw [hdrop]; exact micMatches_forgedMsg3)
  have hfield : ∀ ctx : WifiCtx, ctx.replayCounter = ctx.protocol.replayCounter := fun _ => rfl
  rw [heq, hfield, h.2, hdrop]
  decide

end AlJefra.Network
