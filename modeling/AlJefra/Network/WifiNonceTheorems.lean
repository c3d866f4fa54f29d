/-
The nonces of the frames sent. The station refines a counter under changing keys: no nonce comes
twice where each attempt that encrypts has seen a message 1.
-/
import AlJefra.Lib.KeyedCounter
import AlJefra.Network.WifiDataTheorems

namespace AlJefra.Network

open AlJefra.Lib AlJefra.Hal List

/-! ## The packet number as a counter -/

theorem leNat_incBytes (l : List UInt8) : leNat (incBytes l) = (leNat l + 1) % 256 ^ l.length := by
  induction l with
  | nil => simp [incBytes, leNat]
  | cons b bs ih =>
    unfold incBytes
    split
    · next hzero =>
      have hb : b.toNat = 255 := by
        have h := congrArg UInt8.toNat hzero
        have hlt := b.toNat_lt
        simp at h
        omega
      rw [leNat, ih, leNat, hb, length_cons, pow_succ', show (0 : UInt8).toNat = 0 from rfl,
        zero_add, ← Nat.mul_mod_mul_left]
      congr 1
      omega
    · next hne =>
      have hb : (b + 1).toNat = b.toNat + 1 := by
        have hlt := b.toNat_lt
        have hne' : (b + 1).toNat ≠ 0 := fun h => hne (UInt8.toNat_inj.mp h)
        simp at hne' ⊢
        omega
      have hlt := leNat_lt ((b + 1) :: bs)
      rw [leNat, hb] at hlt ⊢
      rw [leNat, length_cons, Nat.mod_eq_of_lt (by rw [length_cons] at hlt; omega)]
      omega

theorem pnValue_wfIncPn (pn : Table UInt8 ccmpPnLen) :
    pnValue (wfIncPn pn) = (pnValue pn + 1) % 2 ^ 48 := by
  have h := leNat_incBytes pn.slots
  rwa [pn.length_slots] at h

theorem wifiProcessFrame_txPn (ctx : WifiCtx) (own : Bool) (rx : RxFrame) :
    (wifiProcessFrame ctx own rx).2.txPn = ctx.txPn :=
  congrArg Prod.fst (wifiProcessFrame_pns ctx own rx)

theorem wifiRecv_txPn (ctx : WifiCtx) (rx : Option RxFrame) :
    (wifiRecv ctx rx).2.2.txPn = ctx.txPn := by
  cases rx with
  | none => rfl
  | some rx =>
    have hout := recvOutcome_wifiRecv ctx rx
    generalize wifiRecv ctx (some rx) = res at hout
    cases hout with
    | processed h => exact wifiProcessFrame_txPn ctx true rx
    | taken h | passed | refused => rfl

/-! ## The key in force -/

def tkOf (ptk : Table UInt8 ptkLen) : Table UInt8 aesKeySize :=
  ⟨ptk.slots.drop 32, by rw [length_drop, ptk.length_slots]; rfl⟩

def KeyInputs.tk (k : KeyInputs) : Table UInt8 aesKeySize := tkOf k.ptk
def PtkOfMsg1 (v : KeyView) : Prop := ∀ key, lastMsg1 v.log = some key → key.ptk = v.ptk

variable {v w : KeyView} {ctx : WifiCtx} {a : KeyedCounter (Table UInt8 aesKeySize)} {s : Station}

theorem KeyStep.ptkOfMsg1 (hstep : KeyStep v w) (h : PtkOfMsg1 v) : PtkOfMsg1 w := by
  cases hstep with
  | setState | deauth => exact h
  | msg1 =>
    intro key hkey
    cases hkey
    rfl
  | rejected | accepted => exact h
  | attempt | ended => exact fun _ hkey => nomatch hkey

theorem KeySteps.ptkOfMsg1 (hsteps : KeySteps v w) (h : PtkOfMsg1 v) : PtkOfMsg1 w := by
  induction hsteps with
  | refl => exact h
  | tail _ hstep ih => exact hstep.ptkOfMsg1 ih

/-! ## Frames sent -/

def WifiCtx.encryption (ctx : WifiCtx) : WifiCall → Option (Table UInt8 aesKeySize × List UInt8)
  | .send frame _ =>
    if ctx.state = .connected ∧ ctx.ptkInstalled then
      (wifiEtherTo80211 ctx frame).1.map fun raw =>
        (ctx.tk, ccmpBuildNonce (framePriority raw) (addr2 raw) (wfIncPn ctx.txPn))
    else none
  | _ => none

theorem nonce_dataFrame (ctx : WifiCtx) (e : EtherFrame) (pn : Table UInt8 ccmpPnLen) :
    ccmpBuildNonce (framePriority (ctx.dataFrame e)) (addr2 (ctx.dataFrame e)) pn
      = ccmpBuildNonce 0 e.src.slots pn := by
  have hqos : isQos (ctx.dataFrame e) = false := by
    rw [isQos, WifiCtx.dataFrame, byteAt_toDsFrame_zero]
    decide
  have hprio : framePriority (ctx.dataFrame e) = 0 := by
    rw [framePriority, if_neg (by simp [hqos])]
  have haddr : addr2 (ctx.dataFrame e) = e.src.slots := addr2_macHdr ..
  rw [hprio, haddr]

theorem encryption_send (ctx : WifiCtx) (e : EtherFrame) (txStatus : HalStatus)
    (h : ctx.state = .connected ∧ ctx.ptkInstalled = true) :
    ctx.encryption (.send e.bytes txStatus)
      = some (ctx.tk, ccmpBuildNonce 0 e.src.slots (wfIncPn ctx.txPn)) := by
  rw [WifiCtx.encryption, if_pos h, wifiEtherTo80211_eq, Option.map_some, ← WifiCtx.dataFrame,
    nonce_dataFrame]

theorem encryption_eq_some {call : WifiCall} {p : Table UInt8 aesKeySize × List UInt8}
    (h : ctx.encryption call = some p) :
    (ctx.state = .connected ∧ ctx.ptkInstalled = true) ∧
      ∃ e txStatus, call = .send (EtherFrame.bytes e) txStatus ∧
        p = (ctx.tk, ccmpBuildNonce 0 e.src.slots (wfIncPn ctx.txPn)) := by
  cases call with
  | send frame txStatus =>
    unfold WifiCtx.encryption at h
    dsimp only at h
    split at h
    · next hready =>
      by_cases hlen : frame.length < 14
      · rw [wifiEtherTo80211, if_pos hlen] at h
        cases h
      · obtain ⟨e, rfl, -⟩ := exists_etherFrame (Nat.le_of_not_lt hlen)
        have henc := encryption_send ctx e txStatus hready
        rw [WifiCtx.encryption, if_pos hready, h] at henc
        exact ⟨hready, e, txStatus, rfl, Option.some.inj henc⟩
    · cases h
  | _ => cases h

theorem wifiSend_txPn (ctx : WifiCtx) (frame : List UInt8) (txStatus : HalStatus) :
    (wifiSend ctx frame txStatus).2.txPn =
      if (ctx.encryption (.send frame txStatus)).isSome then wfIncPn ctx.txPn else ctx.txPn := by
  by_cases hlen : frame.length < 14
  · have hnone : ctx.encryption (.send frame txStatus) = none := by
      cases h : ctx.encryption (.send frame txStatus) with
      | none => rfl
      | some p =>
        obtain ⟨-, e, _, hcall, -⟩ := encryption_eq_some h
        cases hcall
        simp [EtherFrame.bytes, e.dst.length_slots, e.src.length_slots] at hlen
        omega
    rw [wifiSend_short ctx txStatus hlen, hnone]
    rfl
  · obtain ⟨e, rfl, -⟩ := exists_etherFrame (Nat.le_of_not_lt hlen)
    rw [wifiSend_eq]
    by_cases hready : ctx.state = .connected ∧ ctx.ptkInstalled = true
    · rw [encryption_send ctx e txStatus hready, if_neg (not_not.mpr hready.1), if_pos hready.2]
      rfl
    · have hnone : ctx.encryption (.send e.bytes txStatus) = none := if_neg hready
      rw [hnone]
      split
      · rfl
      split
      · next hconn hinst => exact absurd ⟨not_not.mp hconn, hinst⟩ hready
      · rfl

/-! ## The station as a sender -/

inductive StationCall where
  | init (mac : Mac)
  | call (c : WifiCall)

structure Station where
  ctx : WifiCtx
  past : List WifiEvent
  encrypted : List (Table UInt8 aesKeySize × List UInt8)

def boot (mac : Mac) : Station := ⟨wifiInit mac, [], []⟩
def Station.history (s : Station) : List WifiEvent := s.ctx.log ++ s.past

def stationStep (s : Station) : StationCall → Station
  | .init mac => { s with ctx := wifiInit mac, past := s.history }
  | .call c =>
    { s with
      ctx := wifiStep s.ctx c
      encrypted := (s.ctx.encryption c).toList ++ s.encrypted }

def msg1Keys (log : List WifiEvent) : List KeyInputs :=
  log.filterMap fun
    | .msg1 key => some key
    | _ => none

def SendsAfterMsg1 (s : Station) (call : StationCall) : Prop :=
  ∀ c, call = .call c → (s.ctx.encryption c).isSome = true → (lastMsg1 s.ctx.log).isSome = true

def eventOp (c : Nat) : WifiEvent → Option (KeyOp (Table UInt8 aesKeySize))
  | .attempt => some (.lapse c)
  | .msg1 key => some (.rekey key.tk)
  | .msg3 _ => none

def eventOps (c : Nat) (new : List WifiEvent) : List (KeyOp (Table UInt8 aesKeySize)) :=
  new.reverse.filterMap (eventOp c)

theorem eventOps_cons (c : Nat) (e : WifiEvent) (new : List WifiEvent) :
    eventOps c (e :: new) = eventOps c new ++ (eventOp c e).toList := by
  rw [eventOps, eventOps, reverse_cons, filterMap_append]
  cases h : eventOp c e with
  | none | some op => simp [h]

abbrev pnSpace : Nat := 2 ^ 48

theorem run_eventOps {log : List WifiEvent} (hkey : a.key = (lastMsg1 log).map KeyInputs.tk) :
    ∀ new : List WifiEvent,
    run (keyStep pnSpace) a (eventOps a.ctr new)
      = { a with key := (lastMsg1 (new ++ log)).map KeyInputs.tk }
  | [] => by
    rw [nil_append, ← hkey]
    rfl
  | e :: new => by
    rw [eventOps_cons, run_append, run_eventOps hkey new]
    cases e with
    | attempt | msg1 key | msg3 check => rfl

theorem rekeyed_append {κ : Type} (ops ops' : List (KeyOp κ)) :
    rekeyed (ops ++ ops') = rekeyed ops ++ rekeyed ops' := filterMap_append ..

theorem rekeyed_eventOps (c : Nat) : ∀ new : List WifiEvent,
    (rekeyed (eventOps c new)).reverse = (msg1Keys new).map KeyInputs.tk
  | [] => rfl
  | e :: new => by
    rw [eventOps_cons, rekeyed_append, reverse_append, rekeyed_eventOps c new]
    cases e with
    | attempt | msg1 key | msg3 check => rfl

def keyAndNumber (e : Table UInt8 aesKeySize × List UInt8) : Table UInt8 aesKeySize × Nat :=
  (e.1, leNat (e.2.drop 7).reverse)

theorem keyAndNumber_nonce (tk : Table UInt8 aesKeySize) (src : Mac) (pn : Table UInt8 ccmpPnLen) :
    keyAndNumber (tk, ccmpBuildNonce 0 src.slots pn) = (tk, pnValue pn) := by
  have hpre : ([(0 : UInt8) &&& 0x0F] ++ src.slots).length = 7 := by simp [src.length_slots]
  rw [keyAndNumber, ccmpBuildNonce, drop_left' hpre, reverse_reverse, pnValue]

structure Refines (s : Station) (a : KeyedCounter (Table UInt8 aesKeySize)) : Prop where
  key : a.key = (lastMsg1 s.ctx.log).map KeyInputs.tk
  ctr : a.ctr = pnValue s.ctx.txPn
  used : a.used = s.encrypted.map keyAndNumber
  derived : PtkOfMsg1 s.ctx.keyView

def KeysInForce (s s' : Station) (ops : List (KeyOp (Table UInt8 aesKeySize))) : Prop :=
  (msg1Keys s'.history).map KeyInputs.tk
    = (rekeyed ops).reverse ++ (msg1Keys s.history).map KeyInputs.tk

theorem refines_boot (mac : Mac) : Refines (boot mac) ⟨none, 0, []⟩ :=
  ⟨rfl, ((pnValue_eq_zero_iff _).mpr rfl).symm, rfl, fun _ hkey => nomatch hkey⟩

section Step

variable {s : Station} {a : KeyedCounter (Table UInt8 aesKeySize)} {ctx : WifiCtx}

theorem Refines.events (h : Refines s a) (hsteps : KeySteps s.ctx.keyView ctx.keyView)
    (htx : ctx.txPn = s.ctx.txPn) :
    ∃ ops, Refines { s with ctx := ctx } (run (keyStep pnSpace) a ops) ∧
      KeysInForce s { s with ctx := ctx } ops := by
  obtain ⟨new, hlog, -⟩ := hsteps.connects
  have hlog' : ctx.log = new ++ s.ctx.log := hlog
  refine ⟨eventOps a.ctr new, ?_, ?_⟩
  · rw [run_eventOps h.key new]
    exact ⟨by rw [hlog'], h.ctr.trans (by rw [htx]), h.used, hsteps.ptkOfMsg1 h.derived⟩
  · rw [KeysInForce, rekeyed_eventOps, Station.history, Station.history, hlog', append_assoc,
      msg1Keys, filterMap_append, map_append]
    rfl

theorem Refines.lapse (h : Refines s a) {past : List WifiEvent}
    (hlog : ctx.log ++ past = .attempt :: s.history) (hnone : lastMsg1 ctx.log = none)
    (htx : pnValue ctx.txPn = 0) :
    ∃ ops, Refines { s with ctx := ctx, past := past } (run (keyStep pnSpace) a ops) ∧
      KeysInForce s { s with ctx := ctx, past := past } ops := by
  refine ⟨[.lapse 0], ⟨by rw [hnone]; rfl, htx.symm, h.used, ?_⟩, ?_⟩
  · intro key hkey
    cases hnone.symm.trans hkey
  · rw [KeysInForce, Station.history, hlog]
    rfl

theorem Refines.send (h : Refines s a) (frame : List UInt8) (txStatus : HalStatus)
    (hafter : SendsAfterMsg1 s (.call (.send frame txStatus))) :
    ∃ ops, Refines (stationStep s (.call (.send frame txStatus))) (run (keyStep pnSpace) a ops) ∧
      KeysInForce s (stationStep s (.call (.send frame txStatus))) ops := by
  have hview := wifiSend_keyView s.ctx frame txStatus
  have htx := wifiSend_txPn s.ctx frame txStatus
  have hlog : (wifiSend s.ctx frame txStatus).2.log = s.ctx.log := congrArg KeyView.log hview
  have hderived : PtkOfMsg1 (wifiSend s.ctx frame txStatus).2.keyView := hview.symm ▸ h.derived
  cases henc : s.ctx.encryption (.send frame txStatus) with
  | none =>
    rw [henc] at htx
    refine ⟨[], ⟨?_, ?_, ?_, ?_⟩, ?_⟩
    · exact h.key.trans (by rw [stationStep, wifiStep, hlog])
    · exact h.ctr.trans (by rw [stationStep, wifiStep, htx]; rfl)
    · exact h.used.trans (by simp [stationStep, henc])
    · exact hderived
    · rw [KeysInForce, Station.history, stationStep, wifiStep, hlog]
      rfl
  | some p =>
    obtain ⟨-, e, _, -, rfl⟩ := encryption_eq_some henc
    obtain ⟨key, hkey⟩ := Option.isSome_iff_exists.mp (hafter _ rfl (by rw [henc]; rfl))
    have htk : key.tk = s.ctx.tk := congrArg tkOf (h.derived key hkey)
    have ha : a.key = some s.ctx.tk := by rw [h.key, hkey, ← htk]; rfl
    rw [henc] at htx
    refine ⟨[.use], ⟨?_, ?_, ?_, ?_⟩, ?_⟩
    · exact h.key.trans (by rw [stationStep, wifiStep, hlog])
    · rw [stationStep, wifiStep, htx]
      change (a.ctr + 1) % pnSpace = pnValue (wfIncPn s.ctx.txPn)
      rw [h.ctr, pnValue_wfIncPn]
    · have hnumber := keyAndNumber_nonce s.ctx.tk e.src (wfIncPn s.ctx.txPn)
      rw [pnValue_wfIncPn, ← h.ctr] at hnumber
      simp [stationStep, henc, keyStep, ha, h.used, hnumber, pnSpace]
    · exact hderived
    · rw [KeysInForce, Station.history, stationStep, wifiStep, hlog]
      rfl

end Step

theorem wifiDisconnect_cases (ctx : WifiCtx) : wifiDisconnect ctx = ctx ∨
      ((wifiDisconnect ctx).log = .attempt :: ctx.log ∧
        (wifiDisconnect ctx).txPn = zeroTable ccmpPnLen) := by
  unfold wifiDisconnect
  split
  · exact .inl rfl
  · exact .inr ⟨rfl, rfl⟩

theorem stationStep_refines (h : Refines s a) (call : StationCall)
    (hafter : SendsAfterMsg1 s call) :
    ∃ ops, Refines (stationStep s call) (run (keyStep pnSpace) a ops) ∧
      KeysInForce s (stationStep s call) ops := by
  cases call with
  | init mac => exact h.lapse (by rfl) rfl ((pnValue_eq_zero_iff _).mpr rfl)
  | call c =>
    have hsteps := wifiStep_keySteps s.ctx c
    cases c with
    | send frame txStatus => exact h.send frame txStatus hafter
    | disconnect =>
      have hstep : stationStep s (.call .disconnect) = { s with ctx := wifiDisconnect s.ctx } := rfl
      rw [hstep]
      obtain hsame | ⟨hlog, htx⟩ := wifiDisconnect_cases s.ctx
      · rw [hsame]
        exact ⟨[], h, rfl⟩
      · exact h.lapse (by rw [hlog]; rfl) (by rw [hlog]; rfl) ((pnValue_eq_zero_iff _).mpr htx)
    | scan heard => exact h.events hsteps (congrArg Prod.fst (wifiScan_pns s.ctx heard))
    | connect ssid passphrase rx =>
      exact h.events hsteps (congrArg Prod.fst (wifiConnect_pns s.ctx ssid passphrase rx))
    | processFrame own rx =>
      exact h.events hsteps (wifiProcessFrame_txPn s.ctx own rx)
    | recv rx => exact h.events hsteps (wifiRecv_txPn s.ctx rx)

theorem station_refines : ∀ (calls : List StationCall) (s : Station)
    (a : KeyedCounter (Table UInt8 aesKeySize)), Refines s a →
      Steps stationStep SendsAfterMsg1 s calls →
        ∃ ops, Refines (run stationStep s calls) (run (keyStep pnSpace) a ops) ∧
          KeysInForce s (run stationStep s calls) ops
  | [], _, _, h, _ => ⟨[], h, rfl⟩
  | call :: calls, s, a, h, ⟨hcall, hcalls⟩ => by
    obtain ⟨ops, hstep, hkeys⟩ := stationStep_refines h call hcall
    obtain ⟨ops', hrun, hkeys'⟩ := station_refines calls _ _ hstep hcalls
    refine ⟨ops ++ ops', run_append .. ▸ hrun, ?_⟩
    rw [KeysInForce, run_cons, hkeys', hkeys, rekeyed_append, reverse_append, append_assoc]

/-- With fresh nonces, keys that determine them and fewer than `2^48` frames a key: if every frame
is encrypted after a message 1 of its attempt, no key is used twice with one nonce. -/
theorem wifiSend_nonces_unique (mac : Mac) (calls : List StationCall)
    (hsnonce : (msg1Keys (run stationStep (boot mac) calls).history).Pairwise
      fun k k' => k.snonce ≠ k'.snonce)
    (hinj : ∀ k ∈ msg1Keys (run stationStep (boot mac) calls).history,
      ∀ k' ∈ msg1Keys (run stationStep (boot mac) calls).history,
        k.tk = k'.tk → k.anonce = k'.anonce ∧ k.snonce = k'.snonce)
    (hcount : ∀ tk, ((run stationStep (boot mac) calls).encrypted.map Prod.fst).count tk < 2 ^ 48)
    (hafter : Steps stationStep SendsAfterMsg1 (boot mac) calls) :
    (run stationStep (boot mac) calls).encrypted.Nodup := by
  obtain ⟨ops, href, hkeys⟩ := station_refines calls (boot mac) _ (refines_boot mac) hafter
  have hforce : (msg1Keys (run stationStep (boot mac) calls).history).map KeyInputs.tk
      = (rekeyed ops).reverse := hkeys.trans (List.append_nil _)
  have hfresh : (rekeyed ops).Nodup := by
    rw [← nodup_reverse, ← hforce]
    refine pairwise_map.mpr (hsnonce.imp_of_mem ?_)
    intro k k' hk hk' hne heq
    exact hne (hinj k hk k' hk' heq).2
  have hfst : (run (keyStep pnSpace) ⟨none, 0, []⟩ ops).used.map Prod.fst
      = (run stationStep (boot mac) calls).encrypted.map Prod.fst := by
    rw [href.used, map_map]
    rfl
  have hnodup := nodup_used (N := pnSpace) ops 0 hfresh fun k => by
    rw [hfst]
    exact Nat.le_of_lt (hcount k)
  rw [href.used] at hnodup
  exact List.Nodup.of_map _ hnodup

theorem length_encrypted_run (calls : List StationCall) (s : Station) :
    (run stationStep s calls).encrypted.length ≤ s.encrypted.length + calls.length := by
  induction calls generalizing s with
  | nil => exact Nat.le_refl _
  | cons call calls ih =>
    have hstep : (stationStep s call).encrypted.length ≤ s.encrypted.length + 1 := by
      cases call with
      | init mac => exact Nat.le_add_right ..
      | call c =>
        cases h : s.ctx.encryption c with
        | none | some p => simp [stationStep, h]
    have hrun := ih (stationStep s call)
    rw [run_cons, length_cons]
    omega

def someEther : EtherFrame := ⟨broadcastAddr, stationMac, 0x08, 0x00, [42]⟩

theorem log_of_msg1 (ctx : WifiCtx) {rx : RxFrame} {data : List UInt8} (own : Bool)
    (hpart : eapolPart rx.bytes = some data) (h : isMsg1 data = true) :
    ∃ key, (wifiProcessFrame ctx own rx).2.log = .msg1 key :: ctx.log := by
  obtain ⟨heq, rfl⟩ := wifiProcessFrame_of_eapolPart ctx own hpart
  rw [heq, wfProcessEapol, if_pos h]
  exact ⟨_, rfl⟩

def orderlyRun : List StationCall :=
  [.call (.processFrame false msg1Frame), .call (.processFrame false (msg3Frame afterMsg1.ptk)),
    .call (.send someEther.bytes .ok), .call (.send someEther.bytes .ok)]

def afterMsg3 : WifiCtx := wifiStep afterMsg1 (.processFrame false (msg3Frame afterMsg1.ptk))

theorem afterMsg3_log : ∃ key check, afterMsg3.log = [.msg3 check, .msg1 key, .attempt] := by
  obtain ⟨key, hlog1⟩ := log_of_msg1 (wifiInit stationMac) false
    (eapolPart_eapolFrame (eapolKeyFrame 0x008A (zeroTable 8) (replicate 32 7)
      (replicate 16 0) [])) (by decide)
  rw [← msg1Frame] at hlog1
  rw [afterMsg3, wifiStep, log_of_accepts false (accepts_msg3Frame afterMsg1 rfl), afterMsg1,
    wifiStep, hlog1]
  exact ⟨key, _, rfl⟩

theorem run_two_sends (ctx : WifiCtx) (rx rx' : RxFrame) (frame : List UInt8) (txStatus : HalStatus)
    (h : (lastMsg1 (wifiStep (wifiStep ctx (.processFrame false rx))
      (.processFrame false rx')).log).isSome = true) :
    Steps stationStep SendsAfterMsg1 ⟨ctx, [], []⟩
        [.call (.processFrame false rx), .call (.processFrame false rx'),
          .call (.send frame txStatus), .call (.send frame txStatus)] ∧
      (run stationStep ⟨ctx, [], []⟩
        [.call (.processFrame false rx), .call (.processFrame false rx'),
          .call (.send frame txStatus), .call (.send frame txStatus)]).history
        = (wifiStep (wifiStep ctx (.processFrame false rx)) (.processFrame false rx')).log := by
  have hsend : ∀ ctx : WifiCtx, (wifiStep ctx (.send frame txStatus)).log = ctx.log :=
    fun ctx => congrArg KeyView.log (wifiSend_keyView ctx frame txStatus)
  constructor
  · simp only [Steps, SendsAfterMsg1, stationStep]
    refine ⟨?_, ?_, fun _ _ _ => h, fun _ _ _ => ?_, trivial⟩
    · rintro c ⟨⟩ henc
      cases henc
    · rintro c ⟨⟩ henc
      cases henc
    · rw [hsend]
      exact h
  · simp only [run_cons, run_nil, stationStep, Station.history, hsend, append_nil]

theorem wifiSend_nonces_unique_orderly :
    (run stationStep (boot stationMac) orderlyRun).encrypted.Nodup := by
  obtain ⟨key, check, hlog⟩ := afterMsg3_log
  rw [afterMsg3] at hlog
  obtain ⟨hsteps, hhistory⟩ := run_two_sends (wifiInit stationMac) msg1Frame
    (msg3Frame afterMsg1.ptk) someEther.bytes .ok (by rw [← afterMsg1, hlog]; rfl)
  rw [← afterMsg1, hlog] at hhistory
  have hkeys : msg1Keys (run stationStep (boot stationMac) orderlyRun).history = [key] := by
    rw [boot, orderlyRun, hhistory]
    rfl
  refine wifiSend_nonces_unique stationMac orderlyRun ?_ ?_ ?_ hsteps
  · rw [hkeys]
    exact pairwise_singleton ..
  · rw [hkeys]
    intro k hk k' hk' _
    rw [mem_singleton.mp hk, mem_singleton.mp hk']
    exact ⟨rfl, rfl⟩
  · intro tk
    have hlen := length_encrypted_run orderlyRun (boot stationMac)
    have hcount := count_le_length (a := tk)
      (l := (run stationStep (boot stationMac) orderlyRun).encrypted.map Prod.fst)
    rw [length_map] at hcount
    exact Nat.lt_of_le_of_lt (Nat.le_trans hcount hlen) (by decide)

theorem encryption_after_forged (hptk : ctx.ptk = zeroTable ptkLen)
    (htx : ctx.txPn = zeroTable ccmpPnLen) (txStatus : HalStatus) :
    (wifiStep ctx (.processFrame false (msg3Frame (zeroTable ptkLen)))).encryption
        (.send someEther.bytes txStatus)
      = some (zeroTable aesKeySize, ccmpBuildNonce 0 stationMac.slots somePn) := by
  have hacc := accepts_msg3Frame ctx hptk
  have htk : (wifiProcessFrame ctx false (msg3Frame (zeroTable ptkLen))).2.tk =
      zeroTable aesKeySize := by
    simp only [WifiCtx.tk, ptk_of_accepts false hacc, hptk]
    rfl
  have hpn := (wifiProcessFrame_txPn ctx false (msg3Frame (zeroTable ptkLen))).trans htx
  have hinc : wfIncPn (zeroTable ccmpPnLen) = somePn := by decide
  rw [wifiStep, encryption_send _ someEther txStatus
    ⟨state_of_accepts false hacc, ptkInstalled_of_accepts false hacc⟩, htk, hpn, hinc]
  rfl

theorem disconnect_after_send (h : ctx.state = .connected) (frame : List UInt8)
    (txStatus : HalStatus) :
    (wifiDisconnect (wifiSend ctx frame txStatus).2).ptk = zeroTable ptkLen ∧
      (wifiDisconnect (wifiSend ctx frame txStatus).2).txPn = zeroTable ccmpPnLen ∧
      (wifiDisconnect (wifiSend ctx frame txStatus).2).log = .attempt :: ctx.log := by
  have hview := wifiSend_keyView ctx frame txStatus
  have hconn := (congrArg KeyView.state hview).trans h
  have hlog := congrArg KeyView.log hview
  generalize (wifiSend ctx frame txStatus).2 = sent at hconn hlog
  unfold wifiDisconnect
  rw [if_neg (by rw [show sent.state = .connected from hconn]; decide)]
  exact ⟨rfl, rfl, congrArg (WifiEvent.attempt :: ·) hlog⟩

def forgedRound : List StationCall :=
  [.call (.processFrame false (msg3Frame (zeroTable ptkLen))), .call (.send someEther.bytes .ok),
    .call .disconnect]

theorem run_forgedRound (hptk : s.ctx.ptk = zeroTable ptkLen)
    (htx : s.ctx.txPn = zeroTable ccmpPnLen) :
    (run stationStep s forgedRound).ctx.ptk = zeroTable ptkLen ∧
      (run stationStep s forgedRound).ctx.txPn = zeroTable ccmpPnLen ∧
      msg1Keys (run stationStep s forgedRound).history = msg1Keys s.history ∧
      (run stationStep s forgedRound).encrypted
        = (zeroTable aesKeySize, ccmpBuildNonce 0 stationMac.slots somePn) :: s.encrypted := by
  have henc := encryption_after_forged hptk htx .ok
  have hacc := accepts_msg3Frame s.ctx hptk
  obtain ⟨hptk', htx', hlog⟩ :=
    disconnect_after_send (state_of_accepts false hacc) someEther.bytes .ok
  have hlog' := log_of_accepts false hacc
  simp only [forgedRound, run_cons, run_nil, stationStep]
  refine ⟨hptk', htx', ?_, ?_⟩
  · simp only [Station.history, wifiStep, hlog, hlog']
    rfl
  · rw [henc]
    rfl

/-- Two forged connections use the all-zero key twice with the packet number 1. -/
theorem wifiSend_repeats_nonce :
    msg1Keys (run stationStep (boot stationMac) (forgedRound ++ forgedRound)).history = [] ∧
      (run stationStep (boot stationMac) (forgedRound ++ forgedRound)).encrypted
        = [(zeroTable aesKeySize, ccmpBuildNonce 0 stationMac.slots somePn),
           (zeroTable aesKeySize, ccmpBuildNonce 0 stationMac.slots somePn)] := by
  obtain ⟨hptk, htx, hkeys, henc⟩ := run_forgedRound (s := boot stationMac) rfl rfl
  obtain ⟨-, -, hkeys', henc'⟩ := run_forgedRound hptk htx
  rw [run_append, hkeys', henc', hkeys, henc]
  exact ⟨rfl, rfl⟩

end AlJefra.Network
