/-
Which event a transfer call takes. Events are consumed once and in ring order; a call takes its own
if it starts settled and no other event is posted while it polls (`Undisturbed`).
-/
import AlJefra.Arch.Aarch64Io
import AlJefra.Input.Xhci
import Mathlib.Data.List.Nodup

namespace AlJefra.Input.Xhci

open AlJefra.Hal List Option UInt32
open AlJefra.Lib

variable {δ : Type} (D : Dma δ)

/-! ## The event ring -/

theorem cycle_withCycle (trb : Trb) (cycle : Bool) : (trb.withCycle cycle).cycle = cycle := by
  cases cycle <;>
    simp only [Trb.cycle, Trb.withCycle, toNat_ofNat', Bool.toNat_true, Bool.toNat_false,
      beq_iff_eq, beq_eq_false_iff_ne] <;>
    omega

theorem type_withCycle (trb : Trb) (cycle : Bool) : (trb.withCycle cycle).type = trb.type := by
  cases cycle <;>
    simp only [Trb.type, Trb.withCycle, toNat_ofNat', Bool.toNat_true, Bool.toNat_false] <;>
    omega

def EventRing.Ok (r : EventRing) : Prop :=
  Channel (fun e => e.trb.cycle) xhciEvtRingSize r.cells r.posted r.enqueue r.phase r.taken
    r.evtDequeue r.evtCycle

theorem EventRing.fresh_ok : EventRing.fresh.Ok := Channel.nil (by decide) fun _ => rfl

theorem EventRing.Ok.post {r : EventRing} (h : r.Ok) (hfull : ¬ r.full) (e : Event) :
    (r.post e).Ok :=
  Channel.post h hfull (cycle_withCycle e.trb r.phase)

theorem EventRing.Ok.look {r : EventRing} (h : r.Ok) :
    (r.look = (none, r) ∧ r.taken = r.posted.length) ∨
    ∃ e r', r.look = (some e, r') ∧ r.posted[r.taken]? = some e ∧ r'.Ok := by
  have hnew : (r.cells r.evtDequeue).trb.cycle = r.evtCycle ↔ r.taken < r.posted.length :=
    Channel.isNew_iff h
  by_cases hlt : r.taken < r.posted.length
  · right
    have hget : r.posted[r.taken]? = some r.posted[r.taken] := getElem?_eq_getElem hlt
    have hnext := Channel.consume h hlt
    have hdequeue : r.evtDequeue < xhciEvtRingSize := by
      rw [h.head_eq]
      exact Nat.mod_lt _ h.size_pos
    have hcell : r.cells r.evtDequeue = r.posted[r.taken] := Channel.cell_eq h hget
    have hcycle := hnew.mpr hlt
    rw [hcell] at hcycle
    simp only [EventRing.look, hcell, if_pos hcycle]
    by_cases hwrap : xhciEvtRingSize ≤ r.evtDequeue + 1
    · have hmod : (r.evtDequeue + 1) % xhciEvtRingSize = 0 := by
        rw [show r.evtDequeue + 1 = xhciEvtRingSize from Nat.le_antisymm hdequeue hwrap,
          Nat.mod_self]
      rw [hmod, if_pos rfl] at hnext
      rw [if_pos hwrap]
      exact ⟨_, _, rfl, hget, hnext⟩
    · rw [Nat.mod_eq_of_lt (Nat.lt_of_not_le hwrap), if_neg (Nat.succ_ne_zero _)] at hnext
      rw [if_neg hwrap]
      exact ⟨_, _, rfl, hget, hnext⟩
  · left
    rw [EventRing.look, if_neg (mt hnew.mp hlt)]
    exact ⟨rfl, Nat.le_antisymm h.consumed_le (Nat.le_of_not_lt hlt)⟩

/-! ## What a call keeps -/

structure Kept (P : XhciState δ → Prop) : Prop where
  act : ∀ s e, P s → P (s.act e)
  look : ∀ s, P s → P { s with evt := s.evt.look.2 }

variable {r : Return} {P : XhciState δ → Prop} {s s' : XhciState δ} {rounds : List (List CtlrEvent)}
  {log : List Return} {m n : Nat} {e : Event} {data : List UInt8} {t : Transfer} {env : CallEnv}

theorem Kept.events (h : Kept P) (events : List CtlrEvent) (hs : P s) :
    P (run XhciState.act s events) :=
  run_invariant (P := P) h.act events s hs

theorem Kept.poll (h : Kept P) :
    ∀ (rounds : List (List CtlrEvent)) {s : XhciState δ}, P s → P (xhciPollEvent s rounds).2
  | [], _, hs => hs
  | events :: rounds, _, hs => by
    have hround := h.events events hs
    rw [xhciPollEvent]
    split
    · exact h.look _ hround
    · exact h.poll rounds hround

theorem Kept.awaitCommand (h : Kept P) :
    ∀ (polls : List (List (List CtlrEvent))) {s : XhciState δ}, P s → P (awaitCommand s polls).2
  | [], _, hs => hs
  | rounds :: polls, s, hs => by
    have hpoll := h.poll rounds hs
    rw [Xhci.awaitCommand]
    cases hresult : xhciPollEvent s rounds with
    | mk e s' =>
      rw [hresult] at hpoll
      cases e with
      | none => exact hpoll
      | some e =>
        simp only
        split
        · split <;> exact hpoll
        · exact h.awaitCommand polls hpoll

theorem act_cases (s : XhciState δ) (e : CtlrEvent) :
    s.act e = s ∨ ∃ event pending mem, ¬ s.evt.full ∧
      s.act e = { s with evt := s.evt.post event, pending := pending, mem := mem } := by
  unfold XhciState.act
  split
  · exact .inl rfl
  · rename_i hfull
    cases e with
    | transfer pos stage cc data =>
      simp only
      split
      · exact .inl rfl
      · exact .inr ⟨_, _, _, hfull, rfl⟩
    | portStatus port cc | cmdComplete trb cc slotId => exact .inr ⟨_, _, _, hfull, rfl⟩

def Carries (log : List Return) (nextId : Nat) (s : XhciState δ) : Prop :=
  s.evt.Ok ∧ s.log = log ∧ s.nextId = nextId

theorem kept_carries (log : List Return) (nextId : Nat) : Kept (@Carries δ log nextId) where
  act s e hs := by
    rcases act_cases s e with hsame | ⟨event, pending, mem, hfull, hact⟩
    · rw [hsame]
      exact hs
    · rw [hact]
      exact ⟨hs.1.post hfull event, hs.2⟩
  look s hs := by
    rcases hs.1.look with ⟨hnone, -⟩ | ⟨e, r, hsome, -, hr⟩
    · rw [hnone]
      exact hs
    · rw [hsome]
      exact ⟨hr, hs.2⟩

theorem poll_carries {e : Option Event} (hpoll : xhciPollEvent s rounds = (e, s')) (hok : s.evt.Ok)
    : Carries s.log s.nextId s' := by
  have hcarries := (kept_carries s.log s.nextId).poll rounds ⟨hok, rfl, rfl⟩
  rw [hpoll] at hcarries
  exact hcarries

/-! ## The law -/

def Return.report (r : Return) : Option Nat :=
  if r.interrupt ∧ r.status = .ok then r.event.bind fun e => e.transfer.map Prod.fst else none

def reported (log : List Return) : List Nat := log.filterMap Return.report

/-- `HAL_OK` is returned on an event of the same call, and a report once, with its own bytes. -/
structure Lawful (log : List Return) : Prop where
  attributed : ∀ r ∈ log, r.status = .ok →
    ∃ e, r.event = some e ∧ e.trb.type = xhciTrbTransferEvent ∧ e.trb.param ∈ r.trbs
  own : ∀ r ∈ log, r.interrupt = true → r.status = .ok →
    ∃ e id data, r.event = some e ∧ e.transfer = some (id, data) ∧
      (∀ bs, r.bytes = some bs → bs = data) ∧
      ∀ n, r.length = some n → n.toNat = data.length ∧ n.toNat ≤ 64
  once : (reported log).Nodup

structure Fair (log : List Return) (nextId : Nat) : Prop where
  lawful : Lawful log
  old : ∀ id ∈ reported log, id < nextId

theorem Fair.mono (h : Fair log n) (hle : n ≤ m) : Fair log m :=
  ⟨h.lawful, fun id hid => Nat.lt_of_lt_of_le (h.old id hid) hle⟩

theorem Fair.push (h : Fair log n) (hreport : r.interrupt = true → r.status ≠ .ok)
    (hok : r.status = .ok → ∃ e, r.event = some e ∧ e.trb.type = xhciTrbTransferEvent ∧
      e.trb.param ∈ r.trbs) : Fair (log ++ [r]) n := by
  have hnone : r.report = none := by
    rw [Return.report, if_neg fun hr => hreport hr.1 hr.2]
  have hsame : reported (log ++ [r]) = reported log := by
    rw [reported, filterMap_append, filterMap_cons_none hnone, filterMap_nil, append_nil, reported]
  refine ⟨⟨?_, ?_, hsame ▸ h.lawful.once⟩, hsame ▸ h.old⟩
  · intro r' hr'
    rcases mem_append.mp hr' with hmem | hlast
    · exact h.lawful.attributed r' hmem
    · obtain rfl := mem_singleton.mp hlast
      exact hok
  · intro r' hr' hint hst
    rcases mem_append.mp hr' with hmem | hlast
    · exact h.lawful.own r' hmem hint hst
    · obtain rfl := mem_singleton.mp hlast
      exact absurd hst (hreport hint)

theorem Fair.pushReport (h : Fair log n) (hevent : r.event = some e) (hint : r.interrupt = true)
    (hst : r.status = .ok) (htype : e.trb.type = xhciTrbTransferEvent)
    (hparam : e.trb.param ∈ r.trbs) (htransfer : e.transfer = some (n, data))
    (hbytes : ∀ bs, r.bytes = some bs → bs = data)
    (hlength : ∀ k, r.length = some k → k.toNat = data.length ∧ k.toNat ≤ 64) :
    Fair (log ++ [r]) (n + 1) := by
  have hreport : r.report = some n := by
    rw [Return.report, if_pos ⟨hint, hst⟩, hevent, bind_some, htransfer, map_some]
  have hreported : reported (log ++ [r]) = reported log ++ [n] := by
    rw [reported, filterMap_append, filterMap_cons_some hreport, filterMap_nil, reported]
  refine ⟨⟨?_, ?_, ?_⟩, ?_⟩
  · intro r' hr'
    rcases mem_append.mp hr' with hmem | hlast
    · exact h.lawful.attributed r' hmem
    · obtain rfl := mem_singleton.mp hlast
      exact fun _ => ⟨e, hevent, htype, hparam⟩
  · intro r' hr'
    rcases mem_append.mp hr' with hmem | hlast
    · exact h.lawful.own r' hmem
    · obtain rfl := mem_singleton.mp hlast
      exact fun _ _ => ⟨e, n, data, hevent, htransfer, hbytes, hlength⟩
  · rw [hreported, nodup_append]
    refine ⟨h.lawful.once, nodup_singleton n, ?_⟩
    intro id hid m hm
    rw [mem_singleton.mp hm]
    exact Nat.ne_of_lt (h.old id hid)
  · intro id hid
    rw [hreported] at hid
    rcases mem_append.mp hid with hmem | hlast
    · exact Nat.lt_succ_of_lt (h.old id hmem)
    · rw [mem_singleton.mp hlast]
      exact Nat.lt_succ_self n

/-! ## A call that is not disturbed -/

def XhciState.Settled (s : XhciState δ) : Prop :=
  s.evt.taken = s.evt.posted.length ∧ s.pending = []

def CtlrEvent.isTransfer : CtlrEvent → Bool
  | .transfer .. => true
  | _ => false

def quiet (rounds : List (List CtlrEvent)) : Bool :=
  rounds.all fun events => events.all CtlrEvent.isTransfer

structure Ends (t : Transfer) (mem : Pointer) (e : Event) : Prop where
  type : e.trb.type = xhciTrbTransferEvent
  param : e.trb.param ∈ t.trbs
  moved : ∃ data, e.transfer = some (t.id, data) ∧ data.length ≤ t.len ∧
    (t.len < 2 ^ 16 → e.trb.residual.toNat = t.len - data.length) ∧
    (t.deviceWrites = true → mem.bytes t.addr data.length = data)

def Awaits (t : Transfer) (s : XhciState δ) : Prop :=
  s.evt.Ok ∧
    ((s.pending = [t] ∧ s.evt.taken = s.evt.posted.length) ∨
      (s.pending = [] ∧ ∃ e, s.evt.posted[s.evt.taken]? = some e ∧ Ends t s.mem e))

theorem ends_event (t : Transfer) (stage : Nat) (cc : UInt8) (data : List UInt8) (phase : Bool)
    (mem : Pointer) :
    Ends t (if t.deviceWrites then mem.write t.addr (data.take t.len) else mem)
      { t.event stage cc (data.take t.len) with
        trb := (t.event stage cc (data.take t.len)).trb.withCycle phase } where
  type := by
    rw [type_withCycle]
    simp only [Trb.type, Transfer.event, toNat_ofNat', trbType, xhciTrbTransferEvent]
    omega
  param := by
    change t.trbs.getD stage t.trb ∈ t.trbs
    rw [getD_eq_getElem?_getD]
    cases hstage : t.trbs[stage]? with
    | none => exact mem_cons_self
    | some p => exact mem_of_getElem? hstage
  moved := by
    refine ⟨data.take t.len, rfl, length_take_le .., ?_, ?_⟩
    · intro hlen
      simp only [Trb.residual, Trb.withCycle, Transfer.event, toNat_ofNat',
        UInt16.toNat_ofNat']
      omega
    · intro hwrites
      rw [if_pos hwrites]
      exact Pointer.bytes_write_self ..

theorem Awaits.act (h : Awaits t s) {e : CtlrEvent} (he : e.isTransfer = true) :
    Awaits t (s.act e) := by
  unfold XhciState.act
  by_cases hfull : s.evt.full
  · rw [if_pos hfull]
    exact h
  · rw [if_neg hfull]
    cases e with
    | portStatus port cc | cmdComplete trb cc slotId => cases he
    | transfer pos stage cc data =>
      simp only
      obtain ⟨hok, ⟨hpending, hdrained⟩ | hended⟩ := h
      · cases pos with
        | succ pos =>
          rw [hpending, getElem?_cons_succ, getElem?_nil]
          exact ⟨hok, .inl ⟨hpending, hdrained⟩⟩
        | zero =>
          rw [hpending, getElem?_cons_zero, eraseIdx_cons_zero]
          refine ⟨hok.post hfull _, .inr ⟨rfl, _, ?_, ends_event t stage cc data s.evt.phase s.mem⟩⟩
          change (s.evt.posted ++ [_])[s.evt.taken]? = some _
          rw [hdrained, getElem?_concat_length]
      · rw [hended.1, getElem?_nil]
        exact ⟨hok, .inr hended⟩

theorem Awaits.events : ∀ (events : List CtlrEvent) {s : XhciState δ},
    Awaits t s → events.all CtlrEvent.isTransfer = true → Awaits t (run XhciState.act s events)
  | [], _, h, _ => h
  | e :: events, _, h, hquiet => by
    rw [all_cons, Bool.and_eq_true] at hquiet
    exact Awaits.events events (h.act hquiet.1) hquiet.2

theorem Awaits.poll : ∀ (rounds : List (List CtlrEvent)) {s : XhciState δ},
    Awaits t s → quiet rounds = true →
    (xhciPollEvent s rounds).1 = none ∨
      ∃ e, (xhciPollEvent s rounds).1 = some e ∧ Ends t (xhciPollEvent s rounds).2.mem e ∧
        (xhciPollEvent s rounds).2.pending = []
  | [], _, _, _ => .inl rfl
  | events :: rounds, s, h, hquiet => by
    rw [quiet, all_cons, Bool.and_eq_true] at hquiet
    have hround := h.events events hquiet.1
    simp only [xhciPollEvent]
    generalize run XhciState.act s events = s' at hround ⊢
    rcases hround.1.look with ⟨hnone, -⟩ | ⟨e, r, hsome, hnext, -⟩
    · rw [hnone]
      exact Awaits.poll rounds hround hquiet.2
    · rw [hsome]
      right
      rcases hround.2 with ⟨-, hdrained⟩ | ⟨hpending, e', hnext', hends⟩
      · rw [hdrained, getElem?_eq_none (Nat.le_refl _)] at hnext
        cases hnext
      · rw [hnext, some.injEq] at hnext'
        exact ⟨e, rfl, hnext' ▸ hends, hpending⟩

theorem queue_poll {slotId dci : Nat} {p : UInt64} {ps : List UInt64} {addr len : Nat}
    {deviceWrites : Bool}
    (hpoll : xhciPollEvent (s.queue slotId dci (p :: ps) addr len deviceWrites) rounds =
      (some e, s'))
    (hok : s.evt.Ok) (hsettled : s.Settled) (hquiet : quiet rounds = true) :
    Ends ⟨s.nextId, slotId, dci, p, ps, addr, len, deviceWrites⟩ s'.mem e ∧ s'.pending = [] := by
  have hawaits : Awaits ⟨s.nextId, slotId, dci, p, ps, addr, len, deviceWrites⟩
      (s.queue slotId dci (p :: ps) addr len deviceWrites) := by
    refine ⟨hok, .inl ⟨?_, hsettled.1⟩⟩
    rw [XhciState.queue, hsettled.2]
    rfl
  have htaken := hawaits.poll rounds hquiet
  rw [hpoll] at htaken
  rcases htaken with hnone | ⟨e', he', hends⟩
  · cases hnone
  · cases he'
    exact hends

theorem kept_still (mem : Pointer) :
    Kept (fun s : XhciState δ => s.pending = [] ∧ s.mem = mem) where
  act s e hs := by
    unfold XhciState.act
    split
    · exact hs
    · cases e with
      | transfer pos stage cc data =>
        simp only
        rw [hs.1, getElem?_nil]
        exact hs
      | portStatus port cc | cmdComplete trb cc slotId => exact hs
  look _ hs := hs

/-! ## The calls -/

structure Sound (s : XhciState δ) : Prop where
  ring : s.evt.Ok
  fair : Fair s.log s.nextId

theorem Carries.sound (h : Carries log n s) (hfair : Fair log n) : Sound s := by
  obtain ⟨hok, rfl, rfl⟩ := h
  exact ⟨hok, hfair⟩

theorem Sound.setDma (h : Sound s) (dma : δ) : Sound { s with dma := dma } := ⟨h.ring, h.fair⟩

theorem Sound.setBuffer (h : Sound s) (dma : δ) (mem : Pointer) :
    Sound { s with dma := dma, mem := mem } :=
  ⟨h.ring, h.fair⟩

theorem Sound.putNormal (h : Sound s) (slotId : Nat) (pipe : Pipe) (ep : Endpoint) (phys len : Nat)
    : Sound (s.putNormal slotId pipe ep phys len) :=
  ⟨h.ring, h.fair⟩

theorem Sound.carries (h : Sound s) : Carries s.log s.nextId s := ⟨h.ring, rfl, rfl⟩

theorem kept_sound : Kept (@Sound δ) where
  act s e hs := ((kept_carries _ _).act s e hs.carries).sound hs.fair
  look s hs := ((kept_carries _ _).look s hs.carries).sound hs.fair

theorem Carries.record (h : Carries log n s) (hfair : Fair (log ++ [r]) m) (hle : m ≤ n) :
    Sound (s.record r) := by
  obtain ⟨hok, rfl, rfl⟩ := h
  exact ⟨hok, hfair.mono hle⟩

theorem xhciDoControl_sound (hs : Sound s) (hsettled : s.Settled) (slotId : Nat) (q : Request)
    (dataPhys : Nat) (hquiet : quiet rounds = true) :
    Sound (xhciDoControl s slotId q dataPhys rounds).2 := by
  simp only [xhciDoControl, Request.trbs, enqueueAll]
  split
  · exact hs
  · split
    · rename_i s' hpoll
      refine (poll_carries hpoll hs.ring).record (hs.fair.push ?_ ?_) (Nat.le_succ _)
      · intro hint
        cases hint
      · intro hok
        cases hok
    · rename_i e s' hpoll
      obtain ⟨hends, -⟩ := queue_poll hpoll hs.ring hsettled hquiet
      refine (poll_carries hpoll hs.ring).record (hs.fair.push ?_ ?_) (Nat.le_succ _)
      · intro hint
        cases hint
      · intro _
        exact ⟨e, rfl, hends.type, hends.param⟩

theorem xhciControlTransfer_sound (hs : Sound s) (hsettled : s.Settled) (slotId : Nat)
    (q : Request) (data : Option Pointer) (hquiet : quiet rounds = true) :
    Sound (xhciControlTransfer D s slotId q data rounds).2 := by
  simp only [xhciControlTransfer]
  split
  · exact xhciDoControl_sound hs hsettled slotId q 0 hquiet
  · split
    · exact ⟨hs.ring, hs.fair⟩
    · refine Sound.setDma (xhciDoControl_sound ?_ ?_ slotId q _ hquiet) _
      · exact ⟨hs.ring, hs.fair⟩
      · exact hsettled

theorem actual_toNat {bufLen : UInt16} (hle : data.length ≤ bufLen.toNat)
    (hresidual : e.trb.residual.toNat = bufLen.toNat - data.length) :
    (bufLen - e.trb.residual).toNat = data.length := by
  have hlt := bufLen.toNat_lt
  rw [UInt16.toNat_sub, hresidual]
  omega

structure Logged (log : List Return) (r : Return × XhciState δ) : Prop where
  ring : r.2.evt.Ok
  log_eq : r.2.log = log
  fair : Fair (log ++ [r.1]) r.2.nextId

theorem Carries.setDma (h : Carries log n s) (dma : δ) : Carries log n { s with dma := dma } := h

theorem Carries.logged (h : Carries log n s) (hfair : Fair log m) (hle : m ≤ n)
    (hst : r.status ≠ .ok) : Logged log (r, s) :=
  ⟨h.1, h.2.1, h.2.2 ▸ (hfair.push (fun _ => hst) fun hok => absurd hok hst).mono hle⟩

theorem collect_logged (hs : Sound s) (hsettled : s.Settled) (slotId dci : Nat)
    (p : UInt64) (phys : Nat) {late : HalStatus} (hlate : late ≠ .ok) (buf length : Bool)
    (hquiet : quiet env.rounds = true) :
    Logged s.log (collect D (s.queue slotId dci [p] phys (64 : UInt16).toNat true) phys 64 [p]
      late buf length env) := by
  unfold collect
  cases hpoll : xhciPollEvent (s.queue slotId dci [p] phys (64 : UInt16).toNat true) env.rounds with
  | mk e s' =>
    have hcarries : Carries s.log (s.nextId + 1) s' := poll_carries hpoll hs.ring
    cases e with
    | none => exact (hcarries.setDma _).logged hs.fair (Nat.le_succ _) hlate
    | some e =>
      obtain ⟨hends, hpending⟩ := queue_poll hpoll hs.ring hsettled hquiet
      obtain ⟨data, htransfer, hle, hresidual, hmem⟩ := hends.moved
      have hactual := actual_toNat hle (hresidual (UInt16.toNat_lt 64))
      have hafter := (kept_carries s.log (s.nextId + 1)).events env.beforeCopy hcarries
      have hstill := (kept_still s'.mem).events env.beforeCopy ⟨hpending, rfl⟩
      simp only
      split
      · refine ⟨hafter.1, hafter.2.1, ?_⟩
        rw [hafter.2.2]
        refine hs.fair.pushReport rfl rfl rfl hends.type hends.param htransfer ?_ ?_
        · intro bs hbs
          split at hbs
          · rw [some.injEq, hactual, hstill.2, hmem rfl] at hbs
            exact hbs.symm
          · cases hbs
        · intro n hn
          simp only at hn
          split at hn
          · rw [some.injEq] at hn
            rw [← hn, hactual]
            exact ⟨rfl, hle⟩
          · cases hn
      · exact (hafter.setDma _).logged hs.fair (Nat.le_succ _) HalStatus.noConfusion

theorem xhciPollInterrupt_sound (hs : Sound s) (hsettled : s.Settled) (slotId : Nat)
    (buf length : Bool) (hquiet : quiet env.rounds = true) :
    Sound (xhciPollInterrupt D s slotId buf length env).2 := by
  have hlogged : Logged s.log (receive D s slotId .interrupt 64 .noDevice buf length env) := by
    have herror := hs.carries.logged hs.fair (Nat.le_refl _)
      (r := ⟨true, .error, [], none, none, none⟩) HalStatus.noConfusion
    unfold receive
    split
    · exact herror
    · split
      · exact herror
      · split
        · exact herror
        · split
          · exact (hs.carries.setDma _).logged hs.fair (Nat.le_refl _) HalStatus.noConfusion
          · exact collect_logged D ((hs.setBuffer _ _).putNormal ..) hsettled _ _ _ _
              HalStatus.noConfusion _ _ hquiet
  refine ⟨hlogged.ring, ?_⟩
  have hfair := hlogged.fair
  rw [← hlogged.log_eq] at hfair
  exact hfair

/-! ## The other calls -/

theorem Sound.queue (h : Sound s) (slotId dci : Nat) (trbs : List UInt64) (addr len : Nat)
    (deviceWrites : Bool) :
    Sound (s.queue slotId dci trbs addr len deviceWrites) :=
  ⟨h.ring, h.fair.mono (Nat.le_succ _)⟩

theorem Sound.setSlot (h : Sound s) (slotId : Nat) (slot : Slot) (dma : δ) :
    Sound { s.setSlot slotId slot with dma := dma } :=
  ⟨h.ring, h.fair⟩

section

variable (hs : Sound s)
include hs

theorem collect_sound (phys : Nat) (bufLen : UInt16) (trbs : List UInt64)
    (late : HalStatus) (buf length : Bool) (env : CallEnv) :
    Sound (collect D s phys bufLen trbs late buf length env).2 := by
  have hpoll := kept_sound.poll env.rounds hs
  unfold collect
  cases hresult : xhciPollEvent s env.rounds with
  | mk e s' =>
    rw [hresult] at hpoll
    cases e with
    | none => exact hpoll.setDma _
    | some e =>
      have hafter := kept_sound.events env.beforeCopy hpoll
      simp only
      split <;> exact hafter.setDma _

theorem xhciBulkRecv_sound (slotId : Nat) (bufLen : UInt16)
    (buf length : Bool) (env : CallEnv) :
    Sound (xhciBulkRecv D s slotId bufLen buf length env).2 := by
  unfold xhciBulkRecv receive
  split
  · exact hs
  · split
    · exact hs
    · split
      · exact hs
      · split
        · exact hs.setDma _
        · exact collect_sound D (((hs.setBuffer _ _).putNormal ..).queue ..) _ _ _ _ _ _ _

theorem xhciBulkSend_sound (slotId : Nat) (data : Pointer)
    (length : UInt16) (rounds : List (List CtlrEvent)) :
    Sound (xhciBulkSend D s slotId data length rounds).2 := by
  unfold xhciBulkSend
  split
  · exact hs
  · split
    · exact hs
    · split
      · exact hs
      · split
        · exact hs.setDma _
        · rename_i ep _ _ phys dma _
          have hpoll := kept_sound.poll rounds
            (((hs.setBuffer dma (s.mem.write phys (data.bytes 0 length.toNat))).putNormal slotId
              .bulkOut ep phys length.toNat).queue slotId ep.dci [ep.ring.pointer] phys
              length.toNat false)
          simp only
          split <;> exact hpoll.setDma _

theorem xhciSendCommand_sound (cmd : Trb) (polls : List (List (List CtlrEvent))) :
    Sound (xhciSendCommand s cmd polls).2 :=
  kept_sound.awaitCommand polls ⟨hs.ring, hs.fair⟩

theorem sendContext_sound (type slotId ictx : Nat)
    (polls : List (List (List CtlrEvent))) : Sound (sendContext D s type slotId ictx polls).2 :=
  (xhciSendCommand_sound hs _ polls).setDma _

theorem configureEp_sound (slotId : Nat)
    (polls : List (List (List CtlrEvent))) : Sound (configureEp D s slotId polls).2 := by
  unfold configureEp
  split
  · exact hs.setDma _
  · exact sendContext_sound D (hs.setDma _) _ _ _ polls

theorem xhciPortReset_sound (port speed : Nat)
    (polls : List (List (List CtlrEvent))) : Sound (xhciPortReset D s port speed polls).2 := by
  have hsent := xhciSendCommand_sound hs ⟨0, 0, UInt32.ofNat (trbType xhciTrbEnableSlot)⟩ polls
  unfold xhciPortReset
  split
  · rename_i hresult
    rw [hresult] at hsent
    simp only
    split
    · exact hsent
    · split <;> exact hsent.setSlot _ _ _
  · rename_i hresult
    rw [hresult] at hsent
    exact hsent

theorem xhciAddressDevice_sound (slotId : Nat)
    (polls : List (List (List CtlrEvent))) : Sound (xhciAddressDevice D s slotId polls).2 := by
  unfold xhciAddressDevice
  split
  · exact hs
  · split
    · exact hs
    · split
      · exact hs.setDma _
      · split
        · exact hs.setDma _
        · exact sendContext_sound D (hs.setDma _) _ _ _ polls

theorem xhciConfigureInterruptEp_sound (slotId epNum : Nat)
    (polls : List (List (List CtlrEvent))) :
    Sound (xhciConfigureInterruptEp D s slotId epNum polls).2 := by
  unfold xhciConfigureInterruptEp
  split
  · exact hs
  · split
    · exact hs
    · split
      · exact hs.setSlot _ _ _
      · exact configureEp_sound D (hs.setSlot _ _ _) slotId polls

theorem xhciConfigureBulkEps_sound (slotId inEpNum outEpNum : Nat)
    (polls : List (List (List CtlrEvent))) :
    Sound (xhciConfigureBulkEps D s slotId inEpNum outEpNum polls).2 := by
  unfold xhciConfigureBulkEps
  split
  · exact hs
  · split
    · exact hs
    · split
      · exact hs.setSlot _ _ _
      · simp only
        split
        · exact (hs.setSlot _ _ _).setSlot _ _ _
        · exact configureEp_sound D ((hs.setSlot _ _ _).setSlot _ _ _) slotId polls

end

/-! ## Every run -/

/-- No event waits and nothing is queued before the call, and only transfers end during it. -/
def Undisturbed (s : XhciState δ) : XhciOp → Prop
  | .doControl _ _ _ rounds => s.Settled ∧ quiet rounds = true
  | .controlTransfer _ _ _ rounds => s.Settled ∧ quiet rounds = true
  | .pollInterrupt _ _ _ env => s.Settled ∧ quiet env.rounds = true
  | _ => True

theorem step_sound (s : XhciState δ) (op : XhciOp) (hs : Sound s)
    (hop : Undisturbed s op) : Sound (s.step D op) := by
  cases op with
  | doControl slotId q dataPhys rounds =>
    exact xhciDoControl_sound hs hop.1 slotId q dataPhys hop.2
  | controlTransfer slotId q data rounds =>
    exact xhciControlTransfer_sound D hs hop.1 slotId q data hop.2
  | pollInterrupt slotId buf length env =>
    exact xhciPollInterrupt_sound D hs hop.1 slotId buf length hop.2
  | bulkRecv slotId bufLen buf length env =>
    exact xhciBulkRecv_sound D hs slotId bufLen buf length env
  | bulkSend slotId data length rounds => exact xhciBulkSend_sound D hs slotId data length rounds
  | sendCommand cmd polls => exact xhciSendCommand_sound hs cmd polls
  | portReset port speed polls => exact xhciPortReset_sound D hs port speed polls
  | addressDevice slotId polls => exact xhciAddressDevice_sound D hs slotId polls
  | configureInterruptEp slotId epNum polls =>
    exact xhciConfigureInterruptEp_sound D hs slotId epNum polls
  | configureBulkEps slotId inEpNum outEpNum polls =>
    exact xhciConfigureBulkEps_sound D hs slotId inEpNum outEpNum polls
  | controller events => exact kept_sound.events events hs

/-- In every run without disturbed calls they return on events of their own, and reports as they
came. -/
theorem calls_take_own_events (maxSlots : Nat) (slots : Nat → Slot)
    (cmdRing : XferRing) (dma : δ) (mem : Pointer) (ops : List XhciOp)
    (h : Steps (XhciState.step D) Undisturbed (.boot maxSlots slots cmdRing dma mem) ops) :
    Lawful (run (XhciState.step D) (.boot maxSlots slots cmdRing dma mem) ops).log := by
  have hboot : Sound (XhciState.boot maxSlots slots cmdRing dma mem) :=
    ⟨EventRing.fresh_ok, ⟨⟨by simp [XhciState.boot], by simp [XhciState.boot], nodup_nil⟩,
      by simp [XhciState.boot, reported]⟩⟩
  exact (run_invariant_of_steps (P := Sound) (C := Undisturbed) (step_sound D) ops _ hboot
    h).fair.lawful

def oneDevice : Slot where
  active := true
  port := 1
  speed := 3
  ep0 := .fresh 0x1000
  endpoints
    | .interrupt => some ⟨.fresh 0x2000, 3⟩
    | .bulkIn => some ⟨.fresh 0x3000, 5⟩
    | .bulkOut => none

def oneSlot : XhciState Nat :=
  .boot 1 (fun _ => oneDevice) (.fresh 0x4000) Arch.Aarch64.dmaPoolBase fun _ => 0

def setConfig : Request := ⟨0x00, 9, 1, 0, 0⟩

def reportThenRequest : List XhciOp :=
  [.pollInterrupt 1 true true ⟨[[], [.transfer 0 0 13 [1, 2, 3]]], []⟩,
    .doControl 1 setConfig 0 [[.transfer 0 1 1 []]]]

theorem reportThenRequest_lawful :
    Lawful (run (XhciState.step Arch.Aarch64.aarch64Dma) oneSlot reportThenRequest).log ∧
    (run (XhciState.step Arch.Aarch64.aarch64Dma) oneSlot reportThenRequest).log.map Return.bytes =
      [some [1, 2, 3], none] := by
  refine ⟨calls_take_own_events _ _ _ _ _ _ _ ?_, by decide +kernel⟩
  exact ⟨⟨⟨by decide +kernel, by decide +kernel⟩, by decide +kernel⟩,
    ⟨⟨by decide +kernel, by decide +kernel⟩, by decide +kernel⟩, trivial⟩

def portChange : List XhciOp := [.doControl 1 setConfig 0 [[.portStatus 1 1]]]

def lateReport : List XhciOp :=
  [.pollInterrupt 1 true true ⟨[], []⟩, .controller [.transfer 0 0 13 [1, 2, 3]],
    .pollInterrupt 1 true true ⟨[[]], []⟩]

def lateBulk : List XhciOp :=
  [.bulkRecv 1 1514 true true ⟨[], []⟩, .controller [.transfer 0 0 13 [7]],
    .pollInterrupt 1 false true ⟨[[]], []⟩]

def portEvent : Event := ⟨⟨0x1000000, 0x1000000, 0x8801⟩, none⟩
def lateEvent : Event := ⟨⟨0x2000, 0x0D00003D, 0x1038001⟩, some (0, [1, 2, 3])⟩
def lateBulkEvent : Event := ⟨⟨0x3000, 0x0D0005E9, 0x1058001⟩, some (0, [7])⟩

/-- A request returns on a port status change, an interrupt call with a late report or length. -/
theorem calls_take_other_events :
    ¬ Lawful (run (XhciState.step Arch.Aarch64.aarch64Dma) oneSlot portChange).log ∧
    ¬ Lawful (run (XhciState.step Arch.Aarch64.aarch64Dma) oneSlot lateReport).log ∧
    ¬ Lawful (run (XhciState.step Arch.Aarch64.aarch64Dma) oneSlot lateBulk).log := by
  have hport : (run (XhciState.step Arch.Aarch64.aarch64Dma) oneSlot portChange).log =
      [⟨false, .ok, [0x1000, 0x1010], some portEvent, none, none⟩] := by decide +kernel
  have hlate : (run (XhciState.step Arch.Aarch64.aarch64Dma) oneSlot lateReport).log =
      [⟨true, .noDevice, [0x2000], none, none, none⟩,
        ⟨true, .ok, [0x2010], some lateEvent, some [0, 0, 0], some 3⟩] := by decide +kernel
  have hbulk : (run (XhciState.step Arch.Aarch64.aarch64Dma) oneSlot lateBulk).log =
      [⟨true, .ok, [0x2000], some lateBulkEvent, none, some 64087⟩] := by decide +kernel
  rw [hport, hlate, hbulk]
  refine ⟨?_, ?_, ?_⟩
  · intro h
    obtain ⟨e, he, htype, -⟩ := h.attributed _ mem_cons_self rfl
    cases he
    exact absurd htype (by decide)
  · intro h
    obtain ⟨e, id, data, he, hdata, hbytes, -⟩ :=
      h.own _ (mem_cons_of_mem _ mem_cons_self) rfl rfl
    cases he
    cases hdata
    exact absurd (hbytes _ rfl) (by decide)
  · intro h
    obtain ⟨e, id, data, -, -, -, hlength⟩ := h.own _ mem_cons_self rfl rfl
    exact absurd (hlength _ rfl).2 (by decide)

end AlJefra.Input.Xhci
