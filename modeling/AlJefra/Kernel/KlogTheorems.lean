/-
What a replay prints after a flush: the last entries logged, exactly if the flush writes each.
-/
import AlJefra.Kernel.Klog

namespace AlJefra.Kernel.Klog

open AlJefra.Lib List
open AlJefra.Kernel.Fs (CStr)

/-! ## The text of a message -/

structure Clean (max : Nat) (out : List UInt8) : Prop where
  fits : out.length ≤ max - 1
  noNul : (0 : UInt8) ∉ out

variable {max : Nat} {out : List UInt8}

theorem Clean.bufPutc (h : Clean max out) {c : UInt8} (hc : c ≠ 0) :
    Clean max (bufPutc max out c) := by
  unfold Klog.bufPutc
  split
  · next hlt =>
    refine ⟨?_, ?_⟩
    · rw [length_append, length_singleton]
      omega
    · rw [mem_append, mem_singleton]
      exact fun hmem => hmem.elim h.noNul (fun h0 => hc h0.symm)
  · exact h

theorem Clean.bufPutAll {bytes : List UInt8} (hbytes : (0 : UInt8) ∉ bytes) :
    ∀ {out : List UInt8}, Clean max out → Clean max (bufPutAll max out bytes) := by
  induction bytes with
  | nil => exact fun h => h
  | cons c bytes ih =>
    intro out h
    rw [mem_cons, not_or] at hbytes
    exact ih hbytes.2 (h.bufPutc (fun hc => hbytes.1 hc.symm))

theorem decimalDigits_ne_zero (fuel n : Nat) : (0 : UInt8) ∉ decimalDigits fuel n := by
  induction fuel generalizing n with
  | zero => exact not_mem_nil
  | succ fuel ih =>
    unfold decimalDigits
    split
    · exact not_mem_nil
    · rw [mem_cons, not_or]
      refine ⟨fun h0 => ?_, ih (n / 10)⟩
      have hval := congrArg UInt8.toNat h0
      rw [UInt8.toNat_ofNat'] at hval
      simp only [UInt8.toNat_zero] at hval
      omega

variable {i k n offset : Nat} {s : KlogState} {posted : List KlogEntry} {l : Logger}
  {left : Nat → UInt8} {file : Option LogFile} {env : FlushEnv} {outcome : Nat → WriteOutcome}

theorem hexDigit_ne_zero (hn : n < 16) : hexDigit n ≠ 0 := by
  intro h0
  have hval := congrArg UInt8.toNat h0
  rw [hexDigit, UInt8.toNat_ofNat'] at hval
  simp only [UInt8.toNat_zero] at hval
  split at hval <;> omega

theorem Clean.bufPutu (h : Clean max out) (val : UInt64) : Clean max (bufPutu max out val) := by
  unfold Klog.bufPutu
  split
  · exact h.bufPutc (by decide)
  · refine Clean.bufPutAll ?_ h
    rw [mem_reverse]
    exact decimalDigits_ne_zero 20 val.toNat

theorem Clean.bufPutd (h : Clean max out) (val : Int32) : Clean max (bufPutd max out val) := by
  refine Clean.bufPutu ?_ _
  split
  · exact h.bufPutc (by decide)
  · exact h

theorem Clean.bufPutx (h : Clean max out) (val : UInt64) : Clean max (bufPutx max out val) := by
  unfold Klog.bufPutx
  split
  · exact h.bufPutc (by decide)
  · refine Clean.bufPutAll (fun hmem => ?_) h
    obtain ⟨shift, -, hzero⟩ := mem_map.mp hmem
    exact hexDigit_ne_zero (Nat.mod_lt _ (by decide)) hzero

theorem Clean.bufPuts (h : Clean max out) (va : VaList) (p : UInt64) :
    Clean max (bufPuts max va out p) := by
  refine Clean.bufPutAll ?_ h
  split
  · decide
  · exact (va.text p).noNul

theorem Clean.formatSpec (h : Clean max out) (va : VaList) {spec : UInt8} (hspec : spec ≠ 0)
    (arg : Nat) : Clean max (formatSpec max va spec arg out).2 := by
  unfold Klog.formatSpec
  repeat' split
  · exact h.bufPutd _
  · exact h.bufPutu _
  · exact h.bufPutx _
  · exact (Clean.bufPutAll (by decide) h).bufPutx _
  · exact h.bufPuts va _
  · exact h.bufPutc (by decide)
  · exact (h.bufPutc (by decide)).bufPutc hspec

theorem Clean.klogVformatLoop (va : VaList) (fmt : List UInt8) (arg : Nat) (out : List UInt8)
    (hfmt : (0 : UInt8) ∉ fmt) (h : Clean max out) :
    Clean max (klogVformatLoop max va fmt arg out) := by
  induction fmt, arg, out using Klog.klogVformatLoop.induct max va with
  | case1 => exact h
  | case2 c arg out hput =>
    rw [Klog.klogVformatLoop, if_pos hput]
    exact h.bufPutc (fun hc => hfmt (by rw [hc]; exact mem_singleton_self 0))
  | case3 c arg out hput =>
    rw [Klog.klogVformatLoop, if_neg hput]
    exact h
  | case4 c spec fmt arg out hfull =>
    rw [Klog.klogVformatLoop, if_pos hfull]
    exact h
  | case5 c spec fmt arg out hroom hplain ih =>
    rw [Klog.klogVformatLoop, if_neg hroom, if_pos hplain]
    rw [mem_cons, not_or] at hfmt
    exact ih hfmt.2 (h.bufPutc (fun hc => hfmt.1 hc.symm))
  | case6 c spec fmt arg out hroom hplain r ih =>
    rw [Klog.klogVformatLoop, if_neg hroom, if_neg hplain]
    rw [mem_cons, mem_cons, not_or, not_or] at hfmt
    exact ih hfmt.2.2 (h.formatSpec va (fun hc => hfmt.2.1 hc.symm) arg)

theorem clean_klogVformat (max : Nat) (fmt : CStr) (va : VaList) :
    Clean max (klogVformat max fmt va) :=
  Clean.klogVformatLoop va fmt.bytes 0 [] fmt.noNul ⟨Nat.zero_le _, not_mem_nil⟩

/-! ## What a call records -/

structure Record where
  timestampNs : UInt64
  level : UInt32
  text : List UInt8
  deriving DecidableEq

def Record.line (r : Record) : ConsoleLine := entryLine r.timestampNs r.level r.text

def KlogEntry.record (e : KlogEntry) : Record :=
  ⟨e.timestampNs, e.level, e.msg.slots.takeWhile (· != 0)⟩

def KlogCall.record (c : KlogCall) : Record :=
  ⟨c.now, c.level, klogVformat klogMsgSize c.fmt c.va⟩

def KlogOp.records (minLevel : UInt32) : KlogOp → List Record
  | .log c => if c.level < minLevel then [] else [c.record]
  | .flush _ => []
  | .setLevel _ => []

def KlogOp.levelAfter (minLevel : UInt32) : KlogOp → UInt32
  | .log _ => minLevel
  | .flush _ => minLevel
  | .setLevel newLevel => newLevel

def recorded : UInt32 → List KlogOp → List Record
  | _, [] => []
  | minLevel, op :: ops => op.records minLevel ++ recorded (op.levelAfter minLevel) ops

theorem record_fill (c : KlogCall) (e : KlogEntry) : (c.fill e).record = c.record := by
  have hclean := clean_klogVformat klogMsgSize c.fmt c.va
  have hlen : 0 + (klogVformat klogMsgSize c.fmt c.va ++ [0]).length ≤ klogMsgSize := by
    have hfits := hclean.fits
    simp only [length_append, length_singleton, klogMsgSize] at hfits ⊢
    omega
  have htake := Table.take_write e.msg 0 (klogVformat klogMsgSize c.fmt c.va ++ [0]) hlen
  have hsplit := take_append_drop (0 + (klogVformat klogMsgSize c.fmt c.va ++ [0]).length)
    (e.msg.write 0 (klogVformat klogMsgSize c.fmt c.va ++ [0])).slots
  have htext : (e.msg.write 0 (klogVformat klogMsgSize c.fmt c.va ++ [0])).slots.takeWhile
      (· != 0) = klogVformat klogMsgSize c.fmt c.va := by
    rw [← hsplit, htake, take_zero, nil_append, append_assoc,
      takeWhile_append_of_pos, cons_append, takeWhile_cons_of_neg, append_nil]
    · decide
    · intro b hb
      rw [bne_iff_ne]
      rintro rfl
      exact hclean.noNul hb
  exact congrArg (Record.mk c.now c.level) htext

/-! ## The ring -/

structure Logs (s : KlogState) (posted : List KlogEntry) : Prop where
  initialized : s.initialized = true
  flushing : s.flushing = false
  head : s.head = posted.length % klogMaxEntries
  count : s.count = min posted.length klogMaxEntries
  ring : Recent klogMaxEntries s.ring posted

theorem logs_boot (s : KlogState) (file : Option LogFile) : Logs (Logger.boot s file).log [] :=
  ⟨rfl, rfl, rfl, rfl, Recent.nil⟩

theorem klogFlush_state (h : s.flushing = false) (file : Option LogFile) (env : FlushEnv) :
    (klogFlush s file env).2.1 = s := by
  have hsame : { s with flushing := false } = s := by
    cases s
    cases h
    rfl
  unfold klogFlush
  split
  · rfl
  · simp only [hsame]
    split
    · rfl
    · split <;> rfl

theorem klog_state (hinit : s.initialized = true) (hflush : s.flushing = false)
    (file : Option LogFile) (c : KlogCall) :
    (klog s file c).1 = if c.level < s.minLevel then s else s.push c := by
  have hpush : (s.push c).flushing = false := hflush
  unfold klog
  rw [if_neg (by simp [hinit])]
  by_cases hlevel : c.level < s.minLevel
  · rw [if_pos hlevel, if_pos hlevel]
  · rw [if_neg hlevel, if_neg hlevel]
    simp only
    split
    · exact klogFlush_state hpush file c.env
    · rfl

theorem Logs.push (h : Logs s posted) (c : KlogCall) :
    Logs (s.push c) (posted ++ [c.fill (s.ring s.head)]) where
  initialized := h.initialized
  flushing := h.flushing
  head := by
    rw [length_append, length_singleton, KlogState.push, h.head, Nat.mod_add_mod]
  count := by
    have hcount := h.count
    simp only [KlogState.push, length_append, length_singleton, klogMaxEntries] at hcount ⊢
    split <;> omega
  ring := by
    rw [KlogState.push, h.head]
    exact Recent.push h.ring _

theorem Logs.step (h : Logs l.log posted) (op : KlogOp) : ∃ posted', Logs (l.step op).log posted' ∧
      posted'.map KlogEntry.record = posted.map KlogEntry.record ++ op.records l.log.minLevel ∧
      (l.step op).log.minLevel = op.levelAfter l.log.minLevel := by
  cases op with
  | log c =>
    have hstate : (l.step (.log c)).log = _ := klog_state h.initialized h.flushing l.file c
    rw [hstate, KlogOp.records]
    by_cases hlevel : c.level < l.log.minLevel
    · rw [if_pos hlevel, if_pos hlevel]
      exact ⟨posted, h, (append_nil _).symm, rfl⟩
    · rw [if_neg hlevel, if_neg hlevel]
      refine ⟨_, h.push c, ?_, rfl⟩
      rw [map_append, map_singleton, record_fill]
  | flush env =>
    have hstate : (l.step (.flush env)).log = l.log := klogFlush_state h.flushing l.file env
    rw [hstate]
    exact ⟨posted, h, (append_nil _).symm, rfl⟩
  | setLevel minLevel =>
    have hlogs : Logs { l.log with minLevel := minLevel } posted :=
      ⟨h.initialized, h.flushing, h.head, h.count, h.ring⟩
    exact ⟨posted, hlogs, (append_nil _).symm, rfl⟩

theorem Logs.run (h : Logs l.log posted) (ops : List KlogOp) :
    ∃ posted', Logs (Lib.run Logger.step l ops).log posted' ∧ posted'.map KlogEntry.record =
        posted.map KlogEntry.record ++ recorded l.log.minLevel ops := by
  induction ops generalizing l posted with
  | nil => exact ⟨posted, h, by rw [recorded, append_nil]⟩
  | cons op ops ih =>
    obtain ⟨mid, hmid, hrecords, hlevel⟩ := h.step op
    obtain ⟨last, hlast, hall⟩ := ih hmid
    refine ⟨last, hlast, ?_⟩
    rw [hall, hrecords, hlevel, recorded, append_assoc]

/-! ## The file -/

def LogFile.Holds (f : LogFile) (off : Nat) (bytes : List UInt8) : Prop :=
  off + bytes.length ≤ f.size ∧ ∀ i, i < bytes.length → f.byte (off + i) = bytes.getD i 0

variable {f : LogFile} {off : Nat} {bytes : List UInt8}

theorem LogFile.Holds.read (h : f.Holds off bytes) : f.read off bytes.length = some bytes := by
  rw [LogFile.read, if_pos h.1, Option.some.injEq]
  refine ext_getElem (by simp) fun i _ hi => ?_
  rw [getElem_map, getElem_range, h.2 i hi, getD_eq_getElem?_getD,
    getElem?_eq_getElem hi, Option.getD_some]

theorem LogFile.holds_write (f : LogFile) (off : Nat) (bytes : List UInt8) :
    (f.write .done off bytes).2.Holds off bytes := by
  refine ⟨Nat.le_max_right _ _, fun i hi => ?_⟩
  simp only [LogFile.write]
  rw [if_pos ⟨Nat.le_add_right _ _, Nat.add_lt_add_left hi off⟩, Nat.add_sub_cancel_left]

theorem length_encode (e : KlogEntry) : e.encode.length = entrySize := by
  simp [KlogEntry.encode, length_leBytes, e.msg.length_slots, entrySize, klogMsgSize]

theorem LogFile.Holds.write (h : f.Holds off bytes) {at' : Nat} (hat : off + bytes.length ≤ at')
    (outcome : WriteOutcome) (buf : List UInt8) :
    (f.write outcome at' buf).2.Holds off bytes := by
  cases outcome with
  | done =>
    refine ⟨Nat.le_trans h.1 (Nat.le_max_left _ _), fun i hi => ?_⟩
    simp only [LogFile.write]
    rw [if_neg (by omega), h.2 i hi]
  | failed left =>
    refine ⟨h.1, fun i hi => ?_⟩
    simp only [LogFile.write]
    rw [if_neg (by omega), h.2 i hi]

section

variable (ring : Nat → KlogEntry) (start : Nat) (outcome : Nat → WriteOutcome)

theorem writeEntries_holds
    (n i : Nat) (f : LogFile) (h : f.Holds off bytes) (hoff : off + bytes.length ≤ offset) :
    (writeEntries ring start outcome n i offset f).Holds off bytes := by
  induction n generalizing i offset f with
  | zero => exact h
  | succ n ih =>
    rw [writeEntries]
    split
    · exact ih _ _ (h.write hoff _ _) (by omega)
    · exact h.write hoff _ _

theorem holds_writeEntries
    (n i offset : Nat) (f : LogFile) (hdone : ∀ k, k < n → outcome (i + k) = .done) :
    ∀ k, k < n → (writeEntries ring start outcome n i offset f).Holds (offset + k * entrySize)
      (ring ((start + (i + k)) % klogMaxEntries)).encode := by
  induction n generalizing i offset f with
  | zero => exact fun k hk => absurd hk (Nat.not_lt_zero k)
  | succ n ih =>
    intro k hk
    have hfirst : outcome i = .done := hdone 0 (Nat.succ_pos n)
    rw [writeEntries, hfirst]
    cases k with
    | zero =>
      exact writeEntries_holds ring start outcome n (i + 1) _ (LogFile.holds_write f _ _)
        (Nat.le_of_eq (congrArg _ (length_encode _)))
    | succ k =>
      have hrest := ih (i + 1) (offset + entrySize)
        (f.write .done offset (ring ((start + i) % klogMaxEntries)).encode).2
        (fun j hj => by rw [add_assoc, add_comm 1 j]; exact hdone (j + 1) (by omega))
        k (by omega)
      rw [add_assoc i 1 k, add_comm 1 k] at hrest
      rw [Nat.succ_mul, Nat.add_comm (k * entrySize), ← Nat.add_assoc]
      exact hrest

theorem byte_writeEntries_failed (n i offset : Nat) (f : LogFile) (hk : k < n)
    (hdone : ∀ j, j < k → outcome (i + j) = .done) (hfail : outcome (i + k) = .failed left)
    {x : Nat} (hlo : offset + k * entrySize ≤ x) (hhi : x < offset + k * entrySize + entrySize) :
    (writeEntries ring start outcome n i offset f).byte x = left x := by
  induction n generalizing i offset f k with
  | zero => exact absurd hk (Nat.not_lt_zero k)
  | succ n ih =>
    cases k with
    | zero =>
      rw [add_zero] at hfail
      rw [writeEntries, hfail]
      simp only [LogFile.write, length_encode]
      exact if_pos ⟨hlo, hhi⟩
    | succ k =>
      have hfirst : outcome i = .done := hdone 0 (Nat.succ_pos k)
      rw [writeEntries, hfirst]
      rw [Nat.succ_mul, Nat.add_comm (k * entrySize), ← Nat.add_assoc] at hlo hhi
      rw [← Nat.add_assoc, Nat.add_right_comm] at hfail
      exact ih (i + 1) (offset + entrySize) _ (by omega)
        (fun j hj => by rw [add_assoc, add_comm 1 j]; exact hdone (j + 1) (by omega))
        hfail hlo hhi

end

/-! ## The replay -/

theorem decode_encode (e : KlogEntry) : KlogEntry.decode e.encode = e := by
  have hts : leNat (leBytes 8 e.timestampNs.toNat) = e.timestampNs.toNat := by
    rw [leNat_leBytes]
    exact Nat.mod_eq_of_lt e.timestampNs.toNat_lt
  have hlevel : leNat (leBytes 4 e.level.toNat) = e.level.toNat := by
    rw [leNat_leBytes]
    exact Nat.mod_eq_of_lt e.level.toNat_lt
  have hlen8 : (leBytes 8 e.timestampNs.toNat).length = 8 := length_leBytes _ _
  have hlen4 : (leBytes 4 e.level.toNat).length = 4 := length_leBytes _ _
  have hlen : e.msg.slots.length = klogMsgSize := e.msg.length_slots
  have hassoc : e.encode = leBytes 8 e.timestampNs.toNat ++ (leBytes 4 e.level.toNat ++
      (e.msg.slots ++ replicate 4 0)) := by
    simp only [KlogEntry.encode, append_assoc]
  have hmsg : (Table.ofList 0 e.msg.slots : Table UInt8 klogMsgSize) = e.msg := by
    cases hmsg : e.msg with
    | mk slots hslots =>
      simp only [Table.ofList, Table.mk.injEq]
      exact take_left' hslots
  rw [KlogEntry.decode, hassoc, take_left' hlen8, drop_left' hlen8,
    take_left' hlen4, hts, hlevel, UInt64.ofNat_toNat, UInt32.ofNat_toNat]
  have hdrop : drop 12 (leBytes 8 e.timestampNs.toNat ++ (leBytes 4 e.level.toNat ++
      (e.msg.slots ++ replicate 4 0))) = e.msg.slots ++ replicate 4 0 := by
    rw [← append_assoc]
    exact drop_left' (by rw [length_append, hlen8, hlen4])
  rw [hdrop, take_left' hlen, hmsg]

theorem replayEntries_eq (n offset : Nat) (es : Nat → KlogEntry)
    (h : ∀ k, k < n → f.Holds (offset + k * entrySize) (es k).encode) :
    replayEntries f n offset = (range n).map (fun k => (es k).record.line) := by
  induction n generalizing offset es with
  | zero => rfl
  | succ n ih =>
    have hfirst := (h 0 (Nat.succ_pos n)).read
    rw [Nat.zero_mul, Nat.add_zero, length_encode] at hfirst
    have hrest := ih (offset + entrySize) (fun k => es (k + 1)) (fun k hk => by
      have hk' := h (k + 1) (by omega)
      rw [Nat.succ_mul, Nat.add_comm (k * entrySize), ← Nat.add_assoc] at hk'
      exact hk')
    rw [replayEntries, hfirst]
    simp only [decode_encode, hrest]
    rw [range_succ_eq_map, map_cons, map_map]
    rfl

theorem replayEntries_getElem? {line : ConsoleLine}
    (h : (replayEntries f n offset)[k]? = some line) :
    line = printEntry (KlogEntry.decode
      ((range entrySize).map fun i => f.byte (offset + k * entrySize + i))) := by
  induction n generalizing offset k with
  | zero => simp [replayEntries] at h
  | succ n ih =>
    rw [replayEntries, LogFile.read] at h
    by_cases hsize : offset + entrySize ≤ f.size
    · rw [if_pos hsize] at h
      cases k with
      | zero =>
        exact (Option.some.inj h).symm
      | succ k =>
        rw [Nat.succ_mul, Nat.add_comm (k * entrySize), ← Nat.add_assoc]
        exact ih h
    · rw [if_neg hsize] at h
      simp at h

theorem length_encodeHeader (entryCount head : Nat) :
    (encodeHeader entryCount head).length = headerSize := by
  simp [encodeHeader, length_leBytes, headerSize]

theorem replayFromDisk_eq {head : Nat} (hpos : 0 < n) (hn : n ≤ klogMaxEntries)
    (hheader : f.Holds 0 (encodeHeader n head)) :
    replayFromDisk (some f) = replayBegin :: replayEntries f n headerSize ++ [replayEnd] := by
  have hread := hheader.read
  have hsize := hheader.1
  rw [length_encodeHeader] at hread hsize
  have hlen4 : ∀ m, (leBytes 4 m).length = 4 := length_leBytes 4
  have hmagic : leNat ((encodeHeader n head).take 4) = klogMagic.toNat := by
    rw [encodeHeader, append_assoc, append_assoc, take_left' (hlen4 _), leNat_leBytes]
    exact Nat.mod_eq_of_lt (by decide)
  have hcount : leNat (((encodeHeader n head).drop 4).take 4) = n := by
    rw [encodeHeader, append_assoc, append_assoc, drop_left' (hlen4 _),
      take_left' (hlen4 _), leNat_leBytes]
    simp only [klogMaxEntries] at hn
    exact Nat.mod_eq_of_lt (by omega)
  simp only [replayFromDisk]
  rw [if_neg (by omega), hread]
  simp only [hmagic, hcount]
  rw [if_neg (by simp), if_neg (by omega), if_neg (by omega)]

theorem klogFlush_file (hinit : s.initialized = true) (hpos : 0 < s.count)
    (hret : (klogFlush s file env).1 = 0) :
    ∃ f, (klogFlush s file env).2.2 = some (writeEntries s.ring
      (oldestCell klogMaxEntries s.count s.head) env.entry s.count 0 headerSize f) ∧
      f.Holds 0 (encodeHeader s.count s.head) := by
  have hgo : ¬ (¬ s.initialized = true ∨ s.count = 0) := by
    rw [not_or, not_not]
    exact ⟨hinit, Nat.pos_iff_ne_zero.mp hpos⟩
  unfold klogFlush at hret ⊢
  rw [if_neg hgo] at hret ⊢
  cases hopen : openLog file env with
  | mk opened disk =>
    rw [hopen] at hret
    cases opened with
    | none => cases hret
    | some f =>
      cases hheader : env.header with
      | failed left =>
        rw [hheader] at hret
        cases hret
      | done =>
        exact ⟨(f.write .done 0 (encodeHeader s.count s.head)).2, rfl, LogFile.holds_write f _ _⟩

/-! ## Persistence -/

def lastRecords (records : List Record) : List Record :=
  records.drop (records.length - min records.length klogMaxEntries)

def logged (s : KlogState) (file : Option LogFile) (ops : List KlogOp) : Logger :=
  run Logger.step (Logger.boot s file) ops

theorem Logs.flush_replay (h : Logs s posted) (hsome : posted ≠ [])
    (hret : (klogFlush s file env).1 = 0) :
    ∃ f, replayFromDisk (klogFlush s file env).2.2 =
      replayBegin :: replayEntries (writeEntries s.ring (oldestCell klogMaxEntries s.count s.head)
        env.entry s.count 0 headerSize f) s.count headerSize ++ [replayEnd] := by
  have hlen : 0 < posted.length := length_pos_iff.mpr hsome
  have hpos : 0 < s.count := by
    rw [h.count]
    exact Nat.lt_min.mpr ⟨hlen, by decide⟩
  have hle : s.count ≤ klogMaxEntries := by
    rw [h.count]
    exact Nat.min_le_right _ _
  obtain ⟨f, hf, hheader⟩ := klogFlush_file h.initialized hpos hret
  refine ⟨f, ?_⟩
  rw [hf]
  exact replayFromDisk_eq hpos hle (writeEntries_holds _ _ _ _ _ _ hheader
    (Nat.le_of_eq (by rw [length_encodeHeader, Nat.zero_add])))

theorem Logs.replayEntries_done (h : Logs s posted) (hdone : ∀ i, i < s.count → outcome i = .done)
    (f : LogFile) :
    replayEntries (writeEntries s.ring (oldestCell klogMaxEntries s.count s.head) outcome s.count 0
      headerSize f) s.count headerSize =
      (lastRecords (posted.map KlogEntry.record)).map Record.line := by
  have hentries := holds_writeEntries s.ring (oldestCell klogMaxEntries s.count s.head) outcome
    s.count 0 headerSize f (fun k hk => by rw [zero_add]; exact hdone k hk)
  simp only [zero_add] at hentries
  have hlines := congrArg (map fun e => (KlogEntry.record e).line)
    (h.ring.oldestFirst h.count h.head)
  rw [map_map] at hlines
  rw [replayEntries_eq _ _ _ hentries, lastRecords, length_map, ← map_drop, map_map, ← h.count]
  exact hlines

/-- After any run `klog_dump` prints the last records, at most 128, the oldest first. -/
theorem klogDump_logged (s : KlogState) (file : Option LogFile) (ops : List KlogOp) :
    klogDump (logged s file ops).log =
      let last := lastRecords (recorded s.minLevel ops)
      if last = [] then [dumpEmpty]
      else dumpBegin last.length :: last.map Record.line ++ [dumpEnd] := by
  obtain ⟨posted, h, hrecords⟩ := (logs_boot s file).run ops
  change Logs (logged s file ops).log posted at h
  generalize (logged s file ops).log = t at h ⊢
  have hlast : lastRecords (recorded s.minLevel ops) = (range t.count).map fun i =>
      (t.ring ((oldestCell klogMaxEntries t.count t.head + i) % klogMaxEntries)).record := by
    rw [← show _ = recorded s.minLevel ops from hrecords, lastRecords, length_map, ← map_drop,
      ← h.count, ← h.ring.oldestFirst h.count h.head, map_map]
    rfl
  simp only [klogDump, h.initialized, hlast, map_eq_nil_iff, range_eq_nil, not_true_eq_false,
    false_or, length_map, length_range, map_map]
  rfl

def ConsoleLine.levelText : ConsoleLine → Option String
  | .text _ => none
  | .entry _ _ level _ => some level

theorem exists_other_level (name : String) :
    ∃ b : UInt8, levelName (UInt32.ofNat (leNat (replicate 4 b))) ≠ name := by
  by_cases h : name = "DEBUG"
  · exact ⟨0xFF, by rw [h]; decide⟩
  · exact ⟨0, fun h0 => h (h0.symm.trans (by decide))⟩

def FlushEnv.leave (env : FlushEnv) (left : Nat → UInt8) : FlushEnv :=
  { env with
    entry := fun i => match env.entry i with
      | .done => .done
      | .failed _ => .failed left }

theorem FlushEnv.leave_done (h : env.entry i = .done) : (env.leave left).entry i = .done := by
  simp only [FlushEnv.leave, h]

theorem FlushEnv.leave_failed {left' : Nat → UInt8} (h : env.entry i = .failed left') :
    (env.leave left).entry i = .failed left := by
  simp only [FlushEnv.leave, h]

theorem klogFlush_leave (s : KlogState) (file : Option LogFile) (env : FlushEnv)
    (left : Nat → UInt8) : (klogFlush s file (env.leave left)).1 = (klogFlush s file env).1 := by
  have hopen : openLog file (env.leave left) = openLog file env := rfl
  have hheader : (env.leave left).header = env.header := rfl
  unfold klogFlush
  split
  · rfl
  · simp only [hopen, hheader]
    cases openLog file env with
    | mk opened disk =>
      cases opened with
      | none => rfl
      | some f =>
        simp only
        split <;> rfl

theorem Logs.failed_line (h : Logs s posted) (hk : k < s.count)
    (hbefore : ∀ j, j < k → outcome j = .done) {b : UInt8} (hfail : outcome k = .failed fun _ => b)
    (f : LogFile)
    (hsame : replayEntries (writeEntries s.ring (oldestCell klogMaxEntries s.count s.head) outcome
      s.count 0 headerSize f) s.count headerSize =
        (lastRecords (posted.map KlogEntry.record)).map Record.line) :
    ∃ r, (lastRecords (posted.map KlogEntry.record))[k]? = some r ∧
      r.line.levelText = some (levelName (UInt32.ofNat (leNat (replicate 4 b)))) := by
  have hlen : k < (lastRecords (posted.map KlogEntry.record)).length := by
    have hcount := h.count
    rw [lastRecords, length_drop, length_map]
    omega
  refine ⟨_, getElem?_eq_getElem hlen, ?_⟩
  have hline := congrArg (fun lines => lines[k]?) hsame
  simp only [getElem?_map, getElem?_eq_getElem hlen, Option.map_some] at hline
  have hbytes : (range entrySize).map (fun i => (writeEntries s.ring
      (oldestCell klogMaxEntries s.count s.head) outcome s.count 0 headerSize f).byte
        (headerSize + k * entrySize + i)) = replicate entrySize b := by
    refine eq_replicate_iff.mpr ⟨by rw [length_map, length_range], fun c hc => ?_⟩
    obtain ⟨i, hi, rfl⟩ := mem_map.mp hc
    exact byte_writeEntries_failed s.ring _ outcome s.count 0 headerSize f hk
      (fun j hj => by rw [zero_add]; exact hbefore j hj) (by rw [zero_add]; exact hfail)
      (Nat.le_add_right _ _) (Nat.add_lt_add_left (mem_range.mp hi) _)
  rw [replayEntries_getElem? hline, hbytes]
  rfl

/-- After any run, a flush that returns 0 is followed by a replay of the last records, whatever a
failed write leaves, exactly if the writes of all entries succeed. -/
theorem klogFlush_replay_iff (s : KlogState) (file : Option LogFile) (ops : List KlogOp)
    (env : FlushEnv) (hsome : recorded s.minLevel ops ≠ [])
    (hret : (klogFlush (logged s file ops).log (logged s file ops).file env).1 = 0) :
    (∀ left, replayFromDisk (klogFlush (logged s file ops).log (logged s file ops).file
        (env.leave left)).2.2 =
      replayBegin :: (lastRecords (recorded s.minLevel ops)).map Record.line ++ [replayEnd]) ↔
      ∀ i, i < min (recorded s.minLevel ops).length klogMaxEntries → env.entry i = .done := by
  obtain ⟨posted, hlogs, hrecords⟩ := (logs_boot s file).run ops
  have hlogs : Logs (logged s file ops).log posted := hlogs
  have hrec : recorded s.minLevel ops = posted.map KlogEntry.record := hrecords.symm
  have hposted : posted ≠ [] := by
    rintro rfl
    exact hsome hrec
  rw [hrec, length_map, ← hlogs.count]
  have hreplay := fun left => hlogs.flush_replay hposted
    ((klogFlush_leave (logged s file ops).log (logged s file ops).file env left).trans hret)
  constructor
  · intro hall i
    -- the first write that fails leaves bytes that show another level
    induction i using Nat.strongRecOn with
    | ind i ih =>
      intro hi
      cases hout : env.entry i with
      | done => rfl
      | failed left' =>
        exfalso
        obtain ⟨b, hb⟩ := exists_other_level
          (levelName ((lastRecords (posted.map KlogEntry.record))[i]?.map Record.level |>.getD 0))
        obtain ⟨f, hf⟩ := hreplay fun _ => b
        rw [hall] at hf
        have hsame := append_cancel_right (List.cons.inj hf).2
        obtain ⟨r, hr, hlevel⟩ := hlogs.failed_line hi
          (fun j hj => FlushEnv.leave_done (ih j hj (by omega)))
          (FlushEnv.leave_failed hout) f hsame.symm
        rw [hr] at hb
        exact hb (Option.some.inj hlevel).symm
  · intro hdone left
    obtain ⟨f, hf⟩ := hreplay left
    rw [hf, hlogs.replayEntries_done (fun i hi => FlushEnv.leave_done (hdone i hi))]

/-! ## A write that fails -/

def coldLog : KlogState := ⟨fun _ => zeroEntry, 0, 0, 0, false, false⟩

def failingEnv (failing : List Nat) : FlushEnv where
  opens := true
  create := .done (fun _ => 0)
  reopens := true
  header := .done
  entry i := if i ∈ failing then .failed (fun _ => 0) else .done

def oneCall : List KlogOp :=
  [.log ⟨1, ⟨[0x68, 0x69], by decide⟩, ⟨fun _ => 0, fun _ => ⟨[], by decide⟩⟩, 5000000000,
    failingEnv []⟩]

theorem klogFlush_replay_twoCalls :
    replayFromDisk (klogFlush (logged coldLog none (oneCall ++ oneCall)).log
        (logged coldLog none (oneCall ++ oneCall)).file ((failingEnv []).leave fun _ => 0)).2.2 =
      [replayBegin, .entry 5 0 "INFO " [0x68, 0x69], .entry 5 0 "INFO " [0x68, 0x69], replayEnd] :=
  (klogFlush_replay_iff coldLog none (oneCall ++ oneCall) (failingEnv []) (by decide) rfl).mpr
    (fun _ _ => rfl) fun _ => 0

/-- The write of the only entry fails. `klog_flush` returns 0, and the
replay prints no entry. -/
theorem klogFlush_entry_lost :
    recorded coldLog.minLevel oneCall = [⟨5000000000, 1, [0x68, 0x69]⟩] ∧
    (klogFlush (logged coldLog none oneCall).log (logged coldLog none oneCall).file
      (failingEnv [0])).1 = 0 ∧
    replayFromDisk (klogFlush (logged coldLog none oneCall).log
      (logged coldLog none oneCall).file (failingEnv [0])).2.2 = [replayBegin, replayEnd] := by
  decide

end AlJefra.Kernel.Klog
