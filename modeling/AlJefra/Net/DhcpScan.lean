/- Which options of a packet are a reply's own. -/
import AlJefra.Net.DhcpDiscover
import AlJefra.Net.DhcpTheorems

namespace AlJefra.Net.Dhcp

open AlJefra.Lib AlJefra.Hal List

/-! ## The walk without its fuel -/

@[irreducible] def parseFrom (opt : Pointer) (s : ParseState) : ParseState :=
  parseLoop opt optionsSize s

theorem lt_i_parseStep (opt : Pointer) (s : ParseState) : s.i < (parseStep opt s).i := by
  rw [i_parseStep]
  unfold nextOption
  split <;> omega

variable {opt : Pointer} {s : ParseState}

theorem parseLoop_fuel : ∀ (fuel fuel' : Nat) (s : ParseState),
    optionsSize ≤ s.i + fuel → optionsSize ≤ s.i + fuel' →
    parseLoop opt fuel s = parseLoop opt fuel' s := by
  intro fuel
  induction fuel with
  | zero =>
    intro fuel' s h _
    have hend : ¬ s.i < optionsSize := by omega
    unfold parseLoop
    simp [hend]
  | succ fuel ih =>
    intro fuel' s h h'
    by_cases hi : s.i < optionsSize
    · by_cases hend : opt s.i = optEnd
      · unfold parseLoop
        simp [hi, hend]
      · obtain ⟨k, rfl⟩ : ∃ k, fuel' = k + 1 := ⟨fuel' - 1, by omega⟩
        have hmove := lt_i_parseStep opt s
        unfold parseLoop
        simp only [hi, hend, not_true_eq_false, if_false]
        exact ih k (parseStep opt s) (by omega) (by omega)
    · unfold parseLoop
      simp [hi]

theorem parseFrom_step (hi : s.i < optionsSize) (hend : opt s.i ≠ optEnd) :
    parseFrom opt s = parseFrom opt (parseStep opt s) := by
  have hmove := lt_i_parseStep opt s
  have hsize : optionsSize = 311 + 1 := rfl
  have hloop : parseLoop opt (311 + 1) s = parseLoop opt 311 (parseStep opt s) := by
    rw [parseLoop]
    simp only [hi, hend, not_true_eq_false, if_false]
  rw [parseFrom, parseFrom, ← parseLoop_fuel 311 optionsSize (parseStep opt s) (by omega)
    (by omega), ← hloop, hsize]

theorem parseFrom_end (hend : s.i < optionsSize → opt s.i = optEnd) :
    (parseFrom opt s).msgType = s.msgType ∧ (parseFrom opt s).lease = s.lease := by
  unfold parseFrom parseLoop
  by_cases hi : s.i < optionsSize
  · simp [hi, hend hi]
  · simp [hi]

/-! ## The fields of a lease by their options -/

def LeaseOption (c : UInt8) : Prop :=
  c = optSubnetMask ∨ c = optRouter ∨ c = optDns ∨ c = optLeaseTime ∨ c = optServerId

def DhcpLease.field (lease : DhcpLease) (c : UInt8) : UInt32 :=
  if c = optSubnetMask then lease.subnetMask
  else if c = optRouter then lease.gateway
  else if c = optDns then lease.dnsServer
  else if c = optLeaseTime then lease.leaseTime
  else lease.serverIp

theorem field_setOption {c : UInt8} (hc : LeaseOption c) (lease : DhcpLease) (code : UInt8)
    (v : UInt32) :
    (lease.setOption code v).field c = if c = code then v else lease.field c := by
  by_cases h : c = code
  · subst h
    obtain rfl | rfl | rfl | rfl | rfl := hc <;> rfl
  · unfold DhcpLease.setOption
    split_ifs <;> obtain rfl | rfl | rfl | rfl | rfl := hc <;> first | rfl | simp_all

/-! ## The scan -/

inductive Field where
  | kept
  | set (v : UInt32)
  | stray
  deriving DecidableEq, Repr

structure Verdict where
  type : Option UInt8 := some 0
  value : UInt8 → Field := fun _ => .kept

def Verdict.lost (v : Verdict) : Verdict := { v with type := none }

def Verdict.setValue (v : Verdict) (code : UInt8) (x : Field) : Verdict :=
  { v with value := fun c => if c = code then x else v.value c }

def Verdict.option (v : Verdict) (f : Pointer) (i : Nat) : Verdict :=
  if f i = optMsgType then { v with type := some (f (i + 2)) }
  else if valueRead (f i) (f (i + 1)) = 4 then v.setValue (f i) (.set (ntohlAt f (i + 2)))
  else v

def Verdict.cut (v : Verdict) (code : UInt8) (next : Nat) : Verdict :=
  if code = optMsgType ∨ next < optionsSize then v.lost else v.setValue code .stray

def scan (f : Pointer) (m : Nat) : Nat → Nat → Verdict → Verdict
  | fuel, i, v =>
    if ¬ i < optionsSize then v
    else if m ≤ i then v.lost
    else if f i = optEnd then v
    else match fuel with
    | 0 => v
    | fuel + 1 =>
      if f i = 0 then scan f m fuel (i + 1) v
      else if m ≤ i + 1 then v.cut (f i) (i + 2)
      else if m < i + 2 + valueRead (f i) (f (i + 1)) then
        v.cut (f i) (i + 2 + (f (i + 1)).toNat)
      else scan f m fuel (i + 2 + (f (i + 1)).toNat) (v.option f i)

/-! ## What the scan settles -/

structure Settles (v : Verdict) (lease : DhcpLease) (s : ParseState) : Prop where
  type : v.type = some s.msgType
  kept : ∀ c, LeaseOption c → v.value c = .kept → s.lease.field c = lease.field c
  set : ∀ c x, LeaseOption c → v.value c = .set x → s.lease.field c = x

section Own

variable {f opt : Pointer} {m : Nat}

theorem ntohlAt_shift {p q : Pointer} {off d : Nat} (h : ∀ k < off + 4, p k = q (d + k)) :
    ntohlAt p off = ntohlAt q (d + off) := by
  have hbytes : p.bytes off 4 = q.bytes (d + off) 4 := by
    refine map_congr_left fun k hk => ?_
    rw [mem_range] at hk
    rw [h _ (by omega), add_assoc]
  rw [ntohlAt, hbytes, ntohlAt]

theorem ntohlAt_congr {p q : Pointer} {off : Nat} (h : ∀ k < off + 4, p k = q k) :
    ntohlAt p off = ntohlAt q off := by
  simpa using ntohlAt_shift (d := 0) (by simpa using h)

variable {s : ParseState} {c x : UInt8} {v : Verdict} {lease : DhcpLease} {i k next : Nat}
  {tail : Pointer}

theorem parseStep_of_pad (h : opt s.i = 0) :
    (parseStep opt s).msgType = s.msgType ∧ (parseStep opt s).lease = s.lease := by
  simp [parseStep, h]

theorem i_parseStep_of_pad (h : opt s.i = 0) : (parseStep opt s).i = s.i + 1 := by
  simp [i_parseStep, nextOption, h]

theorem i_parseStep_of_option (h : opt s.i ≠ 0) :
    (parseStep opt s).i = s.i + 2 + (opt (s.i + 1)).toNat := by
  simp [i_parseStep, nextOption, h]

theorem field_parseStep (opt : Pointer) (s : ParseState) (hpad : opt s.i ≠ 0) (hc : LeaseOption c) :
    (parseStep opt s).lease.field c =
      if c = opt s.i ∧ valueRead (opt s.i) (opt (s.i + 1)) = 4 then ntohlAt opt (s.i + 2)
      else s.lease.field c := by
  simp only [parseStep, hpad, if_false]
  by_cases h4 : valueRead (opt s.i) (opt (s.i + 1)) = 4
  · simp [h4, field_setOption hc]
  · simp [h4]

theorem msgType_parseStep (opt : Pointer) (s : ParseState) (hpad : opt s.i ≠ 0) :
    (parseStep opt s).msgType = if opt s.i = optMsgType then opt (s.i + 2) else s.msgType := by
  simp [parseStep, hpad]

theorem Settles.congr {s' : ParseState} (hv : Settles v lease s) (ht : s'.msgType = s.msgType)
    (hl : ∀ c, LeaseOption c → s'.lease.field c = s.lease.field c) : Settles v lease s' where
  type := ht ▸ hv.type
  kept c hc hk := (hl c hc).trans (hv.kept c hc hk)
  set c x hc hx := (hl c hc).trans (hv.set c x hc hx)

theorem Settles.setValue {s' : ParseState} {code : UInt8} {r : Field} (hv : Settles v lease s)
    (ht : s'.msgType = s.msgType) (hkept : r ≠ .kept)
    (hcode : ∀ x, LeaseOption code → r = .set x → s'.lease.field code = x)
    (hl : ∀ c, LeaseOption c → c ≠ code → s'.lease.field c = s.lease.field c) :
    Settles (v.setValue code r) lease s' := by
  refine ⟨ht ▸ hv.type, fun c hc hk => ?_, fun c x hc hx => ?_⟩
  · by_cases hcc : c = code
    · exact absurd (by simpa [Verdict.setValue, hcc] using hk) hkept
    · rw [hl c hc hcc]
      exact hv.kept c hc (by simpa [Verdict.setValue, hcc] using hk)
  · by_cases hcc : c = code
    · subst hcc
      exact hcode x hc (by simpa [Verdict.setValue] using hx)
    · rw [hl c hc hcc]
      exact hv.set c x hc (by simpa [Verdict.setValue, hcc] using hx)

theorem Settles.of_pad (hv : Settles v lease s) (hpad : opt s.i = 0) :
    Settles v lease (parseStep opt s) := by
  obtain ⟨ht, hl⟩ := parseStep_of_pad hpad
  exact hv.congr ht fun _ _ => by rw [hl]

theorem Settles.of_option (hf : ∀ k < m, opt k = f k) (hv : Settles v lease s) (hpad : f s.i ≠ 0)
    (hlen : s.i + 1 < m) (hval : s.i + 2 + valueRead (f s.i) (f (s.i + 1)) ≤ m) :
    Settles (v.option f s.i) lease (parseStep opt s) := by
  have hcode : opt s.i = f s.i := hf _ (by omega)
  have hbyte : opt (s.i + 1) = f (s.i + 1) := hf _ hlen
  have htype := msgType_parseStep opt s (hcode ▸ hpad)
  have hfield : ∀ c, LeaseOption c → (parseStep opt s).lease.field c = _ := fun c hc =>
    field_parseStep opt s (hcode ▸ hpad) hc
  rw [hcode] at htype
  simp only [hcode, hbyte] at hfield
  unfold Verdict.option
  by_cases h53 : f s.i = optMsgType
  · have hread : valueRead (f s.i) (f (s.i + 1)) = 1 := by simp [valueRead, h53]
    rw [if_pos h53] at htype ⊢
    simp only [hread, Nat.reduceEqDiff, and_false, if_false] at hfield
    exact ⟨by rw [htype, hf _ (by omega)], fun c hc hk => (hfield c hc).trans (hv.kept c hc hk),
      fun c x hc hx => (hfield c hc).trans (hv.set c x hc hx)⟩
  · rw [if_neg h53] at htype ⊢
    by_cases h4 : valueRead (f s.i) (f (s.i + 1)) = 4
    · have hv4 : ntohlAt opt (s.i + 2) = ntohlAt f (s.i + 2) :=
        ntohlAt_congr fun k hk => hf k (by omega)
      simp only [h4, and_true, hv4] at hfield
      rw [if_pos h4]
      refine hv.setValue htype (by simp) (fun x hc hx => ?_) fun c hc hcc => ?_
      · rw [hfield _ hc, if_pos rfl]
        exact Field.set.inj hx
      · rw [hfield c hc, if_neg hcc]
    · simp only [h4, and_false, if_false] at hfield
      rw [if_neg h4]
      exact hv.congr htype hfield

theorem Settles.of_cut (hv : Settles v lease s) (hpad : opt s.i ≠ 0) (h53 : opt s.i ≠ optMsgType) :
    Settles (v.setValue (opt s.i) .stray) lease (parseStep opt s) := by
  have htype := msgType_parseStep opt s hpad
  rw [if_neg h53] at htype
  refine hv.setValue htype (by simp) (fun x _ hx => by cases hx) fun c hc hcc => ?_
  rw [field_parseStep opt s hpad hc, if_neg (fun h => hcc h.1)]

theorem Settles.of_end (hv : Settles v lease s) (hend : s.i < optionsSize → opt s.i = optEnd) :
    Settles v lease (parseFrom opt s) := by
  obtain ⟨ht, hl⟩ := parseFrom_end hend
  exact hv.congr ht fun _ _ => by rw [hl]

theorem Settles.of_cut_end (hv : Settles v lease s) (hi : s.i < optionsSize)
    (hne : opt s.i ≠ optEnd) (hpad : opt s.i ≠ 0) (hnext : next ≤ (parseStep opt s).i)
    (hopen : (v.cut (opt s.i) next).type ≠ none) :
    Settles (v.cut (opt s.i) next) lease (parseFrom opt s) := by
  unfold Verdict.cut at hopen ⊢
  split at hopen
  · exact absurd rfl hopen
  · rename_i h
    obtain ⟨h53, hlast⟩ := not_or.mp h
    rw [if_neg h, parseFrom_step hi hne]
    exact (hv.of_cut hpad h53).of_end fun hlt => absurd hlt (by omega)

theorem scan_settles (hf : ∀ k < m, opt k = f k) (fuel i : Nat) (v : Verdict)
    (hfuel : optionsSize ≤ i + fuel) (hopen : (scan f m fuel i v).type ≠ none) (s : ParseState)
    (hs : s.i = i) (hv : Settles v lease s) :
    Settles (scan f m fuel i v) lease (parseFrom opt s) := by
  fun_induction scan f m fuel i v generalizing s with
  | case1 _ _ _ hi =>
    subst hs
    exact hv.of_end fun h => absurd h hi
  | case2 => exact absurd rfl hopen
  | case3 _ _ _ _ hm hend =>
    subst hs
    exact hv.of_end fun _ => (hf _ (by omega)).trans hend
  | case4 => omega
  | case5 _ v hi hm hend fuel hpad ih =>
    subst hs
    have hcode : opt s.i = f s.i := hf _ (by omega)
    rw [parseFrom_step (not_not.mp hi) (hcode ▸ hend)]
    exact ih (by omega) hopen _ (i_parseStep_of_pad (hcode.trans hpad))
      (hv.of_pad (hcode.trans hpad))
  | case6 _ v hi hm hend fuel hpad hlen =>
    subst hs
    have hcode : opt s.i = f s.i := hf _ (by omega)
    rw [← hcode] at hopen hpad hend ⊢
    have hnext := i_parseStep_of_option hpad
    exact hv.of_cut_end (not_not.mp hi) hend hpad (by omega) hopen
  | case7 _ v hi hm hend fuel hpad hlen hval =>
    subst hs
    have hcode : opt s.i = f s.i := hf _ (by omega)
    rw [← hcode] at hopen hpad hend ⊢
    have hnext := i_parseStep_of_option hpad
    rw [hf (s.i + 1) (by omega)] at hnext
    exact hv.of_cut_end (not_not.mp hi) hend hpad (by omega) hopen
  | case8 _ v hi hm hend fuel hpad hlen hval ih =>
    subst hs
    have hcode : opt s.i = f s.i := hf _ (by omega)
    have hnext := i_parseStep_of_option (hcode ▸ hpad)
    rw [hf (s.i + 1) (by omega)] at hnext
    rw [parseFrom_step (not_not.mp hi) (hcode ▸ hend)]
    exact ih (by omega) hopen _ hnext (hv.of_option hf hpad (by omega) (by omega))

/-! ## What the scan leaves open -/

def overlay (f : Pointer) (m : Nat) (tail : Pointer) : Pointer := fun k =>
  if k < m then f k else tail k

theorem overlay_own (f tail : Pointer) (h : k < m) : overlay f m tail k = f k := if_pos h

theorem overlay_tail (f tail : Pointer) (h : m ≤ k) : overlay f m tail k = tail k :=
  if_neg (by omega)

theorem msgType_of_tail (hi : s.i < optionsSize) (hcode : opt s.i = optMsgType)
    (hx : opt (s.i + 2) = x) (hend : ∀ k, s.i + 2 < k → opt k = optEnd)
    (hkind : x = dhcpOfferType ∨ x = dhcpAckType ∨ x = optEnd) : (parseFrom opt s).msgType = x := by
  have hpad : opt s.i ≠ 0 := by rw [hcode]; decide
  have hne : opt s.i ≠ optEnd := by rw [hcode]; decide
  have htype := msgType_parseStep opt s hpad
  rw [if_pos hcode, hx] at htype
  have hnext := i_parseStep_of_option hpad
  rw [parseFrom_step hi hne, ← htype]
  by_cases hstop : (parseStep opt s).i < optionsSize → opt (parseStep opt s).i = optEnd
  · exact (parseFrom_end hstop).1
  · -- the length is 0, and the value is the code of a last option
    obtain ⟨hi2, hne2⟩ := Classical.not_imp.mp hstop
    have hat : (parseStep opt s).i = s.i + 2 := by
      by_contra hfar
      exact hne2 (hend _ (by omega))
    have hx2 : opt (parseStep opt s).i = x := by rw [hat, hx]
    have hx0 : opt (parseStep opt s).i ≠ 0 ∧ opt (parseStep opt s).i ≠ optMsgType := by
      rw [hx2]
      obtain rfl | rfl | rfl := hkind <;> decide
    rw [parseFrom_step hi2 hne2, (parseFrom_end ?_).1, msgType_parseStep _ _ hx0.1, if_neg hx0.2]
    intro _
    refine hend _ ?_
    have := lt_i_parseStep opt (parseStep opt s)
    omega

def typeTail (i : Nat) (x : UInt8) : Pointer := fun k =>
  if k = i then optMsgType else if k = i + 2 then x else optEnd

def skipTail (i : Nat) (x : UInt8) : Pointer := fun k =>
  if k = i + 1 then 0 else typeTail (i + 2) x k

theorem msgType_typeTail (hkind : x = dhcpOfferType ∨ x = dhcpAckType ∨ x = optEnd)
    (hi : s.i < optionsSize) (hm : m ≤ s.i + 2) (hcode : s.i < m → f s.i = optMsgType)
    (htail : ∀ k, s.i ≤ k → m ≤ k → tail k = typeTail s.i x k) :
    (parseFrom (overlay f m tail) s).msgType = x := by
  refine msgType_of_tail hi ?_ ?_ ?_ hkind
  · by_cases h : s.i < m
    · rw [overlay_own f tail h, hcode h]
    · rw [overlay_tail f tail (by omega), htail _ (by omega) (by omega), typeTail, if_pos rfl]
  · rw [overlay_tail f tail hm, htail _ (by omega) hm, typeTail, if_neg (by omega), if_pos rfl]
  · intro k hk
    rw [overlay_tail f tail (by omega), htail _ (by omega) (by omega), typeTail,
      if_neg (by omega), if_neg (by omega)]

theorem parseFrom_overlay_step (hi : s.i < optionsSize) (hm : s.i < m) (hend : f s.i ≠ optEnd)
    (hnext : nextOption (overlay f m tail) s.i = next) :
    ∃ s' : ParseState, s'.i = next ∧
      parseFrom (overlay f m tail) s = parseFrom (overlay f m tail) s' := by
  refine ⟨parseStep (overlay f m tail) s, by rw [i_parseStep, hnext], parseFrom_step hi ?_⟩
  rw [overlay_own f tail hm]
  exact hend

def Forced (f : Pointer) (m i : Nat) (P : ParseState → Prop) : Prop :=
  ∃ tail : Pointer, ∀ s : ParseState, s.i = i → P (parseFrom (overlay f m tail) s)

theorem Forced.step {P : ParseState → Prop} (h : Forced f m next P) (hi : i < optionsSize)
    (hm : i < m) (hend : f i ≠ optEnd) (hnext : ∀ tail, nextOption (overlay f m tail) i = next) :
    Forced f m i P := by
  obtain ⟨tail, htail⟩ := h
  refine ⟨tail, ?_⟩
  rintro s rfl
  obtain ⟨s', hs', hstep⟩ := parseFrom_overlay_step hi hm hend (hnext tail)
  rw [hstep]
  exact htail s' hs'

theorem nextOption_overlay_pad (hm : i < m) (hpad : f i = 0) (tail : Pointer) :
    nextOption (overlay f m tail) i = i + 1 := by
  simp [nextOption, overlay_own f tail hm, hpad]

theorem nextOption_overlay_own (hm : i + 1 < m) (hpad : f i ≠ 0) (tail : Pointer) :
    nextOption (overlay f m tail) i = i + 2 + (f (i + 1)).toNat := by
  simp [nextOption, overlay_own f tail hm, overlay_own f tail (show i < m by omega), hpad]

theorem nextOption_overlay_zero (tail : Pointer) (hm : i < m) (hlen : m ≤ i + 1) (hpad : f i ≠ 0)
    (hzero : tail (i + 1) = 0) : nextOption (overlay f m tail) i = i + 2 := by
  simp [nextOption, overlay_own f tail hm, overlay_tail f tail hlen, hpad, hzero]

theorem valueRead_eq {code : UInt8} (len : UInt8) (h53 : code ≠ optMsgType) :
    valueRead code len = 0 ∨ valueRead code len = 4 ∧ 4 ≤ len.toNat := by
  unfold valueRead
  rw [if_neg h53]
  split
  · split
    · rename_i h
      exact .inr ⟨rfl, UInt8.le_iff_toNat_le.mp h⟩
    · exact .inl rfl
  · exact .inl rfl

theorem scan_type_open (hkind : x = dhcpOfferType ∨ x = dhcpAckType ∨ x = optEnd) (fuel i : Nat)
    (v : Verdict) (hfuel : optionsSize ≤ i + fuel) (hv : v.type ≠ none)
    (hopen : (scan f m fuel i v).type = none) :
    Forced f m i (·.msgType = x) := by
  fun_induction scan f m fuel i v with
  | case1 => exact absurd hopen hv
  | case2 fuel i v hi hm =>
    refine ⟨typeTail i x, ?_⟩
    rintro s rfl
    exact msgType_typeTail hkind (not_not.mp hi) (by omega) (fun h => by omega) fun _ _ _ => rfl
  | case3 => exact absurd hopen hv
  | case4 => omega
  | case5 i v hi hm hend fuel hpad ih =>
    exact (ih (by omega) hv hopen).step (not_not.mp hi) (Nat.not_le.mp hm) hend
      (nextOption_overlay_pad (Nat.not_le.mp hm) hpad)
  | case6 i v hi hm hend fuel hpad hlen =>
    by_cases h53 : f i = optMsgType
    · refine ⟨typeTail i x, ?_⟩
      rintro s rfl
      exact msgType_typeTail hkind (not_not.mp hi) (by omega) (fun _ => h53) fun _ _ _ => rfl
    · -- length 0, so that the walk goes on at the next byte
      have hi2 : i + 2 < optionsSize := by
        by_contra hlast
        simp [Verdict.cut, h53, hlast, Verdict.setValue, hv] at hopen
      refine ⟨skipTail i x, ?_⟩
      rintro s rfl
      obtain ⟨s', hs', hstep⟩ := parseFrom_overlay_step (not_not.mp hi) (Nat.not_le.mp hm) hend
        (nextOption_overlay_zero (skipTail s.i x) (Nat.not_le.mp hm) hlen hpad (if_pos rfl))
      rw [hstep]
      refine msgType_typeTail hkind (by omega) (by omega) (fun h => by omega) fun k hk _ => ?_
      rw [skipTail, if_neg (by omega), hs']
  | case7 i v hi hm hend fuel hpad hlen hval =>
    by_cases h53 : f i = optMsgType
    · have hread : valueRead (f i) (f (i + 1)) = 1 := by simp [valueRead, h53]
      refine ⟨typeTail i x, ?_⟩
      rintro s rfl
      exact msgType_typeTail hkind (not_not.mp hi) (by omega) (fun _ => h53) fun _ _ _ => rfl
    · have hnext : i + 2 + (f (i + 1)).toNat < optionsSize := by
        by_contra hlast
        simp [Verdict.cut, h53, hlast, Verdict.setValue, hv] at hopen
      have hread := valueRead_eq (f (i + 1)) h53
      refine ⟨typeTail (i + 2 + (f (i + 1)).toNat) x, ?_⟩
      rintro s rfl
      obtain ⟨s', hs', hstep⟩ := parseFrom_overlay_step (not_not.mp hi) (Nat.not_le.mp hm) hend
        (nextOption_overlay_own (Nat.not_le.mp hlen) hpad _)
      rw [hstep]
      refine msgType_typeTail hkind (by omega) (by omega) (fun h => by omega) fun _ _ _ => ?_
      rw [hs']
  | case8 i v hi hm hend fuel hpad hlen hval ih =>
    have hv' : (v.option f i).type ≠ none := by
      unfold Verdict.option
      split
      · simp
      · split <;> exact hv
    exact (ih (by omega) hv' hopen).step (not_not.mp hi) (Nat.not_le.mp hm) hend
      (nextOption_overlay_own (Nat.not_le.mp hlen) hpad)

theorem toUInt8_ntohlAt (p : Pointer) (off : Nat) : (ntohlAt p off).toUInt8 = p (off + 3) := by
  have hbytes : p.bytes off 4 = [p off, p (off + 1), p (off + 2), p (off + 3)] := rfl
  have hlt := (p (off + 3)).toNat_lt
  apply UInt8.toNat_inj.mp
  rw [ntohlAt, hbytes, UInt32.toNat_toUInt8, ntohl, UInt32.toNat_ofNat']
  simp only [drop_zero, take, reverse_cons, reverse_nil, nil_append,
    cons_append, leNat]
  omega

theorem field_of_tail {b : UInt8} (hc : LeaseOption c) (hi : s.i < optionsSize)
    (hcode : opt s.i = c) (hread : valueRead c (opt (s.i + 1)) = 4)
    (hlast : optionsSize ≤ s.i + 2 + (opt (s.i + 1)).toNat) (hb : opt (s.i + 5) = b) :
    ((parseFrom opt s).lease.field c).toUInt8 = b := by
  have hne : opt s.i ≠ 0 ∧ opt s.i ≠ optEnd := by
    rw [hcode]
    obtain rfl | rfl | rfl | rfl | rfl := hc <;> decide
  have hnext := i_parseStep_of_option hne.1
  rw [parseFrom_step hi hne.2, (parseFrom_end fun h => absurd h (by omega)).2,
    field_parseStep opt s hne.1 hc, hcode, if_pos ⟨rfl, hread⟩, toUInt8_ntohlAt, hb]

def fieldTail (i : Nat) (b : UInt8) : Pointer := fun k => if k = i + 1 then 255 else b

theorem scan_value_open (b : UInt8) (hc : LeaseOption c) (fuel i : Nat) (v : Verdict)
    (hfuel : optionsSize ≤ i + fuel) (hv : v.value c ≠ .stray)
    (hopen : (scan f m fuel i v).value c = .stray) :
    (scan f m fuel i v).type = none ∨ Forced f m i (fun s => (s.lease.field c).toUInt8 = b) := by
  fun_induction scan f m fuel i v with
  | case1 | case2 | case3 => exact absurd hopen hv
  | case4 => omega
  | case5 i v hi hm hend fuel hpad ih =>
    exact (ih (by omega) hv hopen).imp_right fun h =>
      h.step (not_not.mp hi) (Nat.not_le.mp hm) hend
        (nextOption_overlay_pad (Nat.not_le.mp hm) hpad)
  | case6 i v hi hm hend fuel hpad hlen =>
    by_cases hlost : f i = optMsgType ∨ i + 2 < optionsSize
    · exact .inl (by simp [Verdict.cut, hlost, Verdict.lost])
    · have hcode : f i = c := by
        by_contra hne
        simp [Verdict.cut, hlost, Verdict.setValue, Ne.symm hne, hv] at hopen
      refine .inr ⟨fieldTail i b, ?_⟩
      rintro s rfl
      have hbyte : overlay f m (fieldTail s.i b) (s.i + 1) = 255 := by
        rw [overlay_tail f _ hlen, fieldTail, if_pos rfl]
      refine field_of_tail hc (not_not.mp hi) ?_ ?_ ?_ ?_
      · rw [overlay_own f _ (Nat.not_le.mp hm), hcode]
      · rw [hbyte]
        obtain rfl | rfl | rfl | rfl | rfl := hc <;> rfl
      · omega
      · rw [overlay_tail f _ (by omega), fieldTail, if_neg (by omega)]
  | case7 i v hi hm hend fuel hpad hlen hval =>
    by_cases hlost : f i = optMsgType ∨ i + 2 + (f (i + 1)).toNat < optionsSize
    · exact .inl (by simp [Verdict.cut, hlost, Verdict.lost])
    · have hcode : f i = c := by
        by_contra hne
        simp [Verdict.cut, hlost, Verdict.setValue, Ne.symm hne, hv] at hopen
      have hread := valueRead_eq (f (i + 1)) (fun h => hlost (.inl h))
      refine .inr ⟨fieldTail i b, ?_⟩
      rintro s rfl
      have hbyte : overlay f m (fieldTail s.i b) (s.i + 1) = f (s.i + 1) :=
        overlay_own f _ (Nat.not_le.mp hlen)
      refine field_of_tail hc (not_not.mp hi) ?_ ?_ ?_ ?_
      · rw [overlay_own f _ (Nat.not_le.mp hm), hcode]
      · rw [hbyte, ← hcode]
        omega
      · rw [hbyte]
        omega
      · rw [overlay_tail f _ (by omega), fieldTail, if_neg (by omega)]
  | case8 i v hi hm hend fuel hpad hlen hval ih =>
    have hv' : (v.option f i).value c ≠ .stray := by
      unfold Verdict.option
      split
      · exact hv
      · split
        · by_cases h : c = f i
          · simp [Verdict.setValue, h]
          · simpa [Verdict.setValue, h] using hv
        · exact hv
    exact (ih (by omega) hv' hopen).imp_right fun h =>
      h.step (not_not.mp hi) (Nat.not_le.mp hm) hend
        (nextOption_overlay_own (Nat.not_le.mp hlen) hpad)

end Own

end AlJefra.Net.Dhcp
