/- Where a DHCP reply is written to and read from. -/
import AlJefra.Net.Dhcp
import Mathlib.Logic.Relation

namespace AlJefra.Net.Dhcp

open AlJefra.Lib AlJefra.Hal List

/-! ## Copies -/

theorem copies_recvStep (xid : UInt32) (s : RecvState) (rx : Rx) : (recvStep xid s rx).copies =
      s.copies ++ (if rx.passes then [rx.payloadLen.toNat] else []) := by
  unfold recvStep
  split
  · dsimp only
    split
    · rfl
    · split <;> rfl
  · simp

theorem copies_run (xid : UInt32) (rxs : List Rx) : ∀ s : RecvState,
    (run (recvStep xid) s rxs).copies =
      s.copies ++ (rxs.filter Rx.passes).map fun rx => rx.payloadLen.toNat := by
  induction rxs with
  | nil => intro s; simp
  | cons rx rxs ih =>
    intro s
    simp only [run_cons, ih, copies_recvStep]
    by_cases h : rx.passes <;> simp [h]

theorem payloadLen_of_passes {rx : Rx} (h : rx.passes = true) (hlen : rx.len ≤ 1500) :
    (rx.payloadLen.toNat : Int) + 42 = rx.len := by
  have hmin : ¬ rx.len < (netHeaderSize : Int) := by
    intro hlt
    simp [Rx.passes, hlt] at h
  have h42 : (netHeaderSize : Int) = 42 := rfl
  have hn : (UInt32.ofNat netHeaderSize).toNat = 42 := rfl
  have hsmall : (UInt32.ofNat rx.len.toNat).toNat = rx.len.toNat :=
    UInt32.toNat_ofNat_of_lt' (by change _ < 2 ^ 32; omega)
  rw [Rx.payloadLen, UInt32.toNat_sub, hn, hsmall]
  omega

/-! ## The walk over the options -/

def nextOption (opt : Pointer) (i : Nat) : Nat :=
  if opt i = 0 then i + 1 else i + 2 + (opt (i + 1)).toNat

def Walks (opt : Pointer) (i j : Nat) : Prop :=
  i < optionsSize ∧ opt i ≠ optEnd ∧ j = nextOption opt i

def OptionAt (opt : Pointer) (i : Nat) : Prop := Relation.ReflTransGen (Walks opt) 0 i

def OptionFits (opt : Pointer) (i : Nat) : Prop :=
  opt i ≠ 0 → i + 2 + valueRead (opt i) (opt (i + 1)) ≤ optionsSize

theorem i_parseStep (opt : Pointer) (s : ParseState) :
    (parseStep opt s).i = nextOption opt s.i := by
  unfold parseStep nextOption
  by_cases hpad : opt s.i = 0 <;> simp [hpad]

variable {opt : Pointer} {P : Nat → Prop} {i : Nat}

theorem reads_parseStep {s : ParseState} (hi : s.i < optionsSize) :
    (∀ r ∈ (parseStep opt s).reads, r < optionsSize) ↔
      (∀ r ∈ s.reads, r < optionsSize) ∧ OptionFits opt s.i := by
  unfold parseStep OptionFits
  by_cases hpad : opt s.i = 0
  · simp only [hpad, if_true, forall_mem_append]
    simp [hi]
  · simp only [hpad, if_false, forall_mem_append, mem_range'_1, ne_eq,
      not_false_eq_true, true_implies]
    refine and_congr_right fun _ => ⟨fun h => ?_, fun h r hr => by omega⟩
    have hlast := h (s.i + 1 + valueRead (opt s.i) (opt (s.i + 1))) (by omega)
    omega

theorem forall_walks_head (hi : i < optionsSize) (hend : opt i ≠ optEnd) :
    (∀ j, Relation.ReflTransGen (Walks opt) i j → P j) ↔
      P i ∧ ∀ j, Relation.ReflTransGen (Walks opt) (nextOption opt i) j → P j := by
  have hnext : Walks opt i (nextOption opt i) := ⟨hi, hend, rfl⟩
  constructor
  · intro h
    exact ⟨h i .refl, fun j hj => h j (.head hnext hj)⟩
  · rintro ⟨h0, hrest⟩ j hj
    obtain rfl | ⟨k, ⟨-, -, rfl⟩, hkj⟩ := Relation.ReflTransGen.cases_head hj
    · exact h0
    · exact hrest j hkj

theorem forall_walks_end (hend : ¬ (i < optionsSize ∧ opt i ≠ optEnd)) :
    (∀ j, Relation.ReflTransGen (Walks opt) i j → P j) ↔ P i := by
  constructor
  · intro h
    exact h i .refl
  · rintro h0 j hj
    obtain rfl | ⟨k, ⟨hi, hne, -⟩, -⟩ := Relation.ReflTransGen.cases_head hj
    · exact h0
    · exact absurd ⟨hi, hne⟩ hend

theorem reads_parseLoop : ∀ (fuel : Nat) (s : ParseState), optionsSize ≤ s.i + fuel →
    ((∀ r ∈ (parseLoop opt fuel s).reads, r < optionsSize) ↔ (∀ r ∈ s.reads, r < optionsSize) ∧
        ∀ j, Relation.ReflTransGen (Walks opt) s.i j →
          j < optionsSize → opt j ≠ optEnd → OptionFits opt j) := by
  intro fuel
  induction fuel with
  | zero =>
    intro s hfuel
    have hend : ¬ s.i < optionsSize := by omega
    rw [forall_walks_end (fun h => hend h.1)]
    unfold parseLoop
    simp [hend]
  | succ fuel ih =>
    intro s hfuel
    unfold parseLoop
    by_cases hi : s.i < optionsSize
    · by_cases hend : opt s.i = optEnd
      · rw [forall_walks_end (fun h => h.2 hend)]
        simp only [hi, hend, not_true_eq_false, if_false, if_true, forall_mem_append]
        simp [hi]
      · have hmove : s.i < (parseStep opt s).i := by
          rw [i_parseStep]
          unfold nextOption
          split <;> omega
        rw [if_neg (not_not.mpr hi), if_neg hend, forall_walks_head hi hend]
        rw [ih (parseStep opt s) (by omega), reads_parseStep hi, i_parseStep, and_assoc]
        simp [hi, hend]
    · rw [forall_walks_end (fun h => hi h.1)]
      simp [hi]

/-! ## Confinement -/

/-- The copies stay within the packet exactly if no frame is longer than 594 bytes, and the options
are read below 312 exactly if every option fits. -/
theorem dhcp_confined_iff (xid : UInt32) (pkt : Pointer) (rxs : List Rx)
    (hlen : ∀ rx ∈ rxs, rx.len ≤ 1500) (reply : Pointer) (lease : DhcpLease) :
    ((∀ n ∈ (recvDhcp xid pkt rxs).2.copies, n ≤ dhcpPacketSize) ↔
      ∀ rx ∈ recvTaken xid pkt rxs, rx.passes = true → rx.len ≤ 594) ∧
    ((∀ r ∈ (parseDhcpOptions reply lease).reads, r < optionsSize) ↔
      ∀ i, OptionAt (fun i => reply (optionsOffset + i)) i → i < optionsSize →
        reply (optionsOffset + i) ≠ optEnd →
          OptionFits (fun i => reply (optionsOffset + i)) i) := by
  constructor
  · have hsub : ∀ rx ∈ recvTaken xid pkt rxs, rx.len ≤ 1500 := by
      intro rx hrx
      refine hlen rx ?_
      rw [← taken_append_drop RecvState.found (recvStep xid) { pkt := pkt } rxs]
      exact mem_append_left _ hrx
    rw [recvDhcp, copies_run]
    simp only [List.nil_append, forall_mem_map, mem_filter, and_imp]
    refine forall_congr' fun rx => forall_congr' fun hrx => forall_congr' fun hpass => ?_
    have := payloadLen_of_passes hpass (hsub rx hrx)
    have h552 : dhcpPacketSize = 552 := rfl
    omega
  · unfold parseDhcpOptions OptionAt
    rw [reads_parseLoop optionsSize _ (by simp)]
    simp

def replyFrame : Pointer :=
  Pointer.write (Pointer.write (Pointer.write (Pointer.write (fun _ => 0)
    12 [8, 0]) 23 [17]) 36 [0, 68]) 278 [0x63, 0x82, 0x53, 0x63]

def cutOptions : Pointer := fun i =>
  if i < 551 then 0 else if i = 551 then optSubnetMask else 4

/-- A reply of 342 bytes and options that end at once. -/
theorem dhcp_confined_short :
    (∀ n ∈ (recvDhcp 0 (fun _ => 0) [⟨342, replyFrame⟩]).2.copies, n ≤ dhcpPacketSize) ∧
    ∀ r ∈ (parseDhcpOptions (fun _ => optEnd) ⟨0, 0, 0, 0, 0, 0⟩).reads, r < optionsSize := by
  have hboth := dhcp_confined_iff 0 (fun _ => 0) [⟨342, replyFrame⟩] (by decide)
    (fun _ => optEnd) ⟨0, 0, 0, 0, 0, 0⟩
  refine ⟨hboth.1.mpr ?_, hboth.2.mpr ?_⟩
  · decide +kernel
  · intro i _ _ hend
    exact absurd rfl hend

/-- A reply of 1500 bytes, and an option that starts in the last byte. -/
theorem dhcp_not_confined :
    ((recvDhcp 0 (fun _ => 0) [⟨1500, replyFrame⟩]).1 = 0 ∧
      ∃ n ∈ (recvDhcp 0 (fun _ => 0) [⟨1500, replyFrame⟩]).2.copies, dhcpPacketSize < n) ∧
    ∃ r ∈ (parseDhcpOptions cutOptions ⟨0, 0, 0, 0, 0, 0⟩).reads, optionsSize ≤ r := by
  refine ⟨?_, ?_⟩
  · decide +kernel
  · decide +kernel

end AlJefra.Net.Dhcp
