/-
The query of `net/dns.c`. It decodes to the name asked for; it fits the frame up to 452 bytes, or
453 with a final dot.
-/
import Mathlib.Data.List.Basic

namespace AlJefra.Net.Dns

open List

def dot : UInt8 := 0x2E

-- `label` is what the inner loop has passed since `p`.
def labelLoop (label : List UInt8) : List UInt8 → List UInt8
  | [] => UInt8.ofNat label.length :: label
  | c :: rest =>
    if c = dot then
      UInt8.ofNat label.length :: label ++ if rest = [] then [] else labelLoop [] rest
    else labelLoop (label ++ [c]) rest

def qname (hostname : List UInt8) : List UInt8 :=
  if hostname = [] then [] else labelLoop [] hostname

def dnsPayload (txid : UInt16) (hostname : List UInt8) : List UInt8 :=
  [(txid >>> 8).toUInt8, txid.toUInt8, 0x01, 0, 0, 1, 0, 0, 0, 0, 0, 0] ++
    (qname hostname ++ [0, 0, 1, 0, 1])

def netHeaderSize : Nat := 42

def frameWrites (txid : UInt16) (hostname : List UInt8) : List Nat :=
  range netHeaderSize ++ (range (dnsPayload txid hostname).length).map (netHeaderSize + ·)

/-! ## What a server reads -/

def decodeName : Nat → List UInt8 → Option (List (List UInt8) × List UInt8)
  | 0, _ => none
  | _, [] => none
  | fuel + 1, n :: rest =>
    if n = 0 then some ([], rest)
    else if n.toNat ≤ 63 ∧ n.toNat ≤ rest.length then
      (decodeName fuel (rest.drop n.toNat)).map fun r => (rest.take n.toNat :: r.1, r.2)
    else none

def dotted : List (List UInt8) → List UInt8
  | [] => []
  | [l] => l
  | l :: ls => l ++ dot :: dotted ls

structure IsName (labels : List (List UInt8)) : Prop where
  label : ∀ l ∈ labels, l ≠ [] ∧ dot ∉ l ∧ l.length ≤ 63
  length : (dotted labels).length ≤ 253

theorem labelLoop_label {l : List UInt8} (h : dot ∉ l) (label : List UInt8) :
    labelLoop label l = UInt8.ofNat (label ++ l).length :: (label ++ l) := by
  induction l generalizing label with
  | nil => simp [labelLoop]
  | cons c l ih =>
    have hc : c ≠ dot := fun hc => h (hc ▸ mem_cons_self)
    rw [labelLoop, if_neg hc, ih fun hl => h (mem_cons_of_mem c hl)]
    simp

theorem labelLoop_dot {l : List UInt8} (h : dot ∉ l) (label rest : List UInt8) :
    labelLoop label (l ++ dot :: rest)
      = UInt8.ofNat (label ++ l).length :: (label ++ l) ++ qname rest := by
  induction l generalizing label with
  | nil => simp [labelLoop, qname]
  | cons c l ih =>
    have hc : c ≠ dot := fun hc => h (hc ▸ mem_cons_self)
    rw [cons_append, labelLoop, if_neg hc, ih fun hl => h (mem_cons_of_mem c hl)]
    simp

theorem qname_dotted {labels : List (List UInt8)} (h : ∀ l ∈ labels, l ≠ [] ∧ dot ∉ l) :
    qname (dotted labels) = labels.flatMap fun l => UInt8.ofNat l.length :: l := by
  induction labels using dotted.induct with
  | case1 => rfl
  | case2 l =>
    obtain ⟨hne, hdot⟩ := h l (by simp)
    simp [qname, dotted, hne, labelLoop_label hdot]
  | case3 l ls hls ih =>
    obtain ⟨⟨hne, hdot⟩, hrest⟩ := forall_mem_cons.mp h
    rw [dotted, qname, if_neg (by simp), labelLoop_dot hdot, ih hrest]
    · simp
    · exact hls

theorem decodeName_labels {labels : List (List UInt8)} (tail : List UInt8) (fuel : Nat)
    (h : ∀ l ∈ labels, l ≠ [] ∧ l.length ≤ 63) (hfuel : labels.length < fuel) :
    decodeName fuel ((labels.flatMap fun l => UInt8.ofNat l.length :: l) ++ 0 :: tail)
      = some (labels, tail) := by
  induction labels generalizing fuel with
  | nil =>
    obtain ⟨fuel, rfl⟩ := Nat.exists_eq_succ_of_ne_zero (Nat.ne_of_gt hfuel)
    simp [decodeName]
  | cons l ls ih =>
    obtain ⟨⟨hne, hlen⟩, hrest⟩ := forall_mem_cons.mp h
    obtain ⟨fuel, rfl⟩ := Nat.exists_eq_succ_of_ne_zero (Nat.ne_of_gt (Nat.zero_lt_of_lt hfuel))
    have hn : (UInt8.ofNat l.length).toNat = l.length :=
      UInt8.toNat_ofNat_of_lt' (Nat.lt_of_le_of_lt hlen (by decide))
    have hzero : UInt8.ofNat l.length ≠ 0 := by
      intro h0
      rw [h0] at hn
      exact hne (length_eq_zero_iff.mp hn.symm)
    rw [flatMap_cons, cons_append, cons_append, append_assoc, decodeName, if_neg hzero, hn,
      if_pos ⟨hlen, by simp⟩, drop_left, take_left, ih fuel hrest (by simpa using hfuel)]
    rfl

theorem length_labelLoop (label p : List UInt8) : (labelLoop label p).length
    = label.length + p.length + if p.getLast? = some dot then 0 else 1 := by
  induction p generalizing label with
  | nil => simp [labelLoop]
  | cons c rest ih =>
    rw [labelLoop]
    cases rest with
    | nil =>
      by_cases hc : c = dot
      · simp [hc]
      · simp [hc, labelLoop]
    | cons d rest =>
      rw [getLast?_cons_cons]
      split
      · rw [if_neg (cons_ne_nil d rest), length_append, ih []]
        simp only [length_cons, length_nil]
        omega
      · rw [ih]
        simp only [length_cons, length_append, length_nil]
        omega

theorem length_dnsPayload_le_iff (txid : UInt16) (hostname : List UInt8) :
    netHeaderSize + (dnsPayload txid hostname).length ≤ 512 ↔
      hostname.length ≤ 452 ∨ hostname.length = 453 ∧ hostname.getLast? = some dot := by
  simp only [netHeaderSize, dnsPayload, qname, length_append, length_cons, length_nil]
  split
  · next h => simp [h]
  · rw [length_labelLoop]
    by_cases h : hostname.getLast? = some dot
    · rw [if_pos h, length_nil, and_iff_left h]
      omega
    · rw [if_neg h, length_nil, or_iff_left fun hc => h hc.2]
      omega

/-- The query stays inside the frame, and its name is read back, exactly for names of up to 452
bytes, or 453 with a final dot. -/
theorem dnsQuery_iff (txid : UInt16) (hostname : List UInt8) :
    ((∀ i ∈ frameWrites txid hostname, i < 512) ∧
      ∀ labels, IsName labels → hostname = dotted labels → ∃ fuel,
        decodeName fuel ((dnsPayload txid hostname).drop 12) = some (labels, [0, 1, 0, 1])) ↔
    hostname.length ≤ 452 ∨ hostname.length = 453 ∧ hostname.getLast? = some dot := by
  rw [← length_dnsPayload_le_iff txid, and_iff_left]
  · have hpos : 0 < (dnsPayload txid hostname).length := by simp [dnsPayload]
    simp only [frameWrites, mem_append, mem_map, mem_range]
    constructor
    · intro h
      have := h (netHeaderSize + ((dnsPayload txid hostname).length - 1)) (.inr ⟨_, by omega, rfl⟩)
      omega
    · rintro h i (hi | ⟨k, hk, rfl⟩)
      · exact Nat.lt_trans hi (by decide)
      · omega
  · rintro labels hname rfl
    refine ⟨labels.length + 1, ?_⟩
    rw [dnsPayload, drop_left' (by rfl),
      qname_dotted fun l hl => ⟨(hname.label l hl).1, (hname.label l hl).2.1⟩]
    exact decodeName_labels _ _ (fun l hl => ⟨(hname.label l hl).1, (hname.label l hl).2.2⟩)
      (Nat.lt_succ_self _)

theorem dnsQuery_overruns : 512 ∈ frameWrites 0 (replicate 453 0x61) := by
  have hlen : ∀ n, (dnsPayload 0 (replicate (n + 1) 0x61)).length = n + 19 := by
    intro n
    simp [dnsPayload, qname, length_labelLoop, getLast?_replicate, dot]
  exact mem_append_right _ (mem_map.mpr ⟨470, mem_range.mpr (by rw [hlen 452]; decide), rfl⟩)

end AlJefra.Net.Dns
