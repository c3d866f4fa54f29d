/- Scalar multiplication in `store/verify.c`. -/
import AlJefra.Lib.SlotTable
import AlJefra.Lib.LittleEndian
import Mathlib.Algebra.BigOperators.Intervals
import Mathlib.Algebra.Module.BigOperators
import Mathlib.Tactic.Abel

namespace AlJefra.Store

open AlJefra.Lib List

structure GeOps (P3 P2 P1p1 Cached : Type) where
  geP30 : P3
  geP3ToCached : P3 → Cached
  geP3ToP2 : P3 → P2
  geP1p1ToP3 : P1p1 → P3
  geAdd : P3 → Cached → P1p1
  geP2Dbl : P2 → P1p1

variable {P3 P2 P1p1 Cached : Type}

def scalarBit (scalar : Table UInt8 32) (i : Nat) : Bool :=
  (scalar.slots.getD (i / 8) 0 >>> UInt8.ofNat (i % 8)) &&& 1 ≠ 0

namespace GeOps

def double (ops : GeOps P3 P2 P1p1 Cached) (Q : P3) : P3 :=
  ops.geP1p1ToP3 (ops.geP2Dbl (ops.geP3ToP2 Q))

def plus (ops : GeOps P3 P2 P1p1 Cached) (Q : P3) (P : Cached) : P3 :=
  ops.geP1p1ToP3 (ops.geAdd Q P)

def geScalarmult (ops : GeOps P3 P2 P1p1 Cached) (scalar : Table UInt8 32) (P : P3) : P3 :=
  let Pcached := ops.geP3ToCached P
  (List.range 256).reverse.foldl (fun Q i =>
    let Q := ops.double Q
    if scalarBit scalar i then ops.plus Q Pcached else Q) ops.geP30

def geDoubleScalarmult (ops : GeOps P3 P2 P1p1 Cached) (a : Table UInt8 32) (B : P3)
    (b : Table UInt8 32) (P : P3) : P3 :=
  let Bcached := ops.geP3ToCached B
  let Pcached := ops.geP3ToCached P
  let BPcached := ops.geP3ToCached (ops.plus B Pcached)
  (List.range 256).reverse.foldl (fun Q i =>
    let Q := ops.double Q
    if scalarBit a i && scalarBit b i then ops.plus Q BPcached
    else if scalarBit a i then ops.plus Q Bcached
    else if scalarBit b i then ops.plus Q Pcached
    else Q) ops.geP30

/-! ## The bits of a scalar -/

end GeOps

theorem testBit_leNat : ∀ (bs : List UInt8) (i : Nat),
    (leNat bs).testBit i = (bs.getD (i / 8) 0).toNat.testBit (i % 8)
  | [], i => by simp [leNat]
  | b :: bs, i => by
    have hb : b.toNat < 2 ^ 8 := b.toNat_lt
    have hval : leNat (b :: bs) = 2 ^ 8 * leNat bs + b.toNat := add_comm _ _
    rw [hval, Nat.testBit_two_pow_mul_add _ hb]
    split
    · next hi => rw [Nat.div_eq_of_lt hi, Nat.mod_eq_of_lt hi, getD_cons_zero]
    · next hi =>
      obtain ⟨j, rfl⟩ := Nat.exists_eq_add_of_le (Nat.not_lt.mp hi)
      rw [Nat.add_sub_cancel_left, testBit_leNat bs j, Nat.add_mod_left,
        Nat.add_div_left j (by decide), getD_cons_succ]

theorem scalarBit_eq (scalar : Table UInt8 32) (i : Nat) :
    scalarBit scalar i = (leNat scalar.slots).testBit i := by
  have hshift : (UInt8.ofNat (i % 8)).toNat % 8 = i % 8 := by
    rw [UInt8.toNat_ofNat']
    omega
  rw [testBit_leNat, scalarBit, Nat.testBit, Nat.and_comm]
  simp only [ne_eq, ← UInt8.toNat_inj, UInt8.toNat_and, UInt8.toNat_shiftRight, hshift,
    UInt8.toNat_one, UInt8.toNat_zero, decide_not]
  rfl

theorem sum_bits (v : Nat) (n : Nat) :
    ∑ i ∈ Finset.range n, 2 ^ i * (v.testBit i).toNat = v % 2 ^ n := by
  induction n with
  | zero => simp [Nat.mod_one]
  | succ n ih => rw [Finset.sum_range_succ, ih, Nat.mod_pow_succ, Nat.toNat_testBit]

/-! ## The loops -/

variable {G : Type} [AddCommGroup G] {ops : GeOps P3 P2 P1p1 Cached} {rep : P3 → G → Prop}

structure GeOps.Lawful (ops : GeOps P3 P2 P1p1 Cached) (rep : P3 → G → Prop) : Prop where
  zero : rep ops.geP30 0
  add : ∀ {Q P q p}, rep Q q → rep P p → rep (ops.plus Q (ops.geP3ToCached P)) (q + p)
  double : ∀ {Q q}, rep Q q → rep (ops.double Q) (q + q)

theorem rep_foldl {f : P3 → Nat → P3} {d : Nat → G}
    (hstep : ∀ Q q i, rep Q q → rep (f Q i) (q + q + d i)) (n : Nat) :
    ∀ {Q q}, rep Q q → rep ((range n).reverse.foldl f Q)
      (2 ^ n • q + ∑ i ∈ Finset.range n, 2 ^ i • d i) := by
  induction n with
  | zero =>
    intro Q q h
    simpa using h
  | succ n ih =>
    intro Q q h
    have hrest := ih (hstep Q q n h)
    rw [range_succ, reverse_append, reverse_singleton, singleton_append,
      foldl_cons, Finset.sum_range_succ]
    have hval : 2 ^ (n + 1) • q + (∑ i ∈ Finset.range n, 2 ^ i • d i + 2 ^ n • d n)
        = 2 ^ n • (q + q + d n) + ∑ i ∈ Finset.range n, 2 ^ i • d i := by
      rw [pow_succ, mul_smul, two_nsmul]
      simp only [smul_add]
      abel
    rw [hval]
    exact hrest

theorem sum_digits (scalar : Table UInt8 32) (p : G) :
    ∑ i ∈ Finset.range 256, 2 ^ i • (scalarBit scalar i).toNat • p = leNat scalar.slots • p := by
  have hlt := leNat_lt scalar.slots
  rw [scalar.length_slots] at hlt
  simp only [scalarBit_eq, ← mul_smul]
  rw [← Finset.sum_smul, sum_bits, Nat.mod_eq_of_lt (by simpa using hlt)]

theorem geScalarmult_represents (ops : GeOps P3 P2 P1p1 Cached) (rep : P3 → G → Prop)
    (h : ops.Lawful rep) (a b : Table UInt8 32) {P B : P3} {p q : G} (hP : rep P p)
    (hB : rep B q) :
    rep (ops.geScalarmult a P) (leNat a.slots • p) ∧
      rep (ops.geDoubleScalarmult a B b P) (leNat a.slots • q + leNat b.slots • p) := by
  constructor
  · have hloop := rep_foldl (d := fun i => (scalarBit a i).toNat • p) (f := fun Q i =>
      if scalarBit a i then ops.plus (ops.double Q) (ops.geP3ToCached P) else ops.double Q)
      ?_ 256 h.zero
    · rwa [smul_zero, zero_add, sum_digits] at hloop
    · intro Q r i hQ
      cases scalarBit a i with
      | false => simpa using h.double hQ
      | true => simpa using h.add (h.double hQ) hP
  · have hloop := rep_foldl
      (d := fun i => (scalarBit a i).toNat • q + (scalarBit b i).toNat • p) (f := fun Q i =>
        if scalarBit a i && scalarBit b i then
          ops.plus (ops.double Q) (ops.geP3ToCached (ops.plus B (ops.geP3ToCached P)))
        else if scalarBit a i then ops.plus (ops.double Q) (ops.geP3ToCached B)
        else if scalarBit b i then ops.plus (ops.double Q) (ops.geP3ToCached P)
        else ops.double Q)
      ?_ 256 h.zero
    · simp only [smul_add, Finset.sum_add_distrib, sum_digits, smul_zero, zero_add] at hloop
      exact hloop
    · intro Q r i hQ
      cases scalarBit a i <;> cases scalarBit b i
      · simpa using h.double hQ
      · simpa using h.add (h.double hQ) hP
      · simpa using h.add (h.double hQ) hB
      · simpa using h.add (h.double hQ) (h.add hB hP)

def intOps : GeOps Int Int Int Int := ⟨0, id, id, id, (· + ·), fun q => q + q⟩

theorem geScalarmult_represents_int :
    intOps.geScalarmult (Table.ofList 0 [3]) 7 = 21 ∧
      intOps.geDoubleScalarmult (Table.ofList 0 [3]) 10 (Table.ofList 0 [5]) 7 = 65 := by
  have h : intOps.Lawful fun Q q => Q = q := by
    refine ⟨rfl, ?_, ?_⟩
    · rintro _ _ _ _ rfl rfl
      rfl
    · rintro _ _ rfl
      rfl
  exact geScalarmult_represents intOps _ h (Table.ofList 0 [3]) (Table.ofList 0 [5])
    (P := 7) rfl (B := 10) rfl

end AlJefra.Store
