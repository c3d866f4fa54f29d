/- Block cipher modes over byte strings. -/
import AlJefra.Lib.LittleEndian

namespace AlJefra.Lib

open List

/-! ## XOR of byte strings -/

def xorBytes (a b : List UInt8) : List UInt8 := List.zipWith (· ^^^ ·) a b

theorem length_xorBytes (a b : List UInt8) : (xorBytes a b).length = min a.length b.length :=
  length_zipWith

theorem xorBytes_comm (a b : List UInt8) : xorBytes a b = xorBytes b a :=
  zipWith_comm_of_comm UInt8.xor_comm

theorem xorBytes_xorBytes : ∀ {a b : List UInt8}, a.length ≤ b.length →
    xorBytes (xorBytes a b) b = a
  | [], _, _ => rfl
  | x :: xs, y :: ys, h => by
    have ih : xorBytes (xorBytes xs ys) ys = xs := xorBytes_xorBytes (by simpa using h)
    have hx : x ^^^ y ^^^ y = x := by rw [UInt8.xor_assoc, UInt8.xor_self, UInt8.xor_zero]
    simp only [xorBytes, zipWith_cons_cons] at ih ⊢
    rw [ih, hx]

def diffBytes (a b : List UInt8) : UInt8 := (xorBytes a b).foldl (· ||| ·) 0

theorem foldl_or_eq_zero : ∀ {l : List UInt8} {x : UInt8},
    l.foldl (· ||| ·) x = 0 ↔ x = 0 ∧ ∀ y ∈ l, y = 0
  | [], x => by simp
  | y :: ys, x => by
    rw [foldl_cons, foldl_or_eq_zero, UInt8.or_eq_zero_iff]
    simp only [mem_cons, forall_eq_or_imp, and_assoc]

theorem diffBytes_eq_zero_iff : ∀ {a b : List UInt8}, a.length = b.length →
    (diffBytes a b = 0 ↔ a = b)
  | [], [], _ => by simp [diffBytes, xorBytes]
  | x :: xs, y :: ys, h => by
    have ih := diffBytes_eq_zero_iff (a := xs) (b := ys) (by simpa using h)
    simp only [diffBytes, xorBytes, zipWith_cons_cons, foldl_or_eq_zero, true_and,
      mem_cons, forall_eq_or_imp, UInt8.xor_eq_zero_iff, cons.injEq] at ih ⊢
    rw [ih]

/-! ## Modes -/

section Modes

variable (n : Nat)

def ctrLoop (keystream : UInt16 → List UInt8) : Nat → UInt16 → List UInt8 → List UInt8
  | 0, _, _ => []
  | fuel + 1, c, data =>
    if data = [] then []
    else xorBytes (data.take n) (keystream c) ++ ctrLoop keystream fuel (c + 1) (data.drop n)

def padBlock (data : List UInt8) : List UInt8 := data ++ List.replicate (n - data.length) 0

def cbcLoop (cipher : List UInt8 → List UInt8) : Nat → List UInt8 → List UInt8 → List UInt8
  | 0, mac, _ => mac
  | fuel + 1, mac, data =>
    if data = [] then mac
    else cbcLoop cipher fuel (cipher (xorBytes (padBlock n (data.take n)) mac)) (data.drop n)

variable {n} {keystream : UInt16 → List UInt8}

theorem ctrLoop_nil (fuel : Nat) (c : UInt16) : ctrLoop n keystream fuel c [] = [] := by
  cases fuel <;> simp [ctrLoop]

theorem length_ctrLoop (hn : 0 < n) (hks : ∀ c, (keystream c).length = n) :
    ∀ {fuel : Nat} {c : UInt16} {data : List UInt8}, data.length ≤ fuel →
    (ctrLoop n keystream fuel c data).length = data.length
  | 0, _, [], _ => rfl
  | fuel + 1, c, data, h => by
    unfold ctrLoop
    split
    · next hnil => rw [hnil]
    · have hrest : (data.drop n).length ≤ fuel := by rw [length_drop]; omega
      rw [length_append, length_xorBytes, hks, length_ctrLoop hn hks hrest,
        length_take, length_drop]
      omega

theorem ctrLoop_ctrLoop (hn : 0 < n) (hks : ∀ c, (keystream c).length = n) :
    ∀ {fuel : Nat} {c : UInt16} {data : List UInt8}, data.length ≤ fuel →
    ctrLoop n keystream fuel c (ctrLoop n keystream fuel c data) = data
  | 0, _, [], _ => rfl
  | fuel + 1, c, data, h => by
    by_cases hnil : data = []
    · subst hnil
      simp only [ctrLoop_nil]
    have hpos : 0 < data.length := length_pos_iff.mpr hnil
    have hrest : (data.drop n).length ≤ fuel := by rw [length_drop]; omega
    have ih := ctrLoop_ctrLoop hn hks (c := c + 1) hrest
    have hhead : (xorBytes (data.take n) (keystream c)).length = min n data.length := by
      rw [length_xorBytes, hks, length_take]
      omega
    have hstep : ctrLoop n keystream (fuel + 1) c data = xorBytes (data.take n) (keystream c)
          ++ ctrLoop n keystream fuel (c + 1) (data.drop n) := by
      rw [ctrLoop, if_neg hnil]
    have hne : xorBytes (data.take n) (keystream c)
        ++ ctrLoop n keystream fuel (c + 1) (data.drop n) ≠ [] := by
      intro h0
      have := congrArg length h0
      rw [length_append, hhead, length_nil] at this
      omega
    -- the first block of the result is the first block XORed; a short
    -- block is the last one, and nothing follows it
    have hcut : (xorBytes (data.take n) (keystream c)
          ++ ctrLoop n keystream fuel (c + 1) (data.drop n)).take n
          = xorBytes (data.take n) (keystream c) ∧
        (xorBytes (data.take n) (keystream c)
          ++ ctrLoop n keystream fuel (c + 1) (data.drop n)).drop n
          = ctrLoop n keystream fuel (c + 1) (data.drop n) := by
      by_cases hfull : n ≤ data.length
      · have hlen : (xorBytes (data.take n) (keystream c)).length = n := by
          rw [hhead, Nat.min_eq_left hfull]
        exact ⟨take_left' hlen, drop_left' hlen⟩
      · have htail : data.drop n = [] := drop_eq_nil_of_le (by omega)
        rw [htail, ctrLoop_nil, append_nil]
        exact ⟨take_of_length_le (by omega), drop_eq_nil_of_le (by omega)⟩
    have htake : (data.take n).length ≤ (keystream c).length := by
      rw [hks, length_take]
      omega
    rw [hstep, ctrLoop, if_neg hne, hcut.1, hcut.2, ih, xorBytes_xorBytes htake, take_append_drop]

theorem length_cbcLoop {cipher : List UInt8 → List UInt8} (hc : ∀ b, (cipher b).length = n) :
    ∀ {fuel : Nat} {mac data : List UInt8}, mac.length = n →
    (cbcLoop n cipher fuel mac data).length = n
  | 0, _, _, h => h
  | fuel + 1, mac, data, h => by
    unfold cbcLoop
    split
    · exact h
    · exact length_cbcLoop hc (hc _)

/-! ## The loops and the blocks of the text -/

def padBlocks (n : Nat) (data : List UInt8) : List (List UInt8) :=
  (List.range ((data.length + n - 1) / n)).map fun i => padBlock n ((data.drop (n * i)).take n)

theorem blockCount_succ (hn : 0 < n) {data : List UInt8} (hne : data ≠ []) :
    (data.length + n - 1) / n = ((data.drop n).length + n - 1) / n + 1 := by
  have hpos := length_pos_iff.mpr hne
  rw [length_drop, ← Nat.add_div_right _ hn]
  by_cases hfull : n ≤ data.length
  · congr 1
    omega
  · have hone : ∀ x, n ≤ x → x < 2 * n → x / n = 1 := fun x hle hlt =>
      Nat.div_eq_of_lt_le (by omega) (by omega)
    rw [hone _ (by omega) (by omega), hone _ (by omega) (by omega)]

theorem padBlocks_nil (hn : 0 < n) : padBlocks n [] = [] := by
  rw [padBlocks, Nat.div_eq_of_lt (by rw [length_nil]; omega)]
  rfl

theorem padBlocks_cons (hn : 0 < n) {data : List UInt8} (hne : data ≠ []) :
    padBlocks n data = padBlock n (data.take n) :: padBlocks n (data.drop n) := by
  rw [padBlocks, blockCount_succ hn hne, range_succ_eq_map, map_cons, map_map]
  simp only [Nat.mul_zero, drop_zero, padBlocks, drop_drop, Function.comp_def,
    Nat.succ_eq_add_one, Nat.mul_add, Nat.mul_one, Nat.add_comm]

theorem cbcLoop_eq_foldl (hn : 0 < n) (cipher : List UInt8 → List UInt8) :
    ∀ {fuel : Nat} {mac data : List UInt8}, data.length ≤ fuel →
    cbcLoop n cipher fuel mac data = (padBlocks n data).foldl (fun x b => cipher (xorBytes x b)) mac
  | 0, mac, [], _ => by rw [padBlocks_nil hn, cbcLoop, foldl_nil]
  | fuel + 1, mac, data, h => by
    unfold cbcLoop
    split
    · next hnil => rw [hnil, padBlocks_nil hn, foldl_nil]
    · next hne =>
      have hrest : (data.drop n).length ≤ fuel := by rw [length_drop]; omega
      rw [cbcLoop_eq_foldl hn cipher hrest, padBlocks_cons hn hne, foldl_cons, xorBytes_comm]

theorem xorBytes_take (a b : List UInt8) (k : Nat) :
    xorBytes (a.take k) b = xorBytes (a.take k) (b.take k) := by
  have hshort : (xorBytes (a.take k) b).take k = xorBytes (a.take k) b := by
    refine take_of_length_le ?_
    rw [length_xorBytes, length_take]
    omega
  rw [← hshort, xorBytes, take_zipWith, take_take, Nat.min_self, xorBytes]

theorem xorBytes_append (t : List UInt8) : ∀ data s : List UInt8,
    xorBytes data (s ++ t) = xorBytes (data.take s.length) s ++ xorBytes (data.drop s.length) t
  | data, [] => by simp [xorBytes]
  | [], _ :: _ => by simp [xorBytes]
  | _ :: data, _ :: s => by simpa [xorBytes] using xorBytes_append t data s

theorem ctrLoop_eq_xorBytes (hn : 0 < n) (hks : ∀ c, (keystream c).length = n) :
    ∀ {fuel c : Nat} {data : List UInt8}, data.length ≤ fuel →
    ctrLoop n keystream fuel (UInt16.ofNat c) data = xorBytes data
      ((range ((data.length + n - 1) / n)).flatMap fun i => keystream (UInt16.ofNat (c + i)))
  | 0, _, [], _ => by simp [ctrLoop, xorBytes]
  | fuel + 1, c, data, h => by
    unfold ctrLoop
    split
    · next hnil => simp [hnil, xorBytes]
    · next hne =>
      have hrest : (data.drop n).length ≤ fuel := by rw [length_drop]; omega
      have hnext : UInt16.ofNat c + 1 = UInt16.ofNat (c + 1) := by simp
      rw [hnext, ctrLoop_eq_xorBytes hn hks hrest, blockCount_succ hn hne, range_succ_eq_map,
        flatMap_cons, flatMap_map, xorBytes_append, hks]
      simp only [add_zero, Nat.succ_eq_add_one, add_assoc, add_comm 1]

end Modes

/-! ## CCM -/

section Ccm

variable (cipher : List UInt8 → List UInt8) (tagLen lenLen : Nat) (nonce aad text : List UInt8)

def beBytes (k n : Nat) : List UInt8 := (leBytes k n).reverse

def aadLength (n : Nat) : List UInt8 :=
  if n < 0xFF00 then beBytes 2 n
  else if n < 0x100000000 then [0xFF, 0xFE] ++ beBytes 4 n
  else [0xFF, 0xFF] ++ beBytes 8 n

def ccmFirst : List UInt8 :=
  [UInt8.ofNat ((if aad = [] then 0 else 64) + 8 * ((tagLen - 2) / 2) + (lenLen - 1))] ++ nonce ++
    beBytes lenLen text.length

def ccmBlocks : List (List UInt8) :=
  (if aad = [] then [] else padBlocks 16 (aadLength aad.length ++ aad)) ++ padBlocks 16 text

def ccmChain : List UInt8 :=
  (ccmBlocks aad text).foldl (fun x b => cipher (xorBytes x b))
    (cipher (ccmFirst tagLen lenLen nonce aad text))

def ccmStream (i : Nat) : List UInt8 :=
  cipher ([UInt8.ofNat (lenLen - 1)] ++ nonce ++ beBytes lenLen i)

def ccm : List UInt8 :=
  xorBytes text ((List.range ((text.length + 15) / 16)).flatMap fun i =>
      ccmStream cipher lenLen nonce (i + 1)) ++
    xorBytes ((ccmChain cipher tagLen lenLen nonce aad text).take tagLen)
      ((ccmStream cipher lenLen nonce 0).take tagLen)

end Ccm

end AlJefra.Lib
