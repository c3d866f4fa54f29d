/- The streaming interface computes SHA-1, and `wifi_hmac_sha1` computes HMAC. -/
import AlJefra.Lib.BlockFold
import AlJefra.Network.Sha1

namespace AlJefra.Network

open AlJefra.Lib List

/-! ## The standards -/

namespace Fips180

def padding (len : Nat) : List UInt8 :=
  0x80 :: (List.replicate ((55 + 64 - len % 64) % 64) 0 ++ beBytes 8 (8 * len))

def initialHash : Sha1State := ⟨0x67452301, 0xEFCDAB89, 0x98BADCFE, 0x10325476, 0xC3D2E1F0⟩

def sha1 (msg : List UInt8) : List UInt8 :=
  let h := (blocks 64 (msg ++ padding msg.length)).foldl sha1ProcessBlock initialHash
  [h.a, h.b, h.c, h.d, h.e].flatMap fun w => beBytes 4 w.toNat

def hmac (hash : List UInt8 → List UInt8) (key text : List UInt8) : List UInt8 :=
  let key := if 64 < key.length then hash key else key
  let pad := fun b : UInt8 => (key ++ List.replicate (64 - key.length) 0).map (· ^^^ b)
  hash (pad 0x5C ++ hash (pad 0x36 ++ text))

end Fips180

/-! ## Absorbing -/

structure Sha1Absorbed (msg : List UInt8) (ctx : Sha1Ctx) : Prop where
  consumed : Consumed 64 sha1ProcessBlock Fips180.initialHash msg ctx.h ctx.buf
  total : ctx.totalLen = UInt64.ofNat msg.length

variable {msg : List UInt8} {ctx : Sha1Ctx}

theorem Sha1Absorbed.init : Sha1Absorbed [] sha1Init := ⟨Consumed.nil (by decide), rfl⟩

theorem sha1UpdateLoop_consumed (fuel : Nat) : ∀ (ctx) {msg data}, data.length ≤ fuel →
    Consumed 64 sha1ProcessBlock Fips180.initialHash msg ctx.h ctx.buf →
    Consumed 64 sha1ProcessBlock Fips180.initialHash (msg ++ data)
        (sha1UpdateLoop fuel ctx data).h (sha1UpdateLoop fuel ctx data).buf ∧
      (sha1UpdateLoop fuel ctx data).totalLen = ctx.totalLen := by
  induction fuel with
  | zero =>
    intro ctx msg data hfuel h
    rw [length_eq_zero_iff.mp (Nat.le_zero.mp hfuel), append_nil]
    exact ⟨h, rfl⟩
  | succ fuel ih =>
    intro ctx msg data hfuel h
    rw [sha1UpdateLoop]
    split
    · next hnil =>
      rw [hnil, append_nil]
      exact ⟨h, rfl⟩
    · next hne =>
      have hopen := h.open_block
      have hsize : sha1BlockSize = 64 := rfl
      generalize hcopy : min data.length (sha1BlockSize - ctx.buf.length) = copy
      have hlen : (data.take copy).length = copy := by
        rw [length_take]
        omega
      have hrest : (data.drop copy).length ≤ fuel := by
        rw [length_drop]
        omega
      have hdata : msg ++ data = msg ++ data.take copy ++ data.drop copy := by
        rw [append_assoc, take_append_drop]
      dsimp only
      rw [hdata]
      split
      · next hfull =>
        rw [length_append] at hfull
        exact ih _ hrest (h.append_fill hfull)
      · next hfull =>
        rw [length_append] at hfull
        exact ih _ hrest (h.append_open (by omega))

theorem Sha1Absorbed.update (h : Sha1Absorbed msg ctx) (data : List UInt8) :
    Sha1Absorbed (msg ++ data) (sha1Update ctx data) := by
  obtain ⟨hconsumed, htotal⟩ := sha1UpdateLoop_consumed data.length
    { ctx with totalLen := ctx.totalLen + UInt64.ofNat data.length } (Nat.le_refl _) h.consumed
  refine ⟨hconsumed, htotal.trans ?_⟩
  rw [h.total, length_append, UInt64.ofNat_add]

theorem Sha1Absorbed.pieces (h : Sha1Absorbed msg ctx) (pieces : List (List UInt8)) :
    Sha1Absorbed (msg ++ pieces.flatten) (pieces.foldl sha1Update ctx) := by
  induction pieces generalizing msg ctx with
  | nil => simpa using h
  | cons piece pieces ih =>
    have hnext := ih (h.update piece)
    rwa [append_assoc] at hnext

/-! ## Closing -/

theorem Sha1Absorbed.pad (n : Nat) : ∀ {msg ctx fuel}, Sha1Absorbed msg ctx → n ≤ fuel → n < 64 →
    (msg.length + n) % 64 = 56 →
    Sha1Absorbed (msg ++ replicate n 0) (sha1PadLoop fuel ctx) := by
  induction n with
  | zero =>
    intro msg ctx fuel h _ _ hmod
    have hbuf : ctx.buf.length = 56 := h.consumed.length_pend.trans hmod
    rw [replicate_zero, append_nil]
    cases fuel with
    | zero => exact h
    | succ fuel => rwa [sha1PadLoop, if_pos hbuf]
  | succ n ih =>
    intro msg ctx fuel h hfuel hn hmod
    obtain ⟨fuel, rfl⟩ := Nat.exists_eq_succ_of_ne_zero (Nat.ne_of_gt (Nat.lt_of_lt_of_le
      (Nat.succ_pos n) hfuel))
    have hbuf : ctx.buf.length ≠ 56 := by
      rw [h.consumed.length_pend]
      omega
    have hnext : Sha1Absorbed (msg ++ [0] ++ replicate n 0)
        (sha1PadLoop fuel (sha1Update ctx [0])) := by
      refine ih (h.update [0]) (by omega) (by omega) ?_
      rw [length_append, length_singleton]
      omega
    rw [sha1PadLoop, if_neg hbuf]
    rwa [append_assoc, singleton_append, ← replicate_succ] at hnext

theorem be64_eq (x : UInt64) : be64 x = beBytes 8 x.toNat := by
  simp [be64, beBytes, leBytes, ← UInt8.toNat_inj, Nat.shiftRight_eq_div_pow,
    Nat.div_div_eq_div_mul]

theorem be32_eq (x : UInt32) : be32 x = beBytes 4 x.toNat := by
  simp [be32, beBytes, leBytes, ← UInt8.toNat_inj, Nat.shiftRight_eq_div_pow,
    Nat.div_div_eq_div_mul]

theorem Sha1Absorbed.final (h : Sha1Absorbed msg ctx) (hmsg : msg.length < 2 ^ 61) :
    sha1Final ctx = Fips180.sha1 msg := by
  have hbits : (ctx.totalLen * 8).toNat = 8 * msg.length := by
    have height : (8 : UInt64).toNat = 8 := rfl
    rw [h.total, UInt64.toNat_mul, UInt64.toNat_ofNat', height]
    omega
  have hpad : Sha1Absorbed (msg ++ [0x80] ++ replicate ((55 + 64 - msg.length % 64) % 64) 0)
      (sha1PadLoop sha1BlockSize (sha1Update ctx [0x80])) := by
    refine (h.update [0x80]).pad _ ?_ ?_ ?_
    · exact Nat.le_of_lt (Nat.mod_lt _ (by decide))
    · omega
    · rw [length_append, length_singleton]
      omega
  have hall := (hpad.update (be64 (ctx.totalLen * 8))).consumed
  have hpadded : msg ++ [0x80] ++ replicate ((55 + 64 - msg.length % 64) % 64) 0
      ++ be64 (ctx.totalLen * 8) = msg ++ Fips180.padding msg.length := by
    rw [be64_eq, hbits, Fips180.padding]
    simp only [append_assoc, cons_append, nil_append]
  rw [hpadded] at hall
  -- the padded message ends with a block
  have hbuf : (sha1Update (sha1PadLoop sha1BlockSize (sha1Update ctx [0x80]))
      (be64 (ctx.totalLen * 8))).buf = [] := by
    refine length_eq_zero_iff.mp (hall.length_pend.trans ?_)
    simp only [Fips180.padding, beBytes, length_append, length_cons,
      length_replicate, length_reverse, length_leBytes]
    omega
  have hfold := hall.fold []
  rw [hbuf, append_nil, append_nil, blocks_nil, foldl_nil] at hfold
  simp only [sha1Final, Fips180.sha1, be32_eq, hfold, flatMap_cons, flatMap_nil,
    append_nil, append_assoc]

theorem sha1Pieces_eq (pieces : List (List UInt8)) (hlen : pieces.flatten.length < 2 ^ 61) :
    sha1Final (pieces.foldl sha1Update sha1Init) = Fips180.sha1 pieces.flatten :=
  (Sha1Absorbed.init.pieces pieces).final hlen

/-! ## HMAC -/

theorem hmacKey_eq {key : List UInt8} (hkey : key.length < 2 ^ 61) :
    hmacKey key = if 64 < key.length then Fips180.sha1 key else key := by
  have hdigest := sha1Pieces_eq [key] (by simpa using hkey)
  rw [flatten_singleton] at hdigest
  rw [hmacKey, ← hdigest]
  rfl

theorem length_hmacPad (b : UInt8) (key : List UInt8) : (hmacPad b key).length = 64 := by
  have hkey : (hmacKey key).length ≤ 64 := by
    unfold hmacKey
    split
    · exact Nat.le_of_lt (by decide : 20 < 64)
    · next hlong => exact Nat.not_lt.mp hlong
  rw [hmacPad, padBlock, length_map, length_append, length_replicate]
  exact Nat.add_sub_cancel' hkey

/-- However the message is cut into calls, the digest is that of the
standard, and the keyed hash is HMAC for every key. -/
theorem sha1_streaming_and_hmac (msg : List UInt8) (hmsg : msg.length < 2 ^ 61)
    (pieces : List (List UInt8)) (hpieces : pieces.flatten = msg) (key data : List UInt8)
    (hkey : key.length < 2 ^ 32) (hdata : data.length < 2 ^ 32) :
    sha1Final (pieces.foldl sha1Update sha1Init) = Fips180.sha1 msg ∧
      wifiHmacSha1 key data = Fips180.hmac Fips180.sha1 key data := by
  constructor
  · rw [← hpieces] at hmsg ⊢
    exact sha1Pieces_eq pieces hmsg
  · have hinner := sha1Pieces_eq [hmacPad 0x36 key, data] (by simp [length_hmacPad]; omega)
    have houter := sha1Pieces_eq [hmacPad 0x5C key, Fips180.sha1 (hmacPad 0x36 key ++ data)]
      (by simp [length_hmacPad, Fips180.sha1, beBytes, length_leBytes])
    simp only [foldl_cons, foldl_nil, flatten_cons, flatten_nil,
      List.append_nil] at hinner houter
    rw [wifiHmacSha1, hinner, houter, Fips180.hmac, ← hmacKey_eq (by omega)]
    rfl

theorem sha1_streaming_and_hmac_abc :
    sha1Final ([[0x61], [], [0x62, 0x63]].foldl sha1Update sha1Init)
        = Fips180.sha1 [0x61, 0x62, 0x63] ∧
      wifiHmacSha1 [1] [2] = Fips180.hmac Fips180.sha1 [1] [2] :=
  sha1_streaming_and_hmac _ (by decide) _ rfl _ _ (by decide) (by decide)

end AlJefra.Network
