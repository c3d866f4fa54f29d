/- The streaming interface computes SHA-512. -/
import AlJefra.Lib.BlockFold
import AlJefra.Lib.LittleEndian
import AlJefra.Store.Sha512
import Mathlib.Tactic.NormNum

namespace AlJefra.Store

open AlJefra.Lib List

/-! ## The standard -/

namespace Fips180

def padZeros (len : Nat) : Nat := (111 + 128 - len % 128) % 128

def padding (len : Nat) : List UInt8 :=
  0x80 :: (List.replicate (padZeros len) 0 ++ (leBytes 16 (8 * len)).reverse)

def initialHash : Table UInt64 8 :=
  Table.ofList 0 ([2, 3, 5, 7, 11, 13, 17, 19].map fun p => UInt64.ofNat (p * 2 ^ 128).sqrt)

def sha512 (compress : Table UInt64 8 → List UInt8 → Table UInt64 8) (msg : List UInt8) :
    List UInt8 :=
  ((blocks 128 (msg ++ padding msg.length)).foldl compress initialHash).slots.flatMap
    fun w => (leBytes 8 w.toNat).reverse

end Fips180

theorem ofNat_sqrt_eq {n v : Nat} (hle : v * v ≤ n) (hlt : n < (v + 1) * (v + 1)) :
    UInt64.ofNat n.sqrt = UInt64.ofNat v := by
  rw [← Nat.eq_sqrt.mpr ⟨hle, hlt⟩]

theorem sha512Init_state (buffer : Table UInt8 128) :
    (sha512Init buffer).state = Fips180.initialHash := by
  -- the words are the roots scaled by `2 ^ 64`, less their integer parts
  simp only [Fips180.initialHash, sha512Init, map_cons, map_nil]
  rw [ofNat_sqrt_eq (v := 0x16A09E667F3BCC908) (by norm_num) (by norm_num),
    ofNat_sqrt_eq (v := 0x1BB67AE8584CAA73B) (by norm_num) (by norm_num),
    ofNat_sqrt_eq (v := 0x23C6EF372FE94F82B) (by norm_num) (by norm_num),
    ofNat_sqrt_eq (v := 0x2A54FF53A5F1D36F1) (by norm_num) (by norm_num),
    ofNat_sqrt_eq (v := 0x3510E527FADE682D1) (by norm_num) (by norm_num),
    ofNat_sqrt_eq (v := 0x39B05688C2B3E6C1F) (by norm_num) (by norm_num),
    ofNat_sqrt_eq (v := 0x41F83D9ABFB41BD6B) (by norm_num) (by norm_num),
    ofNat_sqrt_eq (v := 0x45BE0CD19137E2179) (by norm_num) (by norm_num)]
  rfl

/-! ## Words in big-endian order -/

theorem beByte_eq (x : UInt64) {i : Nat} (hi : i < 8) :
    beByte x i = UInt8.ofNat (x.toNat / 256 ^ (7 - i)) := by
  have hshift : (UInt64.ofNat (56 - i * 8)).toNat = 8 * (7 - i) := by
    rw [UInt64.toNat_ofNat']
    omega
  apply UInt8.toNat_inj.mp
  rw [beByte, UInt64.toNat_toUInt8, UInt64.toNat_shiftRight, hshift, UInt8.toNat_ofNat',
    Nat.mod_eq_of_lt (by omega : 8 * (7 - i) < 64), Nat.shiftRight_eq_div_pow, Nat.pow_mul]

theorem map_beByte (x : UInt64) : (range 8).map (beByte x) = (leBytes 8 x.toNat).reverse := by
  have hbyte : ∀ i ∈ range 8, beByte x i = UInt8.ofNat (x.toNat / 256 ^ (7 - i)) :=
    fun i hi => beByte_eq x (mem_range.mp hi)
  rw [map_congr_left hbyte]
  simp [leBytes, range_succ, Nat.div_div_eq_div_mul]

theorem lengthField_eq {bits : Nat} (h : bits < 2 ^ 64) :
    (leBytes 16 bits).reverse = replicate 8 0 ++ (leBytes 8 bits).reverse := by
  have hhigh : bits / 256 ^ 8 = 0 := Nat.div_eq_of_lt (by omega)
  rw [leBytes_add 8 8, hhigh, leBytes_zero, reverse_append, reverse_replicate]

/-! ## Absorbing -/

section Streaming

variable {compress : Table UInt64 8 → List UInt8 → Table UInt64 8}

def Sha512Ctx.pending (ctx : Sha512Ctx) : List UInt8 := ctx.buffer.slots.take ctx.bufLen

theorem Sha512Ctx.length_pending (ctx : Sha512Ctx) : ctx.pending.length = ctx.bufLen := by
  have hlt := ctx.bufLen_lt
  rw [pending, length_take, ctx.buffer.length_slots]
  omega

variable (compress) in
structure Absorbed (s₀ : Table UInt64 8) (msg : List UInt8) (ctx : Sha512Ctx) : Prop where
  consumed : Consumed 128 compress s₀ msg ctx.state ctx.pending
  count : ctx.count = UInt64.ofNat msg.length

variable {s₀ : Table UInt64 8} {msg : List UInt8} {ctx : Sha512Ctx}

theorem Absorbed.init (buffer : Table UInt8 128) :
    Absorbed compress Fips180.initialHash [] (sha512Init buffer) := by
  constructor
  · rw [sha512Init_state]
    exact Consumed.nil (by decide)
  · rfl

theorem length_take_chunk (ctx : Sha512Ctx) (data : List UInt8) :
    (data.take (sha512Chunk ctx data.length)).length = sha512Chunk ctx data.length := by
  rw [length_take, sha512Chunk_eq_min]
  omega

theorem count_sha512UpdateTurn (ctx : Sha512Ctx) (data : List UInt8) :
    (sha512UpdateTurn compress ctx data).count =
      ctx.count + UInt64.ofNat (sha512Chunk ctx data.length) := by
  simp only [sha512UpdateTurn]
  split <;> rfl

variable {data field : List UInt8}

variable (compress) in
theorem sha512UpdateTurn_full (hfull : ctx.bufLen + sha512Chunk ctx data.length = 128) :
    (sha512UpdateTurn compress ctx data).state =
        compress ctx.state (ctx.pending ++ data.take (sha512Chunk ctx data.length)) ∧
      (sha512UpdateTurn compress ctx data).pending = [] := by
  have hslots := Table.slots_write_end ctx.buffer ctx.bufLen
    (data.take (sha512Chunk ctx data.length)) (by rw [length_take_chunk, hfull])
  simp only [sha512UpdateTurn, dif_pos hfull, hslots, Sha512Ctx.pending, take_zero, and_self]

variable (compress) in
theorem sha512UpdateTurn_open (hopen : ctx.bufLen + sha512Chunk ctx data.length < 128) :
    (sha512UpdateTurn compress ctx data).state = ctx.state ∧
      (sha512UpdateTurn compress ctx data).pending =
        ctx.pending ++ data.take (sha512Chunk ctx data.length) := by
  have htake := Table.take_write ctx.buffer ctx.bufLen
    (data.take (sha512Chunk ctx data.length)) (by rw [length_take_chunk]; omega)
  rw [length_take_chunk] at htake
  simp only [sha512UpdateTurn, dif_neg (ne_of_lt hopen), Sha512Ctx.pending, htake, and_self]

theorem Absorbed.turn (h : Absorbed compress s₀ msg ctx) (data : List UInt8) :
    Absorbed compress s₀ (msg ++ data.take (sha512Chunk ctx data.length))
      (sha512UpdateTurn compress ctx data) := by
  have hlt := ctx.bufLen_lt
  have hpend := ctx.length_pending
  have hlen := length_take_chunk ctx data
  have hle : ctx.bufLen + sha512Chunk ctx data.length ≤ 128 := by
    rw [sha512Chunk_eq_min]
    omega
  constructor
  · rcases Nat.lt_or_eq_of_le hle with hopen | hfull
    · obtain ⟨hstate, hpending⟩ := sha512UpdateTurn_open compress hopen
      rw [hstate, hpending]
      exact h.consumed.append_open (by rwa [hpend, hlen])
    · obtain ⟨hstate, hpending⟩ := sha512UpdateTurn_full compress hfull
      rw [hstate, hpending]
      exact h.consumed.append_fill (by rwa [hpend, hlen])
  · rw [count_sha512UpdateTurn, h.count, length_append, hlen, UInt64.ofNat_add]

theorem Absorbed.update (h : Absorbed compress s₀ msg ctx) (data : List UInt8) :
    Absorbed compress s₀ (msg ++ data) (sha512Update compress ctx data) := by
  fun_induction sha512Update compress ctx data generalizing msg with
  | case1 ctx => rwa [append_nil]
  | case2 ctx data hdata ih =>
    have hnext := ih (h.turn data)
    rwa [append_assoc, take_append_drop] at hnext

theorem Absorbed.pieces (h : Absorbed compress s₀ msg ctx) (pieces : List (List UInt8)) :
    Absorbed compress s₀ (msg ++ pieces.flatten) (pieces.foldl (sha512Update compress) ctx) := by
  induction pieces generalizing msg ctx with
  | nil => simpa using h
  | cons piece pieces ih =>
    have hnext := ih (h.update piece)
    rwa [append_assoc] at hnext

/-! ## Closing -/

theorem sha512Close_eq (state : Table UInt64 8) (buffer : Table UInt8 128) {bufLen : Nat}
    (hlen : bufLen ≤ 112) (bits : UInt64) :
    sha512Close compress state buffer bufLen bits =
      compress state (buffer.slots.take bufLen ++ (replicate (112 - bufLen) 0 ++
        (replicate 8 0 ++ (leBytes 8 bits.toNat).reverse))) := by
  have hzeros := Table.take_write buffer bufLen (replicate (112 - bufLen) 0)
    (by rw [length_replicate]; omega)
  rw [length_replicate, Nat.add_sub_cancel' hlen] at hzeros
  have hhigh := Table.take_write (buffer.write bufLen (replicate (112 - bufLen) 0)) 112
    (replicate 8 0) (by decide)
  rw [hzeros, length_replicate] at hhigh
  rw [sha512Close, Table.slots_write_end _ 120 _ (by simp), hhigh, map_beByte]
  simp only [append_assoc]

theorem take_mark (ctx : Sha512Ctx) :
    (ctx.buffer.write ctx.bufLen [0x80]).slots.take (ctx.bufLen + 1) = ctx.pending ++ [0x80] :=
  Table.take_write ctx.buffer ctx.bufLen [0x80] ctx.bufLen_lt

theorem blocks_padded_short (pend : List UInt8) (hfield : field.length = 16)
    (hshort : pend.length < 112) :
    blocks 128 (pend ++ 0x80 :: (replicate (Fips180.padZeros pend.length) 0 ++ field)) =
      [pend ++ [0x80] ++ (replicate (112 - (pend.length + 1)) 0 ++ field)] := by
  have hzeros : Fips180.padZeros pend.length = 112 - (pend.length + 1) := by
    rw [Fips180.padZeros]
    omega
  rw [blocks_eq_singleton (by decide), hzeros, append_assoc, singleton_append]
  simp only [length_append, length_cons, length_replicate, hzeros, hfield]
  omega

theorem blocks_padded_long (pend : List UInt8) (hfield : field.length = 16)
    (hlong : 112 ≤ pend.length) (hopen : pend.length < 128) :
    blocks 128 (pend ++ 0x80 :: (replicate (Fips180.padZeros pend.length) 0 ++ field)) =
      [pend ++ [0x80] ++ replicate (128 - (pend.length + 1)) 0,
        replicate 112 0 ++ field] := by
  have hzeros : Fips180.padZeros pend.length = (128 - (pend.length + 1)) + 112 := by
    rw [Fips180.padZeros]
    omega
  have hfirst : (pend ++ [0x80] ++ replicate (128 - (pend.length + 1)) (0 : UInt8)).length
      = 128 := by
    simp only [length_append, length_singleton, length_replicate]
    omega
  have hsecond : (replicate 112 (0 : UInt8) ++ field).length = 128 := by
    rw [length_append, length_replicate, hfield]
  rw [hzeros, replicate_add, ← blocks_eq_singleton (by decide) hsecond,
    ← blocks_append_of_length (by decide) hfirst]
  simp only [append_assoc, cons_append, nil_append]

theorem sha512Final_eq (ctx : Sha512Ctx) : sha512Final compress ctx =
      ((blocks 128 (ctx.pending ++ 0x80 :: (replicate (Fips180.padZeros ctx.bufLen) 0 ++
        (replicate 8 0 ++ (leBytes 8 (ctx.count * 8).toNat).reverse)))).foldl
          compress ctx.state).slots.flatMap fun w => (leBytes 8 w.toNat).reverse := by
  have hlt := ctx.bufLen_lt
  have hmark := take_mark ctx
  have hfield : (replicate 8 0 ++ (leBytes 8 (ctx.count * 8).toNat).reverse).length = 16 := by
    rw [length_append, length_replicate, length_reverse, length_leBytes]
  simp only [sha512Final, map_beByte]
  congr 2
  by_cases hlong : ctx.bufLen + 1 > 112
  · have hfill := Table.slots_write_end (ctx.buffer.write ctx.bufLen [0x80]) (ctx.bufLen + 1)
      (replicate (128 - (ctx.bufLen + 1)) 0) (by rw [length_replicate]; omega)
    have hblocks := blocks_padded_long ctx.pending hfield
      (by rw [ctx.length_pending]; omega) (by rwa [ctx.length_pending])
    rw [ctx.length_pending] at hblocks
    rw [if_pos hlong, sha512Close_eq _ _ (by decide), hfill, hmark, hblocks, take_zero,
      nil_append, foldl_cons, foldl_cons, foldl_nil]
  · have hblocks := blocks_padded_short ctx.pending hfield (by rw [ctx.length_pending]; omega)
    rw [ctx.length_pending] at hblocks
    rw [if_neg hlong, sha512Close_eq _ _ (by omega), hmark, hblocks, foldl_cons, foldl_nil]

theorem Absorbed.final (h : Absorbed compress Fips180.initialHash msg ctx)
    (hmsg : msg.length < 2 ^ 61) :
    sha512Final compress ctx = Fips180.sha512 compress msg := by
  have hbits : (ctx.count * 8).toNat = 8 * msg.length := by
    have height : (8 : UInt64).toNat = 8 := rfl
    rw [h.count, UInt64.toNat_mul, UInt64.toNat_ofNat', height]
    omega
  have hzeros : Fips180.padZeros ctx.bufLen = Fips180.padZeros msg.length := by
    rw [← ctx.length_pending, h.consumed.length_pend, Fips180.padZeros, Fips180.padZeros,
      Nat.mod_mod]
  rw [sha512Final_eq, hbits, hzeros, ← lengthField_eq (by omega), ← h.consumed.fold]
  rfl

theorem sha512Pieces_eq (buffer : Table UInt8 128) (pieces : List (List UInt8))
    (hmsg : pieces.flatten.length < 2 ^ 61) :
    sha512Pieces compress buffer pieces = Fips180.sha512 compress pieces.flatten :=
  ((Absorbed.init buffer).pieces pieces).final hmsg

end Streaming

-- the padded message `abc`, and the words of its digest
example : (sha512Compress (sha512Init (Table.ofList 0 [])).state
      ([0x61, 0x62, 0x63, 0x80] ++ replicate 123 0 ++ [0x18])).slots =
    [0xDDAF35A193617ABA, 0xCC417349AE204131, 0x12E6FA4E89A97EA2, 0x0A9EEEE64B55D39A,
     0x2192992A274FC1A8, 0x36BA3C23A3FEEBBD, 0x454D4423643CE80E, 0x2A9AC94FA54CA49F] := by
  decide +kernel

/-- Whatever the compression and the cut of the message, the digest is that of the standard. -/
theorem sha512_streaming (compress : Table UInt64 8 → List UInt8 → Table UInt64 8)
    (msg : List UInt8) (hmsg : msg.length < 2 ^ 61) :
    (∀ buffer pieces, pieces.flatten = msg →
        sha512Pieces compress buffer pieces = Fips180.sha512 compress msg) ∧
      ∀ buffer buffer' pieces pieces', pieces.flatten = msg → pieces'.flatten = msg →
        sha512Pieces compress buffer pieces = sha512Pieces compress buffer' pieces' := by
  have hdigest : ∀ buffer pieces, pieces.flatten = msg →
      sha512Pieces compress buffer pieces = Fips180.sha512 compress msg := by
    rintro buffer pieces rfl
    exact sha512Pieces_eq buffer pieces hmsg
  refine ⟨hdigest, ?_⟩
  intro buffer buffer' pieces pieces' hpieces hpieces'
  rw [hdigest buffer pieces hpieces, hdigest buffer' pieces' hpieces']

theorem sha512_streaming_abc :
    ([0x61, 0x62, 0x63] : List UInt8).length < 2 ^ 61 ∧
      sha512Pieces sha512Compress (Table.ofList 0 []) [[0x61], [], [0x62, 0x63]] =
        Fips180.sha512 sha512Compress [0x61, 0x62, 0x63] :=
  ⟨by decide, (sha512_streaming sha512Compress [0x61, 0x62, 0x63] (by decide)).1
    (Table.ofList 0 []) [[0x61], [], [0x62, 0x63]] rfl⟩

end AlJefra.Store
