/- When a downloaded driver is complete. -/
import AlJefra.Ai.Marketplace
import Mathlib.Data.List.TakeWhile

namespace AlJefra.Ai.Marketplace

open AlJefra.Lib AlJefra.Lib.Http AlJefra.Hal List

/-! ## Delivery -/

/-- The bytes of the first `mkt_recv`, those that come at all, and the later pieces, less one. -/
structure Delivery where
  first : Nat
  arriving : Nat
  size : Nat → Nat

def pieces (total : Nat) (size : Nat → Nat) : Nat → Nat → Nat → List UInt8 → List (List UInt8)
  | 0, _, _, _ => []
  | fuel + 1, n, received, rest =>
    let data := rest.take (min (size n + 1) (min (total - received) 65536))
    data :: pieces total size fuel (n + 1) (received + data.length) (rest.drop data.length)

namespace Delivery

variable (d : Delivery) (r : Response)

def segment : List UInt8 := (r.bytes.take d.arriving).take (min d.first 4095)
def rest : List UInt8 := (r.bytes.take d.arriving).drop (d.segment r).length

def net : DriverNet :=
  let total := (totalBodySize (d.segment r) r.head.length).toNat
  { connects := true
    sends := true
    header := d.segment r
    chunks := pieces total d.size (d.rest r).length 0
      (min ((d.segment r).length - r.head.length) total) (d.rest r) }

def bodyArriving : Nat := (r.bytes.take d.arriving).length - r.head.length
def bodyFirst : Nat := (d.segment r).length - r.head.length

end Delivery

def announced (r : Response) : Int :=
  match behind contentLengthKey r.head with
  | none => -1
  | some t => (decimal ((t.dropWhile (· = 0x20)).takeWhile isDigit) : Int).bmod (2 ^ 32)

/-- Without the whole header block the call fails. A positive number needs a buffer that cannot be
had, at most half of the bytes, or all of them; otherwise the first segment has none of the body, or
all of it. -/
def CompleteOk (r : Response) (d : Delivery) (dmaAlloc : UInt32 → Option Pointer) : Prop :=
  (d.segment r).length < r.head.length ∨
  (0 < announced r ∧
    (maxDriverSize.toNat < announced r ∨ dmaAlloc (UInt32.ofNat (announced r).toNat) = none ∨
      (d.bodyArriving r : Int) ≤ announced r / 2 ∨
        d.bodyArriving r = r.body.length ∧ (r.body.length : Int) ≤ announced r)) ∨
  (announced r ≤ 0 ∧
    (d.bodyFirst r = 0 ∨ dmaAlloc (UInt32.ofNat (d.bodyFirst r)) = none ∨
      d.bodyFirst r = r.body.length))

/-! ## Parsing the headers -/

theorem findHttpBody_eq : ∀ (l : List UInt8) (i : Nat), findHttpBody l i = emptyLineEnd l i := by
  intro l
  induction l with
  | nil => intro i; rfl
  | cons c cs ih =>
    intro i
    rw [findHttpBody, emptyLineEnd, ih]

theorem toInt_lengthValue (s : List UInt8) : (lengthValue s).toInt =
    (decimal ((s.dropWhile (· = 0x20)).takeWhile isDigit) : Int).bmod (2 ^ 32) := by
  have hfold : ∀ (ds : List UInt8) (n : Nat),
      ds.foldl (fun val c => val * 10 + Int32.ofNat (c - 0x30).toNat) (Int32.ofNat n) =
        Int32.ofNat (ds.foldl (fun n c => n * 10 + (c - 0x30).toNat) n) := by
    intro ds
    induction ds with
    | nil => intro n; rfl
    | cons d ds ih =>
      intro n
      rw [foldl_cons, foldl_cons, ← ih, Int32.ofNat_add, Int32.ofNat_mul]
      rfl
  have hzero : lengthValue s = Int32.ofNat _ := hfold _ 0
  rw [hzero, Int32.toInt_ofNat']
  rfl

theorem toInt_parseContentLength (l : List UInt8) : (parseContentLength l).toInt =
      match behind contentLengthKey l with
      | none => -1
      | some t => (decimal ((t.dropWhile (· = 0x20)).takeWhile isDigit) : Int).bmod (2 ^ 32) := by
  induction l with
  | nil => rfl
  | cons c cs ih =>
    have hlen : contentLengthKey.length = 15 := rfl
    rw [parseContentLength, behind_cons, hlen]
    split
    · exact toInt_lengthValue _
    · exact ih

theorem parseHttpStatus_complete (r : Response) {n : Nat} (h : r.head.length ≤ n) :
    parseHttpStatus (r.bytes.take n) = 200 := by
  have hversion := r.length_version
  have hhead := r.length_head
  have hbody := r.length_bytes
  obtain ⟨tail, hbytes, -⟩ := r.bytes_eq
  obtain ⟨k, rfl⟩ : ∃ k, n = r.version.length + (k + 4) := ⟨n - r.version.length - 4, by omega⟩
  have hseg : r.bytes.take (r.version.length + (k + 4)) =
      r.version ++ 0x20 :: 0x32 :: 0x30 :: 0x30 :: tail.take k := by
    rw [hbytes, take_length_add_append]
    rfl
  have hlen : ¬ (r.bytes.take (r.version.length + (k + 4))).length < 12 := by
    rw [length_take]
    omega
  have hword : ∀ c ∈ r.version, decide (c ≠ 0x20) = true := by
    intro c hc
    have hne : c ≠ 0x20 := fun h => r.version_word (h ▸ hc)
    simpa using hne
  unfold parseHttpStatus
  rw [if_neg hlen, hseg, take_append_of_le_length hversion, r.version_http,
    if_neg (not_not.mpr (by decide)), dropWhile_append_of_pos hword,
    dropWhile_cons_of_neg (by simp)]
  simp [isDigit]

/-! ## The loop -/

variable {rest : List UInt8} {d : Delivery} {r : Response}

theorem receiveLoop_round {total received : UInt32} (size : Nat → Nat) (fuel n : Nat)
    (buf : Pointer) (hlt : received < total) (hrest : rest ≠ []) :
    ∃ (data : List UInt8) (received' : UInt32),
      data ≠ [] ∧ data = rest.take data.length ∧ data.length ≤ rest.length ∧
      received'.toNat = received.toNat + data.length ∧ received'.toNat ≤ total.toNat ∧
      receiveLoop total (pieces total.toNat size (fuel + 1) n received.toNat rest) buf received =
        receiveLoop total (pieces total.toNat size fuel (n + 1) received'.toNat
          (rest.drop data.length)) (buf.write received.toNat data) received' := by
  have hnat := UInt32.lt_iff_toNat_lt.mp hlt
  have hmax := total.toNat_lt
  have hask : (min (total - received) tcpRxBufSize).toNat =
      min (total.toNat - received.toNat) 65536 := by
    rw [UInt32.toNat_min, UInt32.toNat_sub_of_le _ _ (UInt32.le_of_lt hlt)]
    rfl
  have hpos : 0 < rest.length := length_pos_iff.mpr hrest
  refine ⟨rest.take (min (size n + 1) (min (total.toNat - received.toNat) 65536)),
    received + UInt32.ofNat
      (rest.take (min (size n + 1) (min (total.toNat - received.toNat) 65536))).length, ?_⟩
  generalize hdata : rest.take (min (size n + 1) (min (total.toNat - received.toNat) 65536)) = data
  have hlen : data.length = min (min (size n + 1) (min (total.toNat - received.toNat) 65536))
      rest.length := by rw [← hdata, length_take]
  have hne : data ≠ [] := ne_nil_of_length_pos (by omega)
  have hadd : (received + UInt32.ofNat data.length).toNat = received.toNat + data.length := by
    rw [UInt32.toNat_add, UInt32.toNat_ofNat']
    omega
  refine ⟨hne, ?_, by omega, hadd, by omega, ?_⟩
  · rw [hlen, ← take_eq_take_min, hdata]
  · rw [pieces, hdata, receiveLoop, if_pos hlt, hask, take_of_length_le (by omega), hadd]
    rw [if_neg hne]

theorem receiveLoop_end {total : UInt32} {buf : Pointer} {received : UInt32}
    {result : Option (Pointer × UInt32)} (hle : received.toNat ≤ total.toNat)
    (hresult : result =
      if received < total then stalled total buf received else some (buf, received))
    (hrest : rest = [] ∨ ¬ received < total) :
    let final := min total.toNat (received.toNat + rest.length)
    (final = total.toNat ∨ total.toNat / 2 < final →
      ∃ buf' received', result = some (buf', received') ∧ received'.toNat = final ∧
        buf'.bytes 0 final = buf.bytes 0 received.toNat ++ rest.take (final - received.toNat)) ∧
    (¬ (final = total.toNat ∨ total.toNat / 2 < final) → result = none) := by
  intro final
  have hfinal : final = received.toNat := by
    obtain rfl | hge := hrest
    · simp only [final, length_nil]
      omega
    · rw [UInt32.lt_iff_toNat_lt] at hge
      omega
  rw [hfinal, Nat.sub_self, take_zero, append_nil, hresult]
  have hhalf : total / 2 < received ↔ total.toNat / 2 < received.toNat := by
    rw [UInt32.lt_iff_toNat_lt]
    rfl
  have hnat : received < total ↔ received.toNat < total.toNat := UInt32.lt_iff_toNat_lt
  by_cases hlt : received < total
  · rw [if_pos hlt, stalled]
    by_cases hmost : total / 2 < received
    · rw [if_pos hmost]
      exact ⟨fun _ => ⟨buf, received, rfl, rfl, rfl⟩, fun h => absurd (.inr (hhalf.mp hmost)) h⟩
    · rw [if_neg hmost]
      refine ⟨fun h => ?_, fun _ => rfl⟩
      exact absurd (h.resolve_right hmost) (Nat.ne_of_lt (hnat.mp hlt))
  · rw [if_neg hlt]
    refine ⟨fun _ => ⟨buf, received, rfl, rfl, rfl⟩, fun h => absurd (.inl ?_) h⟩
    exact Nat.le_antisymm hle (Nat.not_lt.mp fun h => hlt (hnat.mpr h))

theorem receiveLoop_pieces (total : UInt32) (size : Nat → Nat) : ∀ (fuel n : Nat)
    (rest : List UInt8) (buf : Pointer) (received : UInt32), received.toNat ≤ total.toNat →
    rest.length ≤ fuel →
    let final := min total.toNat (received.toNat + rest.length)
    let result := receiveLoop total
      (pieces total.toNat size fuel n received.toNat rest) buf received
    (final = total.toNat ∨ total.toNat / 2 < final →
      ∃ buf' received', result = some (buf', received') ∧ received'.toNat = final ∧
        buf'.bytes 0 final = buf.bytes 0 received.toNat ++ rest.take (final - received.toNat)) ∧
    (¬ (final = total.toNat ∨ total.toNat / 2 < final) → result = none) := by
  intro fuel
  induction fuel with
  | zero =>
    intro n rest buf received hle hfuel
    obtain rfl : rest = [] := eq_nil_of_length_eq_zero (by omega)
    exact receiveLoop_end hle (by rw [pieces, receiveLoop]) (.inl rfl)
  | succ fuel ih =>
    intro n rest buf received hle hfuel
    by_cases hend : rest = [] ∨ ¬ received < total
    · refine receiveLoop_end hle ?_ hend
      obtain rfl | hge := hend
      · rw [pieces, receiveLoop]
        simp
      · rw [pieces, receiveLoop, if_neg hge, if_neg hge]
    · obtain ⟨hrest, hlt⟩ := not_or.mp hend
      obtain ⟨data, received', hne, hdata, hlen, hreceived, hle', hround⟩ :=
        receiveLoop_round size fuel n buf (not_not.mp hlt) hrest
      have hpos := length_pos_iff.mpr hne
      obtain ⟨hsome, hnone⟩ := ih (n + 1) (rest.drop data.length)
        (buf.write received.toNat data) received' hle' (by rw [length_drop]; omega)
      have hfinal : min total.toNat (received'.toNat + (rest.drop data.length).length) =
          min total.toNat (received.toNat + rest.length) := by
        rw [length_drop, hreceived]
        omega
      rw [hfinal] at hsome hnone
      simp only [hround]
      refine ⟨fun h => ?_, hnone⟩
      obtain ⟨buf', received'', hres, hnat, hbytes⟩ := hsome h
      refine ⟨buf', received'', hres, hnat, ?_⟩
      have hsplit : min total.toNat (received.toNat + rest.length) - received.toNat =
          data.length + (min total.toNat (received.toNat + rest.length) - received'.toNat) := by
        omega
      rw [hbytes, hreceived, Pointer.bytes_write, append_assoc, ← hreceived, hsplit,
        take_add, ← hdata]

/-! ## The call -/

section Call

variable (d : Delivery) (r : Response)

theorem Delivery.segment_eq : d.segment r = r.bytes.take (min d.arriving (min d.first 4095)) ∧
      (d.segment r).length = min (min d.arriving (min d.first 4095)) r.bytes.length := by
  have heq : d.segment r = r.bytes.take (min d.arriving (min d.first 4095)) := by
    rw [Delivery.segment, take_take, Nat.min_comm]
  exact ⟨heq, by rw [heq, length_take]⟩

theorem Delivery.bodyFirst_le : d.bodyFirst r ≤ d.bodyArriving r ∧
    d.bodyArriving r ≤ r.body.length := by
  have hlen := (d.segment_eq r).2
  have hbytes := r.length_bytes
  unfold Delivery.bodyFirst Delivery.bodyArriving
  rw [length_take]
  omega

theorem Delivery.complete (h : r.head.length ≤ (d.segment r).length) :
    findHttpBody (d.segment r) 0 = some r.head.length ∧ (d.segment r).take r.head.length = r.head ∧
      (d.segment r).drop r.head.length = r.body.take (d.bodyFirst r) ∧
      d.rest r = (r.body.take (d.bodyArriving r)).drop (d.bodyFirst r) := by
  obtain ⟨hseg, hlen⟩ := d.segment_eq r
  have hbytes := r.length_bytes
  have harrive : (r.bytes.take d.arriving).length = min d.arriving r.bytes.length := length_take ..
  refine ⟨?_, ?_, ?_, ?_⟩
  · rw [findHttpBody_eq, hseg, emptyLineEnd_take_bytes, if_pos (by omega)]
  · rw [hseg, take_take, min_eq_left (by omega), Response.bytes, take_left]
  · rw [hseg, drop_take, Response.bytes, drop_left, take_eq_take_iff]
    unfold Delivery.bodyFirst
    omega
  · have htake : r.bytes.take d.arriving = r.head ++ r.body.take (d.bodyArriving r) := by
      have hsplit : d.arriving = r.head.length + (d.arriving - r.head.length) := by omega
      rw [Response.bytes, hsplit, take_length_add_append]
      congr 1
      rw [take_eq_take_iff]
      unfold Delivery.bodyArriving
      omega
    rw [Delivery.rest, htake, drop_append, drop_of_length_le h, nil_append]
    rfl

theorem Delivery.toNat_total (h : r.head.length ≤ (d.segment r).length) :
    (totalBodySize (d.segment r) r.head.length).toNat =
      if 0 < announced r then (announced r).toNat else d.bodyFirst r := by
  obtain ⟨-, hhead, -, -⟩ := d.complete r h
  have hlen := (d.segment_eq r).2
  have hannounced : announced r = (parseContentLength r.head).toInt :=
    (toInt_parseContentLength r.head).symm
  have hpos : 0 < parseContentLength r.head ↔ 0 < announced r := by
    rw [hannounced, Int32.lt_iff_toInt_lt]
    rfl
  unfold totalBodySize
  rw [hhead]
  by_cases hx : 0 < announced r
  · have hnat : (parseContentLength r.head).toUInt32.toNat =
        (parseContentLength r.head).toBitVec.toNat := rfl
    have hint : (parseContentLength r.head).toInt =
        (parseContentLength r.head).toBitVec.toInt := rfl
    rw [if_pos hx, if_pos (hpos.mpr hx), hannounced, hnat]
    rw [hannounced, hint] at hx
    rw [hint]
    rw [BitVec.toInt_eq_toNat_cond] at hx ⊢
    split at hx
    · rename_i hsmall
      rw [if_pos hsmall]
      rfl
    · omega
  · rw [if_neg hx, if_neg (fun h => hx (hpos.mp h)), UInt32.toNat_ofNat']
    unfold Delivery.bodyFirst
    omega

def Delivery.received : Nat :=
  min (if 0 < announced r then (announced r).toNat else d.bodyFirst r) (d.bodyArriving r)

theorem bytes_received (mem : Pointer) (body : List UInt8) {j b : Nat} (hj : j ≤ b)
    (hb : b ≤ body.length) (total : Nat) :
    (mem.write 0 ((body.take j).take (min j total))).bytes 0 (min j total) ++
      ((body.take b).drop j).take (min total b - min j total) = body.take (min total b) := by
  have hlen : ((body.take j).take (min j total)).length = min j total := by
    rw [length_take, length_take]
    omega
  have hwrite := Pointer.bytes_write mem 0 ((body.take j).take (min j total))
  have hnil : mem.bytes 0 0 = [] := rfl
  rw [hlen, zero_add, hnil, nil_append] at hwrite
  rw [hwrite, take_take, min_eq_left (by omega), drop_take, take_take]
  by_cases hall : total ≤ j
  · have hzero : min total b - min j total = 0 := by omega
    rw [hzero, Nat.zero_min, take_zero, append_nil, min_eq_right hall,
      min_eq_left (by omega)]
  · have hsplit : min total b = j + (min total b - j) := by omega
    rw [min_eq_left (show j ≤ total by omega), min_eq_left (by omega), hsplit,
      take_add, ← hsplit]

theorem receiveBody_complete (h : r.head.length ≤ (d.segment r).length)
    (dmaAlloc : UInt32 → Option Pointer) (request : List UInt8) :
    let total := if 0 < announced r then (announced r).toNat else d.bodyFirst r
    let result := receiveBody dmaAlloc (d.segment r) r.head.length (d.net r).chunks request
    (result.status = .ok ↔ total ≠ 0 ∧ total ≤ maxDriverSize.toNat ∧
      dmaAlloc (UInt32.ofNat total) ≠ none ∧ (d.received r = total ∨ total / 2 < d.received r)) ∧
    (result.status = .ok → result.size.toNat = d.received r ∧
      ∃ buf, result.data = some buf ∧ buf.bytes 0 (d.received r) = r.body.take (d.received r)) := by
  intro total result
  obtain ⟨-, -, hfirst, hrest⟩ := d.complete r h
  obtain ⟨hle, hbody⟩ := d.bodyFirst_le r
  have hseg := (d.segment_eq r).2
  have htotal : (totalBodySize (d.segment r) r.head.length).toNat = total := d.toNat_total r h
  have hchunks : (d.net r).chunks = pieces total d.size (d.rest r).length 0
      (min (d.bodyFirst r) total) (d.rest r) := by
    rw [← htotal]
    rfl
  have hrestlen : (d.rest r).length = d.bodyArriving r - d.bodyFirst r := by
    rw [hrest, length_drop, length_take]
    omega
  have hrec : d.received r = min total (d.bodyArriving r) := rfl
  generalize hsize : totalBodySize (d.segment r) r.head.length = size at htotal
  have hreceived : (min (UInt32.ofNat ((d.segment r).length - r.head.length)) size).toNat =
      min (d.bodyFirst r) total := by
    rw [UInt32.toNat_min, UInt32.toNat_ofNat', htotal]
    unfold Delivery.bodyFirst
    omega
  have hofNat : UInt32.ofNat total = size := by
    rw [← htotal]
    exact UInt32.ofNat_toNat
  have hzero : size = 0 ↔ total = 0 := by
    rw [← htotal, ← UInt32.toNat_inj]
    rfl
  have hlarge : maxDriverSize < size ↔ maxDriverSize.toNat < total := by
    rw [UInt32.lt_iff_toNat_lt, htotal]
  simp only [result, receiveBody, hsize, hofNat]
  by_cases hbad : size = 0 ∨ maxDriverSize < size
  · rw [if_pos hbad]
    rw [hzero, hlarge] at hbad
    exact ⟨⟨fun hok => (by cases hok), fun hok => by omega⟩, fun hok => by cases hok⟩
  · rw [if_neg hbad]
    rw [hzero, hlarge] at hbad
    cases halloc : dmaAlloc size with
    | none =>
      exact ⟨⟨fun hok => (by cases hok), fun hok => absurd rfl hok.2.2.1⟩, fun hok => by cases hok⟩
    | some mem =>
      simp only
      rw [hfirst, hchunks]
      generalize min (UInt32.ofNat ((d.segment r).length - r.head.length)) size = received
        at hreceived ⊢
      have hfinal : min size.toNat (received.toNat + (d.rest r).length) = d.received r := by
        omega
      have hstart : received.toNat ≤ size.toNat := by omega
      have hbytes : (mem.write 0 ((r.body.take (d.bodyFirst r)).take received.toNat)).bytes 0
          received.toNat ++ (d.rest r).take (d.received r - received.toNat) =
            r.body.take (d.received r) := by
        rw [hreceived, hrest]
        exact bytes_received mem r.body hle hbody total
      obtain ⟨hsome, hnone⟩ := receiveLoop_pieces size d.size (d.rest r).length 0 (d.rest r)
        (mem.write 0 ((r.body.take (d.bodyFirst r)).take received.toNat)) received hstart
        (le_refl _)
      rw [hfinal, hbytes, hreceived, htotal] at hsome
      rw [hfinal, hreceived, htotal] at hnone
      rw [hreceived]
      by_cases henough : d.received r = total ∨ total / 2 < d.received r
      · obtain ⟨buf', received', hres, hnat, hfull⟩ := hsome henough
        rw [hres]
        obtain ⟨hne, hmax⟩ := not_or.mp hbad
        refine ⟨⟨fun _ => ⟨hne, Nat.not_lt.mp hmax, by simp, henough⟩, fun _ => rfl⟩, fun _ => ?_⟩
        exact ⟨by rw [← hnat]; exact UInt32.toNat_toUInt64 .., buf', rfl, hfull⟩
      · rw [hnone henough]
        exact ⟨⟨fun hok => (by cases hok), fun hok => absurd hok.2.2.2 henough⟩,
          fun hok => by cases hok⟩

end Call

/-! ## Completeness -/

theorem status_of_cut (h : (d.segment r).length < r.head.length) (arch : HalArch)
    (remoteIp : UInt32) (vendorId deviceId : UInt16) (dmaAlloc : UInt32 → Option Pointer) :
    (marketplaceGetDriver arch remoteIp vendorId deviceId (d.net r) dmaAlloc).status ≠ .ok := by
  obtain ⟨hseg, hlen⟩ := d.segment_eq r
  have hbytes := r.length_bytes
  have hnone : findHttpBody (d.segment r) 0 = none := by
    rw [findHttpBody_eq, hseg, emptyLineEnd_take_bytes, if_neg (by omega)]
  have htake : (d.net r).header.take 4095 = d.segment r :=
    take_of_length_le (by change (d.segment r).length ≤ 4095; omega)
  unfold marketplaceGetDriver
  simp only [htake, hnone]
  split_ifs <;> simp

theorem getDriver_complete (h : r.head.length ≤ (d.segment r).length) (arch : HalArch)
    (remoteIp : UInt32) (vendorId deviceId : UInt16) (dmaAlloc : UInt32 → Option Pointer) :
    ∃ request, marketplaceGetDriver arch remoteIp vendorId deviceId (d.net r) dmaAlloc =
      receiveBody dmaAlloc (d.segment r) r.head.length (d.net r).chunks request := by
  obtain ⟨hseg, hlen⟩ := d.segment_eq r
  obtain ⟨hbody, -, -, -⟩ := d.complete r h
  have hhead := r.length_head
  have htake : (d.net r).header.take 4095 = d.segment r :=
    take_of_length_le (by change (d.segment r).length ≤ 4095; omega)
  have hstatus : parseHttpStatus (d.segment r) = 200 := by
    rw [hseg]
    exact parseHttpStatus_complete r (by omega)
  have hne : d.segment r ≠ [] := ne_nil_of_length_pos (by omega)
  have hnet : (d.net r).connects = true ∧ (d.net r).sends = true := ⟨rfl, rfl⟩
  refine ⟨buildHttpRequest (ascii "GET") (driverPath vendorId deviceId arch)
    (buildHostStr remoteIp) [] 2048, ?_⟩
  unfold marketplaceGetDriver
  simp [htake, hbody, hstatus, hne, hnet]

theorem received_iff (h : r.head.length ≤ (d.segment r).length)
    (dmaAlloc : UInt32 → Option Pointer) :
    let total := if 0 < announced r then (announced r).toNat else d.bodyFirst r
    (total ≠ 0 ∧ total ≤ maxDriverSize.toNat ∧ dmaAlloc (UInt32.ofNat total) ≠ none ∧
        (d.received r = total ∨ total / 2 < d.received r) → d.received r = r.body.length) ↔
      CompleteOk r d dmaAlloc := by
  obtain ⟨hfirst, hbody⟩ := d.bodyFirst_le r
  have hmax : maxDriverSize.toNat = 1048576 := rfl
  have hseg := (d.segment_eq r).2
  have hj : d.bodyFirst r = (d.segment r).length - r.head.length := rfl
  unfold CompleteOk Delivery.received
  by_cases hx : 0 < announced r
  · simp only [hx, if_true, true_and]
    constructor
    · intro hcall
      by_contra hnot
      simp only [not_or] at hnot
      obtain ⟨-, ⟨hsmall, halloc, hmost, hall⟩, -⟩ := hnot
      have := hcall ⟨by omega, by omega, halloc, by omega⟩
      exact hall ⟨by omega, by omega⟩
    · rintro (hcut | (hlarge | halloc | hhalf | ⟨hall, hle⟩) | ⟨hneg, -⟩) ⟨hne, hsmall, hbuf, hmost⟩
      · omega
      · omega
      · exact absurd halloc hbuf
      · omega
      · omega
      · omega
  · simp only [hx, if_false, false_and, false_or]
    constructor
    · intro hcall
      by_contra hnot
      simp only [not_or, not_and] at hnot
      obtain ⟨hne, halloc, hall⟩ := hnot.2 (by omega)
      have := hcall ⟨hne, by omega, halloc, by omega⟩
      omega
    · rintro (hcut | ⟨-, hnone | halloc | hall⟩) ⟨hne, hsmall, hbuf, hmost⟩
      · omega
      · exact absurd hnone hne
      · exact absurd halloc hbuf
      · omega

/-- Whatever the network delivers, `HAL_OK` means the whole body exactly as `CompleteOk` says. -/
theorem marketplaceGetDriver_complete_iff (arch : HalArch) (remoteIp : UInt32)
    (vendorId deviceId : UInt16) (r : Response) (d : Delivery)
    (dmaAlloc : UInt32 → Option Pointer) :
    let result := marketplaceGetDriver arch remoteIp vendorId deviceId (d.net r) dmaAlloc
    (result.status = .ok → result.size.toNat = r.body.length ∧
      ∃ buf, result.data = some buf ∧ buf.bytes 0 result.size.toNat = r.body) ↔
        CompleteOk r d dmaAlloc := by
  intro result
  by_cases hcut : (d.segment r).length < r.head.length
  · have hstatus := status_of_cut hcut arch remoteIp vendorId deviceId dmaAlloc
    exact ⟨fun _ => .inl hcut, fun _ hok => absurd hok hstatus⟩
  · obtain ⟨request, hcall⟩ :=
      getDriver_complete (Nat.not_lt.mp hcut) arch remoteIp vendorId deviceId dmaAlloc
    obtain ⟨hok, hdata⟩ := receiveBody_complete d r (Nat.not_lt.mp hcut) dmaAlloc request
    rw [← hcall] at hok hdata
    have hfaithful : (result.status = .ok → result.size.toNat = r.body.length ∧
        ∃ buf, result.data = some buf ∧ buf.bytes 0 result.size.toNat = r.body) ↔
          (result.status = .ok → d.received r = r.body.length) := by
      refine forall_congr' fun hstatus => ?_
      obtain ⟨hsize, buf, hbuf, hbytes⟩ := hdata hstatus
      constructor
      · rintro ⟨hlen, -⟩
        rw [← hlen, ← hsize]
      · intro hlen
        rw [hlen, take_length] at hbytes
        rw [hlen] at hsize
        exact ⟨hsize, buf, hbuf, by rw [hsize]; exact hbytes⟩
    rw [hfaithful, hok]
    exact received_iff (Nat.not_lt.mp hcut) dmaAlloc

def fourBytes : Response where
  version := ascii "HTTP/1.1"
  reason := ascii " OK"
  fields := [{ name := ascii "Content-Length"
               value := ascii " 4"
               name_ne := by decide
               name_line := by simp [OnLine, ascii]
               value_line := by simp [OnLine, ascii] }]
  body := ascii "ABCD"
  version_line := by simp [OnLine, ascii]
  version_word := by decide
  version_http := by decide
  reason_line := by simp [OnLine, ascii]
  reason_apart := fun _ => by decide
  has_length := ⟨_, mem_singleton.mpr rfl, by decide⟩
  length_eq := by
    intro f hf _
    rw [mem_singleton.mp hf]
    exact ⟨[0x20], [0x34], [], by decide, by simp, by simp, by simp [Http.isDigit], by decide⟩

/-- The connection closes after three of four body bytes, and the call returns `HAL_OK`. -/
theorem marketplaceGetDriver_partial :
    let d : Delivery := { first := 38, arriving := 41, size := fun _ => 2 }
    let result := marketplaceGetDriver .x8664 0 0 0 (d.net fourBytes) fun _ => some fun _ => 0
    result.status = .ok ∧ result.size = 3 ∧
      result.data.map (·.bytes 0 3) = some (ascii "ABC") ∧ fourBytes.body = ascii "ABCD" := by
  decide +kernel

end AlJefra.Ai.Marketplace
