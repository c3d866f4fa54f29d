/- What `ota_download` stages of a response. -/
import AlJefra.Kernel.OtaTheorems
import Mathlib.Data.List.TakeWhile

namespace AlJefra.Kernel.Ota

open AlJefra.Lib AlJefra.Lib.Http AlJefra.Hal AlJefra.Store List UInt32

/-! ## Responses -/

structure UpdateResponse extends Response where
  length_pos : 1 ≤ body.length
  length_le : body.length ≤ otaStagingSize.toNat

def UpdateResponse.segment (r : UpdateResponse) (first : Nat) : List UInt8 :=
  r.bytes.take (min first 1024)

def deliver (contentLen : Nat) : Nat → List UInt8 → List Nat → List (List UInt8)
  | _, _, [] => []
  | staged, rest, arrived :: later =>
    let data := rest.take (min arrived (min (contentLen - staged) 4096))
    data :: deliver contentLen (staged + data.length) (rest.drop data.length) later

def UpdateResponse.net (r : UpdateResponse) (info : UpdateInfo) (first : Nat) (later : List Nat) :
    DownloadNet :=
  let hdr := r.segment first
  { connects := true
    header := hdr
    chunks := deliver (contentLength info hdr).toNat (initialBody hdr).length
      (r.bytes.drop hdr.length) later }

/-! ## The first segment -/

def announced (seg : List UInt8) : Nat :=
  match behind contentLengthNeedle seg with
  | none => 0
  | some t => decimal (t.takeWhile isDigit) % 2 ^ 32

/-- The status code is cut; or the headers are complete, and the body too or its number no smaller
than its length; or the headers are cut, and the number is too large, or right and the cut harmless.
-/
def FirstSegmentOk (r : UpdateResponse) (first : Nat) : Prop :=
  let seg := r.segment first
  seg.length < r.version.length + 4 ∨
  (r.head.length ≤ seg.length ∧
    (seg.length = r.bytes.length ∨ r.body.length ≤ announced seg)) ∨
  (seg.length < r.head.length ∧ announced seg ≠ 0 ∧
    (r.bytes.length - seg.length < announced seg ∨ otaStagingSize.toNat < announced seg ∨
      announced seg = r.body.length ∧ (r.bytes.drop seg.length).take r.body.length = r.body))

theorem toNat_leadingDecimal (s : List UInt8) :
    (leadingDecimal s).toNat = decimal (s.takeWhile isDigit) % 2 ^ 32 := by
  have hfold : ∀ (ds : List UInt8) (v : UInt32) (n : Nat), v.toNat = n % 2 ^ 32 →
      (ds.foldl (fun val c => val * 10 + (c - 0x30).toUInt32) v).toNat =
        ds.foldl (fun n c => n * 10 + (c - 0x30).toNat) n % 2 ^ 32 := by
    intro ds
    induction ds with
    | nil => intro v n h; exact h
    | cons d ds ih =>
      intro v n h
      apply ih
      rw [UInt32.toNat_add, UInt32.toNat_mul, h, UInt8.toNat_toUInt32]
      simp
  exact hfold _ 0 0 rfl

theorem toNat_parseContentLength (seg : List UInt8) :
    (parseContentLength seg).toNat = announced seg := by
  induction seg with
  | nil => rfl
  | cons c cs ih =>
    have hlen : contentLengthNeedle.length = 16 := rfl
    rw [parseContentLength, announced, behind_cons, hlen]
    split
    · exact toNat_leadingDecimal _
    · rw [ih, announced]

/-! ## The status code -/

theorem leadingDecimal_code {tail : List UInt8} (h : ∀ c ∈ tail.head?, isDigit c = false)
    (k : Nat) :
    leadingDecimal ((0x32 :: 0x30 :: 0x30 :: tail).take (k + 3)) = 200 := by
  have hstop : (tail.take k).takeWhile isDigit = [] := by
    cases hk : tail.take k with
    | nil => rfl
    | cons c cs =>
      have hc : isDigit c = false := by
        apply h
        cases k with
        | zero => simp at hk
        | succ k =>
          cases tail with
          | nil => simp at hk
          | cons d ds =>
            rw [(cons.inj hk).1]
            rfl
      simp [hc]
  have hdigits : isDigit 0x32 = true ∧ isDigit 0x30 = true := by decide
  simp only [leadingDecimal, take_succ_cons, takeWhile_cons, hdigits.1, hdigits.2, if_true, hstop]
  rfl

theorem parseHttpStatus_segment (r : Response) (n : Nat) :
    parseHttpStatus (r.bytes.take n) = 200 ↔ r.version.length + 4 ≤ (r.bytes.take n).length := by
  obtain ⟨tail, hbytes, htail⟩ := r.bytes_eq
  have hword : ∀ c ∈ r.version, decide (c ≠ 0x20) = true := by
    intro c hc
    have hne : c ≠ 0x20 := fun h => r.version_word (h ▸ hc)
    simpa using hne
  unfold parseHttpStatus
  rw [hbytes, take_append]
  by_cases hn : n ≤ r.version.length
  · -- no blank in the segment
    have hzero : n - r.version.length = 0 := by omega
    have hdrop : (r.version.take n).dropWhile (fun c => decide (c ≠ 0x20)) = [] :=
      dropWhile_eq_nil_iff.mpr fun c hc => hword c (mem_of_mem_take hc)
    rw [hzero, take_zero, append_nil, hdrop]
    simp only [length_take]
    constructor
    · intro h
      exact absurd h (by decide)
    · intro h
      omega
  · obtain ⟨k, rfl⟩ : ∃ k, n = r.version.length + (k + 1) := ⟨n - r.version.length - 1, by omega⟩
    rw [take_of_length_le (by omega), Nat.add_sub_cancel_left, take_succ_cons,
      dropWhile_append_of_pos hword, dropWhile_cons_of_neg (by simp), drop_one,
      tail_cons, length_append, length_cons]
    rcases k with _ | _ | _ | k
    · exact ⟨fun h => absurd (show leadingDecimal [] = 200 from h) (by decide),
        fun h => by simp at h⟩
    · exact ⟨fun h => absurd (show leadingDecimal [0x32] = 200 from h) (by decide),
        fun h => by simp at h⟩
    · exact ⟨fun h => absurd (show leadingDecimal [0x32, 0x30] = 200 from h) (by decide),
        fun h => by simp at h⟩
    · rw [leadingDecimal_code htail]
      simp

/-! ## The end of the headers -/

theorem findHeaderEnd_eq : ∀ (l : List UInt8) (i : Nat),
    findHeaderEnd l i = (emptyLineEnd l i).getD 0 := by
  intro l
  induction l with
  | nil => intro i; rfl
  | cons c cs ih =>
    intro i
    rw [findHeaderEnd, emptyLineEnd]
    split
    · rfl
    · exact ih (i + 1)

theorem findHeaderEnd_segment (r : Response) (n : Nat) :
    findHeaderEnd (r.bytes.take n) 0 = if r.head.length ≤ n then r.head.length else 0 := by
  rw [findHeaderEnd_eq, emptyLineEnd_take_bytes]
  split <;> rfl

/-! ## The loop -/

theorem OtaState.length_image (s : OtaState) : s.image.length = s.stagingLen.toNat :=
  Pointer.length_bytes ..

theorem OtaState.image_stage (s : OtaState) (data : List UInt8)
    (h : s.stagingLen.toNat + data.length < 2 ^ 32) :
    (s.stage data).image = s.image ++ data ∧
      (s.stage data).stagingLen.toNat = s.stagingLen.toNat + data.length := by
  have hlen : (s.stagingLen + UInt32.ofNat data.length).toNat =
      s.stagingLen.toNat + data.length := by
    rw [UInt32.toNat_add, toNat_ofNat']
    omega
  refine ⟨?_, hlen⟩
  simp only [OtaState.image, OtaState.stage, hlen]
  exact Pointer.bytes_write ..

variable {s : OtaState} {info : UpdateInfo} {r : UpdateResponse} {first : Nat}

theorem downloadLoop_stage {contentLen : UInt32} {rest : List UInt8} {arrived : Nat}
    (later : List Nat) (hlt : s.stagingLen < contentLen) {data : List UInt8}
    (hdata : data = rest.take (min arrived (min (contentLen.toNat - s.stagingLen.toNat) 4096)))
    (hne : data ≠ []) :
    downloadLoop contentLen
      (deliver contentLen.toNat s.stagingLen.toNat rest (arrived :: later)) s =
      downloadLoop contentLen (deliver contentLen.toNat (s.stage data).stagingLen.toNat
        (rest.drop data.length) later) (s.stage data) ∧
      (s.stage data).image = s.image ++ data ∧
      (s.stage data).stagingLen.toNat = s.stagingLen.toNat + data.length ∧
      data.length ≤ contentLen.toNat - s.stagingLen.toNat ∧ data = rest.take data.length := by
  have hnat := lt_iff_toNat_lt.mp hlt
  have hmax := contentLen.toNat_lt
  have hsub : (contentLen - s.stagingLen).toNat = contentLen.toNat - s.stagingLen.toNat :=
    UInt32.toNat_sub_of_le _ _ (UInt32.le_of_lt hlt)
  have hlen : data.length ≤ min (contentLen.toNat - s.stagingLen.toNat) 4096 := by
    rw [hdata, length_take]
    omega
  obtain ⟨himage, hstaged⟩ := s.image_stage data (by omega)
  refine ⟨?_, himage, hstaged, by omega, ?_⟩
  · rw [deliver, ← hdata]
    rw [downloadLoop, if_pos hlt, hsub, take_of_length_le hlen, hstaged]
    rw [if_neg hne]
  · rw [hdata, length_take]
    exact (take_eq_take_min ..)

theorem downloadLoop_image (contentLen : UInt32) : ∀ (later : List Nat) (rest : List UInt8)
    (s : OtaState),
    (downloadLoop contentLen (deliver contentLen.toNat s.stagingLen.toNat rest later) s).1 = true →
    (downloadLoop contentLen (deliver contentLen.toNat s.stagingLen.toNat rest later) s).2.image =
        s.image ++ rest.take (contentLen.toNat - s.stagingLen.toNat) ∧
      contentLen.toNat ≤ s.stagingLen.toNat + rest.length := by
  intro later
  induction later with
  | nil =>
    intro rest s h
    have hge : ¬ s.stagingLen < contentLen := by simpa [deliver, downloadLoop] using h
    have hnat : contentLen.toNat ≤ s.stagingLen.toNat := by
      rw [lt_iff_toNat_lt] at hge
      omega
    refine ⟨?_, by omega⟩
    rw [Nat.sub_eq_zero_of_le hnat, take_zero, append_nil]
    rfl
  | cons arrived later ih =>
    intro rest s h
    by_cases hlt : s.stagingLen < contentLen
    · by_cases hne : rest.take (min arrived (min (contentLen.toNat - s.stagingLen.toNat) 4096)) = []
      · rw [deliver] at h
        simp [downloadLoop, hlt, hne] at h
      · obtain ⟨hloop, himage, hstaged, hle, hpart⟩ := downloadLoop_stage later hlt rfl hne
        generalize rest.take (min arrived (min (contentLen.toNat - s.stagingLen.toNat) 4096)) = data
          at *
        rw [hloop] at h ⊢
        obtain ⟨hend, henough⟩ := ih _ _ h
        rw [length_drop] at henough
        have hlen := congrArg length hpart
        rw [length_take] at hlen
        refine ⟨?_, by omega⟩
        rw [hend, himage, hstaged, append_assoc]
        congr 1
        have hsplit : contentLen.toNat - s.stagingLen.toNat =
            data.length + (contentLen.toNat - (s.stagingLen.toNat + data.length)) := by omega
        rw [hsplit, take_add, ← hpart]
    · have hnat : contentLen.toNat ≤ s.stagingLen.toNat := by
        rw [lt_iff_toNat_lt] at hlt
        omega
      refine ⟨?_, by omega⟩
      rw [Nat.sub_eq_zero_of_le hnat, take_zero, append_nil, deliver]
      rw [downloadLoop, if_neg hlt]

theorem downloadLoop_complete (contentLen : UInt32) : ∀ (n : Nat) (rest : List UInt8)
    (s : OtaState), contentLen.toNat ≤ s.stagingLen.toNat + n →
    contentLen.toNat ≤ s.stagingLen.toNat + rest.length →
    (downloadLoop contentLen (deliver contentLen.toNat s.stagingLen.toNat rest
      (replicate n 1)) s).1 = true := by
  intro n
  induction n with
  | zero =>
    intro rest s hn _
    have hge : ¬ s.stagingLen < contentLen := by
      rw [lt_iff_toNat_lt]
      omega
    simp [deliver, downloadLoop, hge]
  | succ n ih =>
    intro rest s hn hrest
    rw [replicate_succ]
    by_cases hlt : s.stagingLen < contentLen
    · have hnat := lt_iff_toNat_lt.mp hlt
      have hone : rest.take (min 1 (min (contentLen.toNat - s.stagingLen.toNat) 4096)) ≠ [] := by
        intro hnil
        have := congrArg length hnil
        rw [length_take, length_nil] at this
        omega
      obtain ⟨hloop, -, hstaged, -, -⟩ := downloadLoop_stage (replicate n 1) hlt rfl hone
      have hlen : (rest.take (min 1 (min (contentLen.toNat - s.stagingLen.toNat) 4096))).length =
          1 := by
        rw [length_take]
        omega
      rw [hloop]
      refine ih _ _ ?_ ?_
      · omega
      · rw [hstaged, hlen, length_drop]
        omega
    · rw [deliver]
      simp [downloadLoop, hlt]

/-! ## The call -/

theorem length_initialBody (hdr : List UInt8) :
    (initialBody hdr).length ≤ otaStagingSize.toNat := by
  unfold initialBody
  split
  · exact length_take_le ..
  · exact Nat.zero_le _

theorem stageInitial_image (hdr : List UInt8) (s : OtaState) :
    (stageInitial hdr s).image = initialBody hdr ∧
      (stageInitial hdr s).stagingLen.toNat = (initialBody hdr).length := by
  have hsize : otaStagingSize.toNat = 262144 := rfl
  have hle := length_initialBody hdr
  have hclear : s.clearStaging.image = [] ∧ s.clearStaging.stagingLen.toNat = 0 := ⟨rfl, rfl⟩
  unfold stageInitial
  split
  · rename_i hnil
    rw [hnil]
    exact hclear
  · obtain ⟨himage, hlen⟩ := s.clearStaging.image_stage (initialBody hdr) (by omega)
    rw [himage, hlen, hclear.1, hclear.2, nil_append, zero_add]
    exact ⟨rfl, rfl⟩

theorem otaDownload_body {net : DownloadNet} (h : (otaDownload (some info) net s).1 = .ok) :
    parseHttpStatus (net.header.take 1024) = 200 ∧
      ¬ otaStagingSize < contentLength info (net.header.take 1024) ∧
      otaDownload (some info) net s =
        downloadBody info (net.header.take 1024) net.chunks (s.setStatus .downloading) := by
  unfold otaDownload at h ⊢
  dsimp only at h ⊢
  split at h
  · cases h
  · split at h
    · cases h
    · split at h
      · cases h
      · split at h
        · cases h
        · split at h
          · cases h
          · split at h
            · cases h
            · rename_i hurl hsize hconnects hne hstatus hlen
              rw [if_neg hurl, if_neg hsize, if_neg hconnects, if_neg hne, if_neg hstatus,
                if_neg hlen]
              exact ⟨not_not.mp hstatus, hlen, rfl⟩

theorem downloadBody_ok {hdr : List UInt8} {chunks : List (List UInt8)}
    (h : (downloadBody info hdr chunks s).1 = .ok) :
    (downloadLoop (contentLength info hdr) chunks (stageInitial hdr s)).1 = true ∧
      (downloadBody info hdr chunks s).2 =
        (downloadLoop (contentLength info hdr) chunks (stageInitial hdr s)).2 := by
  unfold downloadBody at h ⊢
  dsimp only at h ⊢
  split at h
  · cases h
  · split at h
    · cases h
    · rename_i hdone hcrc
      rw [if_neg hdone, if_neg hcrc]
      exact ⟨by simpa using hdone, rfl⟩

theorem toNat_contentLength (info : UpdateInfo) (seg : List UInt8) :
    (contentLength info seg).toNat =
      if announced seg = 0 then info.size.toNat else announced seg := by
  have hzero : parseContentLength seg = 0 ↔ announced seg = 0 := by
    rw [← toNat_parseContentLength, ← UInt32.toNat_inj]
    rfl
  unfold contentLength
  by_cases h : parseContentLength seg = 0
  · rw [if_pos h, if_pos (hzero.mp h)]
  · rw [if_neg h, if_neg (fun ha => h (hzero.mpr ha)), toNat_parseContentLength]

def bareInfo : UpdateInfo := ⟨[], [0x2F], 0, 0⟩

theorem toNat_contentLength_bareInfo (seg : List UInt8) :
    (contentLength bareInfo seg).toNat = announced seg := by
  rw [toNat_contentLength]
  split
  · rename_i h
    rw [h]
    rfl
  · rfl

section Call

variable (r : UpdateResponse) (info : UpdateInfo) (first : Nat)

def UpdateResponse.rest : List UInt8 := r.bytes.drop (r.segment first).length

theorem UpdateResponse.length_segment : (r.segment first).length ≤ 1024 ∧
    (r.segment first).length ≤ r.bytes.length := by
  unfold UpdateResponse.segment
  rw [length_take]
  omega

theorem UpdateResponse.take_net (later : List Nat) :
    (r.net info first later).header.take 1024 = r.segment first :=
  take_of_length_le (r.length_segment first).1

theorem otaDownload_ok {later : List Nat} {s : OtaState}
    (h : (otaDownload (some info) (r.net info first later) s).1 = .ok) :
    r.version.length + 4 ≤ (r.segment first).length ∧
      (contentLength info (r.segment first)).toNat ≤ otaStagingSize.toNat ∧
      (contentLength info (r.segment first)).toNat ≤
        (initialBody (r.segment first)).length + (r.rest first).length ∧
      (otaDownload (some info) (r.net info first later) s).2.image =
        initialBody (r.segment first) ++ (r.rest first).take
          ((contentLength info (r.segment first)).toNat -
            (initialBody (r.segment first)).length) := by
  obtain ⟨hstatus, hlen, hcall⟩ := otaDownload_body h
  rw [r.take_net info first later] at hstatus hlen hcall
  obtain ⟨himage, hstaged⟩ := stageInitial_image (r.segment first) (s.setStatus .downloading)
  have hloop := downloadLoop_image (contentLength info (r.segment first)) later (r.rest first)
    (stageInitial (r.segment first) (s.setStatus .downloading))
  rw [hstaged, himage] at hloop
  have hbody := downloadBody_ok (hcall ▸ h)
  obtain ⟨hend, henough⟩ := hloop hbody.1
  refine ⟨(parseHttpStatus_segment r.toResponse _).mp hstatus, ?_, henough, ?_⟩
  · exact UInt32.le_iff_toNat_le.mp (UInt32.not_lt.mp hlen)
  · rw [hcall, hbody.2]
    exact hend

theorem otaDownload_complete (s : OtaState)
    (hstatus : r.version.length + 4 ≤ (r.segment first).length)
    (hlen : announced (r.segment first) ≤ otaStagingSize.toNat)
    (henough : announced (r.segment first) ≤
      (initialBody (r.segment first)).length + (r.rest first).length) :
    ∃ later : List Nat, (otaDownload (some bareInfo) (r.net bareInfo first later) s).1 = .ok := by
  have hok : parseHttpStatus (r.segment first) = 200 :=
    (parseHttpStatus_segment r.toResponse _).mpr hstatus
  have hne : r.segment first ≠ [] := by
    intro hnil
    rw [hnil] at hstatus
    simp at hstatus
  have hnumber := toNat_contentLength_bareInfo (r.segment first)
  have hbound : ¬ otaStagingSize < contentLength bareInfo (r.segment first) :=
    UInt32.not_lt.mpr (UInt32.le_iff_toNat_le.mpr (by omega))
  obtain ⟨-, hstaged⟩ := stageInitial_image (r.segment first) (s.setStatus .downloading)
  have hloop := downloadLoop_complete (contentLength bareInfo (r.segment first))
    (announced (r.segment first)) (r.rest first)
    (stageInitial (r.segment first) (s.setStatus .downloading)) (by omega) (by omega)
  rw [hstaged] at hloop
  refine ⟨replicate (announced (r.segment first)) 1, ?_⟩
  unfold otaDownload
  dsimp only
  rw [r.take_net, if_neg (by decide), if_neg (by decide), if_neg (by simp [UpdateResponse.net]),
    if_neg hne, if_neg (not_not.mpr hok), if_neg hbound, downloadBody]
  have hdone : (downloadLoop (contentLength bareInfo (r.segment first))
      (r.net bareInfo first (replicate (announced (r.segment first)) 1)).chunks
      (stageInitial (r.segment first) (s.setStatus .downloading))).1 = true := hloop
  rw [if_neg (by simp [hdone]), if_neg (by simp [bareInfo])]

theorem initialBody_complete (h : r.head.length ≤ (r.segment first).length) :
    initialBody (r.segment first) = r.body.take ((r.segment first).length - r.head.length) ∧
      r.rest first = r.body.drop ((r.segment first).length - r.head.length) := by
  have hsize : otaStagingSize.toNat = 262144 := rfl
  have hseg : (r.segment first).length = min (min first 1024) r.bytes.length := length_take ..
  have hend : findHeaderEnd (r.segment first) 0 = r.head.length := by
    rw [UpdateResponse.segment, findHeaderEnd_segment, if_pos (by omega)]
  have hpos : 0 < r.head.length := by
    simp only [Response.head, crlf, length_append, length_cons]
    omega
  have hdrop : (r.segment first).drop r.head.length =
      r.body.take ((r.segment first).length - r.head.length) := by
    rw [UpdateResponse.segment, drop_take, Response.bytes, drop_left]
    rw [take_eq_take_iff]
    simp only [Response.bytes, length_append, length_take] at *
    omega
  constructor
  · unfold initialBody
    rw [hend]
    by_cases hmore : r.head.length < (r.segment first).length
    · rw [if_pos ⟨hpos, hmore⟩, hdrop, take_of_length_le]
      rw [length_take]
      omega
    · rw [if_neg (by omega), Nat.sub_eq_zero_of_le (by omega), take_zero]
  · rw [UpdateResponse.rest, Response.bytes, drop_append, drop_of_length_le h, nil_append]

theorem initialBody_cut (h : (r.segment first).length < r.head.length) :
    initialBody (r.segment first) = [] := by
  have hseg : (r.segment first).length = min (min first 1024) r.bytes.length := length_take ..
  have hend : findHeaderEnd (r.segment first) 0 = 0 := by
    rw [UpdateResponse.segment, findHeaderEnd_segment, if_neg]
    simp only [Response.bytes, length_append] at hseg
    omega
  unfold initialBody
  rw [hend, if_neg (by omega)]

end Call

/-! ## Fidelity -/

theorem staged_of_firstSegmentOk (hseg : FirstSegmentOk r first) {len : Nat}
    (hstatus : r.version.length + 4 ≤ (r.segment first).length)
    (hlen : len = announced (r.segment first) ∨ announced (r.segment first) = 0)
    (hsize : len ≤ otaStagingSize.toNat)
    (henough : len ≤ (initialBody (r.segment first)).length + (r.rest first).length) :
    initialBody (r.segment first) ++
      (r.rest first).take (len - (initialBody (r.segment first)).length) = r.body := by
  have hbytes : r.bytes.length = r.head.length + r.body.length := length_append
  obtain hshort | ⟨hcomplete, hbody⟩ | ⟨hcut, hne, hnumber⟩ := hseg
  · omega
  · obtain ⟨hinit, hrest⟩ := initialBody_complete r first hcomplete
    have hfull : (r.rest first).take (len - (initialBody (r.segment first)).length) =
        r.rest first := by
      rw [hinit, hrest]
      apply take_of_length_le
      rw [length_take, length_drop]
      omega
    rw [hfull, hinit, hrest, take_append_drop]
  · have hrest : (r.rest first).length = r.bytes.length - (r.segment first).length := length_drop ..
    rw [initialBody_cut r first hcut] at henough ⊢
    rw [length_nil] at henough ⊢
    obtain hlarge | hlarge | ⟨heq, htake⟩ := hnumber
    · omega
    · omega
    · obtain rfl : len = r.body.length := by omega
      exact htake

theorem staged_of_not_firstSegmentOk (hseg : ¬ FirstSegmentOk r first) :
    r.version.length + 4 ≤ (r.segment first).length ∧
      announced (r.segment first) ≤ otaStagingSize.toNat ∧
      announced (r.segment first) ≤ (initialBody (r.segment first)).length + (r.rest first).length ∧
      initialBody (r.segment first) ++ (r.rest first).take
        (announced (r.segment first) - (initialBody (r.segment first)).length) ≠ r.body := by
  have hsegment := r.length_segment first
  have hbytes : r.bytes.length = r.head.length + r.body.length := length_append
  have hpos := r.length_pos
  have hmax := r.length_le
  obtain ⟨hstatus, hseg⟩ := not_or.mp hseg
  obtain ⟨hcomplete, hcut⟩ := not_or.mp hseg
  refine ⟨by omega, ?_⟩
  by_cases hhead : r.head.length ≤ (r.segment first).length
  · obtain ⟨hinit, hrest⟩ := initialBody_complete r first hhead
    rw [hinit, hrest]
    refine ⟨by omega, by rw [length_take, length_drop]; omega, fun heq => ?_⟩
    have hlen := congrArg length heq
    rw [length_append, length_take, length_take, length_drop] at hlen
    omega
  · have hrest : (r.rest first).length = r.bytes.length - (r.segment first).length := length_drop ..
    rw [initialBody_cut r first (by omega), nil_append, length_nil, Nat.sub_zero]
    by_cases hzero : announced (r.segment first) = 0
    · rw [hzero]
      refine ⟨by omega, by omega, fun heq => ?_⟩
      have hlen := congrArg length heq
      rw [take_zero, length_nil] at hlen
      omega
    · have hnumber := fun h => hcut ⟨by omega, hzero, h⟩
      obtain ⟨hlarge, hnumber⟩ := not_or.mp hnumber
      obtain ⟨hlarge', hnumber⟩ := not_or.mp hnumber
      refine ⟨by omega, by omega, fun heq => hnumber ?_⟩
      have hlen := congrArg length heq
      rw [length_take] at hlen
      have hann : announced (r.segment first) = r.body.length := by omega
      rw [hann] at heq
      exact ⟨hann, heq⟩

/-- Every download with a first segment of this length stages the body and nothing else exactly if
that segment settles it. -/
theorem otaDownload_faithful_iff (r : UpdateResponse) (first : Nat) :
    (∀ (info : UpdateInfo) (later : List Nat) (s : OtaState),
      (otaDownload (some info) (r.net info first later) s).1 = .ok →
        (otaDownload (some info) (r.net info first later) s).2.stagingLen.toNat = r.body.length ∧
        (otaDownload (some info) (r.net info first later) s).2.image = r.body) ↔
      FirstSegmentOk r first := by
  constructor
  · intro hall
    by_contra hseg
    obtain ⟨hstatus, hsize, henough, hne⟩ := staged_of_not_firstSegmentOk hseg
    obtain ⟨later, hok⟩ := otaDownload_complete r first (otaBoot zeroMemory noKey) hstatus
      hsize henough
    obtain ⟨-, -, -, himage⟩ := otaDownload_ok r bareInfo first hok
    rw [toNat_contentLength_bareInfo] at himage
    exact hne (himage.symm.trans (hall _ _ _ hok).2)
  · intro hseg info later s hok
    obtain ⟨hstatus, hsize, henough, himage⟩ := otaDownload_ok r info first hok
    have hlen : (contentLength info (r.segment first)).toNat = announced (r.segment first) ∨
        announced (r.segment first) = 0 := by
      rw [toNat_contentLength]
      split
      · exact .inr ‹_›
      · exact .inl rfl
    rw [staged_of_firstSegmentOk hseg hstatus hlen hsize henough] at himage
    exact ⟨by rw [← OtaState.length_image, himage], himage⟩

def fourBytes : UpdateResponse where
  version := [0x48, 0x54, 0x54, 0x50, 0x2F, 0x31, 0x2E, 0x31]
  reason := [0x20, 0x4F, 0x4B]
  fields := [{ name := [0x43, 0x6F, 0x6E, 0x74, 0x65, 0x6E, 0x74, 0x2D, 0x4C, 0x65, 0x6E, 0x67,
                 0x74, 0x68]
               value := [0x20, 0x34]
               name_ne := by simp
               name_line := by simp [OnLine]
               value_line := by simp [OnLine] }]
  body := [0x41, 0x42, 0x43, 0x44]
  version_line := by simp [OnLine]
  version_word := by simp
  version_http := rfl
  reason_line := by simp [OnLine]
  reason_apart := fun _ => rfl
  has_length := ⟨_, mem_singleton.mpr rfl, rfl⟩
  length_eq := by
    intro f hf _
    rw [mem_singleton.mp hf]
    exact ⟨[0x20], [0x34], [], rfl, by simp, by simp, by simp [Http.isDigit], rfl⟩
  length_pos := by decide
  length_le := by decide

/-- The first segment ends before the last line feed of the headers, which is staged. -/
theorem otaDownload_stages_header :
    let result := otaDownload (some ⟨[], [0x2F], 4, 0⟩)
      (fourBytes.net ⟨[], [0x2F], 4, 0⟩ 37 [4]) (otaBoot zeroMemory noKey)
    fourBytes.head.length = 38 ∧ result.1 = .ok ∧ result.2.stagingLen = 4 ∧
      result.2.image = [0x0A, 0x41, 0x42, 0x43] := by
  decide +kernel

end AlJefra.Kernel.Ota
