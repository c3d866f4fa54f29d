/- Which processors are listed, and what is read beyond a table. -/
import AlJefra.Bus.AcpiLite

namespace AlJefra.Bus.Acpi

open AlJefra.Hal List
open AlJefra.Lib

variable {mem : Pointer}

/-! ## Lengths -/

theorem declared_lt (mem : Pointer) (table : Nat) : declared mem table < 0x100000000 := by
  have h := leNat_lt (mem.bytes (table + 4) 4)
  rw [Pointer.length_bytes] at h
  exact h

theorem entryCount_of_le {length size width : Nat} (hsize : size ≤ length)
    (hlength : length < 0x100000000) : entryCount length size width = (length - size) / width := by
  have hwrap : (length + 0x10000000000000000 - size) % 0x10000000000000000 = length - size := by
    omega
  have hdiv : (length - size) / width ≤ length - size := Nat.div_le_self _ _
  rw [entryCount, hwrap, Nat.mod_eq_of_lt (by omega)]

theorem allInside_nil : AllInside mem [] := by
  intro r hr
  cases hr

theorem allInside_cons {r : Read} {reads : List Read} :
    AllInside mem (r :: reads) ↔ r.Inside mem ∧ AllInside mem reads := by
  simp [AllInside]

theorem allInside_append {reads reads' : List Read} :
    AllInside mem (reads ++ reads') ↔ AllInside mem reads ∧ AllInside mem reads' := by
  simp [AllInside, or_imp, forall_and]

/-! ## `acpi_find_table` -/

def CandidateInside (mem : Pointer) (sig : List UInt8) (hdr : Nat) : Prop :=
  hdr = 0 ∨ (acpiSigMatch mem hdr sig).2 ≤ declared mem hdr ∧
    ((acpiSigMatch mem hdr sig).1 = true → 8 ≤ declared mem hdr)

theorem tryTable_inside_iff (sig : List UInt8) (hdr : Nat) :
    AllInside mem (tryTable mem sig hdr).2 ↔ CandidateInside mem sig hdr := by
  rw [tryTable, CandidateInside]
  by_cases hnull : hdr = 0
  · simp [hnull, allInside_nil]
  · cases hmatch : (acpiSigMatch mem hdr sig).1 with
    | true | false => simp [hmatch, allInside_cons, allInside_nil, Read.Inside, hnull]

def Visited (mem : Pointer) (sig : List UInt8) (table width i j : Nat) : Prop :=
  ∀ k < j, (tryTable mem sig (entryAt mem table width (i + k))).1 = false

theorem findLoop_inside_iff (sig : List UInt8) (table width : Nat) : ∀ n i,
    AllInside mem (findLoop mem sig table width n i).2 ↔ ∀ j < n, Visited mem sig table width i j →
        Read.Inside mem ⟨table, sdtHeaderSize + width * (i + j), width⟩ ∧
          CandidateInside mem sig (entryAt mem table width (i + j)) := by
  intro n
  induction n with
  | zero => simp [findLoop, allInside_nil]
  | succ n ih =>
    intro i
    -- the first entry, and the others if it is not the table
    have hsplit : (∀ j < n + 1, Visited mem sig table width i j →
          Read.Inside mem ⟨table, sdtHeaderSize + width * (i + j), width⟩ ∧
            CandidateInside mem sig (entryAt mem table width (i + j))) ↔
        (Read.Inside mem ⟨table, sdtHeaderSize + width * i, width⟩ ∧
          CandidateInside mem sig (entryAt mem table width i)) ∧
        ((tryTable mem sig (entryAt mem table width i)).1 = false →
          ∀ j < n, Visited mem sig table width (i + 1) j →
            Read.Inside mem ⟨table, sdtHeaderSize + width * (i + 1 + j), width⟩ ∧
              CandidateInside mem sig (entryAt mem table width (i + 1 + j))) := by
      constructor
      · intro h
        refine ⟨h 0 (Nat.succ_pos n) (fun k hk => absurd hk (Nat.not_lt_zero k)), ?_⟩
        intro hfirst j hj hvisited
        have := h (j + 1) (by omega) (fun k hk => by
          cases k with
          | zero => exact hfirst
          | succ k =>
            rw [show i + (k + 1) = i + 1 + k by omega]
            exact hvisited k (by omega))
        rwa [show i + (j + 1) = i + 1 + j by omega] at this
      · rintro ⟨hfirst, hrest⟩ j hj hvisited
        cases j with
        | zero => exact hfirst
        | succ j =>
          rw [show i + (j + 1) = i + 1 + j by omega]
          refine hrest (hvisited 0 (Nat.succ_pos j)) j (by omega) fun k hk => ?_
          rw [show i + 1 + k = i + (k + 1) by omega]
          exact hvisited (k + 1) (by omega)
    rw [hsplit, ← tryTable_inside_iff, ← ih (i + 1), findLoop]
    cases htry : (tryTable mem sig (entryAt mem table width i)).1 with
    | true => simp [allInside_cons]
    | false =>
      simp only [Bool.false_eq_true, if_false, allInside_append, allInside_cons, forall_const]

def FindInside (mem : Pointer) (sig : List UInt8) (root width : Nat) : Prop :=
  root = 0 ∨ sdtHeaderSize ≤ declared mem root ∧
    ∀ j < (declared mem root - sdtHeaderSize) / width, Visited mem sig root width 0 j →
      CandidateInside mem sig (entryAt mem root width j)

theorem findTable_inside_iff (rsdp : Nat) (useXsdt : Bool) (sig : List UInt8) :
    AllInside mem (acpiFindTable mem rsdp useXsdt sig).2 ↔
      FindInside mem sig (rootTable mem rsdp useXsdt).1 (rootTable mem rsdp useXsdt).2 := by
  have hwidth : (rootTable mem rsdp useXsdt).2 = 8 ∨ (rootTable mem rsdp useXsdt).2 = 4 := by
    rw [rootTable]
    split
    · exact .inl rfl
    · exact .inr rfl
  generalize hroot : rootTable mem rsdp useXsdt = root at hwidth
  obtain ⟨table, width⟩ := root
  rw [acpiFindTable, hroot, FindInside]
  by_cases hnull : table = 0
  · simp [hnull, allInside_nil]
  · rw [if_neg hnull, allInside_cons, findLoop_inside_iff]
    simp only [hnull, false_or, zero_add]
    have hlt := declared_lt mem table
    by_cases hheader : sdtHeaderSize ≤ declared mem table
    · rw [entryCount_of_le hheader hlt]
      simp only [sdtHeaderSize] at hheader ⊢
      constructor
      · rintro ⟨-, hall⟩
        exact ⟨hheader, fun j hj hvisited => (hall j hj hvisited).2⟩
      · rintro ⟨-, hall⟩
        refine ⟨show 4 + 4 ≤ declared mem table by omega, fun j hj hvisited =>
          ⟨?_, hall j hj hvisited⟩⟩
        have hmul : width * (j + 1) ≤ declared mem table - 36 := by
          rw [mul_comm]
          exact (Nat.le_div_iff_mul_le (by omega)).mp hj
        rw [Nat.mul_succ] at hmul
        exact show 36 + width * j + width ≤ declared mem table by omega
    · refine iff_of_false ?_ (fun h => hheader h.1)
      rintro ⟨-, hall⟩
      -- the number of entries has wrapped
      have hpos : 0 < entryCount (declared mem table) sdtHeaderSize width := by
        simp only [sdtHeaderSize] at hheader
        rw [entryCount, sdtHeaderSize]
        rcases hwidth with rfl | rfl <;> omega
      have hread := (hall 0 hpos (fun k hk => absurd hk (Nat.not_lt_zero k))).1
      simp only [Read.Inside] at hread
      omega

/-! ## `acpi_parse_mcfg` -/

theorem parseMcfg_inside_iff (mcfg : Nat) (info : EcamInfo) :
    AllInside mem (acpiParseMcfg mem mcfg info).2 ↔ mcfgSize ≤ declared mem mcfg := by
  have hlt := declared_lt mem mcfg
  by_cases hheader : mcfgSize ≤ declared mem mcfg
  · refine iff_of_true ?_ hheader
    rw [acpiParseMcfg]
    split
    · next hpos =>
      rw [entryCount_of_le hheader hlt, mcfgEntrySize] at hpos
      simp only [mcfgSize] at hheader hpos
      simp only [allInside_cons, allInside_nil, Read.Inside, and_true]
      omega
    · simp only [mcfgSize] at hheader
      simp only [allInside_cons, allInside_nil, Read.Inside, and_true]
      omega
  · refine iff_of_false ?_ hheader
    simp only [mcfgSize] at hheader
    rw [acpiParseMcfg, if_pos (by simp only [entryCount, mcfgSize, mcfgEntrySize]; omega)]
    simp only [allInside_cons, allInside_nil, Read.Inside, and_true]
    omega

/-! ## `acpi_parse_madt` -/

def entryBytes (mem : Pointer) (madt o : Nat) (info : MadtInfo) : Nat :=
  let len := entryLength mem madt o
  if len < 2 then 2
  else match EntryType.ofByte (mem (madt + o)) with
    | .lapic => 8
    | .ioapic => if info.ioapics.length < acpiMaxIoapics then 12 else 2
    | .lapicOverride => if 12 ≤ len then 12 else 2
    | .x2apic => if 16 ≤ len ∧ info.lapicIds.length < acpiMaxLapics then 12 else 2
    | .other => 2

def roundReads (mem : Pointer) (madt : Nat) (s : MadtState) : List Read :=
  if entryLength mem madt s.offset < 2 then [⟨madt, s.offset + 1, 1⟩]
  else [⟨madt, s.offset + 1, 1⟩, ⟨madt, s.offset, 1⟩] ++
    (madtEntry mem madt s.offset (entryLength mem madt s.offset) s.info).2

theorem roundReads_inside_iff (madt : Nat) (s : MadtState) : AllInside mem (roundReads mem madt s) ↔
      s.offset + entryBytes mem madt s.offset s.info ≤ declared mem madt := by
  rw [roundReads, entryBytes]
  by_cases hlen : entryLength mem madt s.offset < 2
  · simp only [if_pos hlen, allInside_cons, allInside_nil, Read.Inside, and_true, add_assoc]
  · simp only [if_neg hlen, madtEntry]
    cases EntryType.ofByte (mem (madt + s.offset)) with
    | other =>
      simp only [cons_append, nil_append, allInside_cons, allInside_nil, Read.Inside, and_true]
      omega
    | _ =>
      -- one goal for each branch of the entry's checks
      dsimp only
      split_ifs
      all_goals
        simp only [cons_append, nil_append, allInside_cons, allInside_nil, Read.Inside, and_true]
        omega

theorem madtStep_reads (madt : Nat) (s : MadtState) : (madtStep mem madt s).reads =
      s.reads ++ if s.goesOn mem madt then roundReads mem madt s else [] := by
  rw [madtStep]
  by_cases hon : s.goesOn mem madt
  · rw [if_pos hon, if_pos hon, roundReads]
    by_cases hlen : entryLength mem madt s.offset < 2
    · simp only [if_pos hlen]
    · simp only [if_neg hlen, append_assoc]
  · rw [if_neg hon, if_neg hon, append_nil]

def MadtInside (mem : Pointer) (madt : Nat) : Prop :=
  40 ≤ declared mem madt ∧ ∀ n, (acpiParseMadt mem madt n).goesOn mem madt →
    (acpiParseMadt mem madt n).offset +
      entryBytes mem madt (acpiParseMadt mem madt n).offset (acpiParseMadt mem madt n).info ≤
        declared mem madt

theorem acpiParseMadt_succ (madt n : Nat) :
    acpiParseMadt mem madt (n + 1) = madtStep mem madt (acpiParseMadt mem madt n) := by
  rw [acpiParseMadt, Function.iterate_succ_apply']
  rfl

theorem parseMadt_inside_iff (madt : Nat) :
    (∀ n, AllInside mem (acpiParseMadt mem madt n).reads) ↔ MadtInside mem madt := by
  constructor
  · intro h
    refine ⟨?_, fun n hon => ?_⟩
    · have hstart := h 0
      rw [acpiParseMadt, Function.iterate_zero_apply, madtStart, allInside_cons] at hstart
      exact hstart.1
    · have hnext := h (n + 1)
      rw [acpiParseMadt_succ, madtStep_reads, if_pos hon, allInside_append] at hnext
      exact (roundReads_inside_iff madt _).mp hnext.2
  · rintro ⟨hheader, hentries⟩ n
    induction n with
    | zero =>
      rw [acpiParseMadt, Function.iterate_zero_apply, madtStart]
      simp only [allInside_cons, allInside_nil, Read.Inside, and_true]
      omega
    | succ n ih =>
      rw [acpiParseMadt_succ, madtStep_reads, allInside_append]
      refine ⟨ih, ?_⟩
      split
      · next hon => exact (roundReads_inside_iff madt _).mpr (hentries n hon)
      · exact allInside_nil

/-! ## The processors and the I/O APICs -/

def EntryType.minLength : EntryType → Nat
  | .lapic => 8
  | .ioapic => 12
  | .lapicOverride => 2
  | .x2apic => 16
  | .other => 2

def Fits (mem : Pointer) (madt : Nat) : Nat → List Nat → Prop
  | o, [] => o = declared mem madt
  | o, e :: es => e = o ∧
      (EntryType.ofByte (mem (madt + o))).minLength ≤ entryLength mem madt o ∧
      o + entryLength mem madt o ≤ declared mem madt ∧
      Fits mem madt (o + entryLength mem madt o) es

def usableId (mem : Pointer) (madt o : Nat) : Option Nat :=
  match EntryType.ofByte (mem (madt + o)) with
  | .lapic => if leAt mem (madt + o + 4) 4 % 4 ≠ 0 then some (mem (madt + o + 3)).toNat else none
  | .x2apic => if leAt mem (madt + o + 8) 4 % 4 ≠ 0 then some (leAt mem (madt + o + 4) 4) else none
  | _ => none

def ioapicOf (mem : Pointer) (madt o : Nat) : Option (Nat × Nat) :=
  match EntryType.ofByte (mem (madt + o)) with
  | .ioapic => some (leAt mem (madt + o + 4) 4, leAt mem (madt + o + 8) 4)
  | _ => none

def usableIds (mem : Pointer) (madt : Nat) (es : List Nat) : List Nat :=
  es.filterMap (usableId mem madt)

def ioapicsOf (mem : Pointer) (madt : Nat) (es : List Nat) : List (Nat × Nat) :=
  es.filterMap (ioapicOf mem madt)

def ListsExactly (mem : Pointer) (madt : Nat) (es : List Nat) (info : MadtInfo) : Prop :=
  info.lapicIds.map UInt8.toNat = usableIds mem madt es ∧ info.ioapics = ioapicsOf mem madt es

variable {madt : Nat} {es : List Nat}

theorem madtEntry_lists {o len : Nat} (info : MadtInfo)
    (hlen : (EntryType.ofByte (mem (madt + o))).minLength ≤ len)
    (hids : info.lapicIds.length + (usableId mem madt o).toList.length ≤ acpiMaxLapics)
    (hioapics : info.ioapics.length + (ioapicOf mem madt o).toList.length ≤ acpiMaxIoapics) :
    (madtEntry mem madt o len info).1.lapicIds =
        info.lapicIds ++ (usableId mem madt o).toList.map UInt8.ofNat ∧
      (madtEntry mem madt o len info).1.ioapics = info.ioapics ++ (ioapicOf mem madt o).toList := by
  rw [usableId] at hids ⊢
  rw [ioapicOf] at hioapics ⊢
  rw [madtEntry]
  cases htype : EntryType.ofByte (mem (madt + o)) with
  | lapic =>
    simp only [htype] at hids hioapics ⊢
    by_cases hflags : leAt mem (madt + o + 4) 4 % 4 ≠ 0
    · simp only [if_pos hflags, Option.toList_some, length_singleton] at hids
      rw [if_pos ⟨hflags, by omega⟩]
      simp [hflags]
    · rw [if_neg (fun h => hflags h.1), if_neg hflags]
      simp
  | ioapic =>
    simp only [htype, Option.toList_some, length_singleton] at hids hioapics ⊢
    rw [if_pos (by omega)]
    simp
  | lapicOverride =>
    dsimp only
    split <;> simp
  | x2apic =>
    simp only [htype, EntryType.minLength] at hids hioapics hlen ⊢
    by_cases hflags : leAt mem (madt + o + 8) 4 % 4 ≠ 0
    · simp only [if_pos hflags, Option.toList_some, length_singleton] at hids
      rw [if_pos ⟨hlen, by omega⟩]
      simp [hflags]
    · split <;> simp
  | other => simp

theorem two_le_minLength (t : EntryType) : 2 ≤ t.minLength := by
  cases t <;> decide

theorem entryBytes_pos (mem : Pointer) (madt o : Nat) (info : MadtInfo) :
    0 < entryBytes mem madt o info := by
  rw [entryBytes]
  split
  · decide
  · split <;> (try split) <;> decide

theorem madtStep_fits {s : MadtState} {e : Nat} (hfinished : s.finished = false)
    (h : Fits mem madt s.offset (e :: es)) :
    madtStep mem madt s = { s with
        offset := s.offset + entryLength mem madt s.offset
        info := (madtEntry mem madt s.offset (entryLength mem madt s.offset) s.info).1
        reads := s.reads ++ roundReads mem madt s } := by
  obtain ⟨-, hmin, hend, -⟩ := h
  have hlen := two_le_minLength (EntryType.ofByte (mem (madt + s.offset)))
  have hlt := declared_lt mem madt
  have hon : s.goesOn mem madt := ⟨hfinished, by omega⟩
  have hshort : ¬ entryLength mem madt s.offset < 2 := by omega
  rw [madtStep, if_pos hon, roundReads]
  simp only [if_neg hshort]
  rw [Nat.mod_eq_of_lt (by omega), append_assoc]

theorem iterate_fits (madt : Nat) : ∀ (es : List Nat) (s : MadtState), s.finished = false →
    Fits mem madt s.offset es →
    s.info.lapicIds.length + (usableIds mem madt es).length ≤ acpiMaxLapics →
    s.info.ioapics.length + (ioapicsOf mem madt es).length ≤ acpiMaxIoapics →
    ((madtStep mem madt)^[es.length] s).offset = declared mem madt ∧
      ((madtStep mem madt)^[es.length] s).info.lapicIds =
        s.info.lapicIds ++ (usableIds mem madt es).map UInt8.ofNat ∧
      ((madtStep mem madt)^[es.length] s).info.ioapics =
        s.info.ioapics ++ ioapicsOf mem madt es := by
  intro es
  induction es with
  | nil =>
    intro s _ hfits _ _
    simp only [length_nil, Function.iterate_zero_apply, usableIds, ioapicsOf,
      filterMap_nil, map_nil, append_nil, and_true]
    exact hfits
  | cons e es ih =>
    intro s hfinished hfits hids hioapics
    have hstep := madtStep_fits hfinished hfits
    obtain ⟨he, hmin, -, hrest⟩ := hfits
    have hidsCons : usableIds mem madt (e :: es) =
        (usableId mem madt s.offset).toList ++ usableIds mem madt es := by
      rw [he, usableIds, filterMap_cons]
      cases usableId mem madt s.offset <;> rfl
    have hioapicsCons : ioapicsOf mem madt (e :: es) =
        (ioapicOf mem madt s.offset).toList ++ ioapicsOf mem madt es := by
      rw [he, ioapicsOf, filterMap_cons]
      cases ioapicOf mem madt s.offset <;> rfl
    rw [hidsCons, length_append] at hids
    rw [hioapicsCons, length_append] at hioapics
    obtain ⟨hentryIds, hentryIoapics⟩ := madtEntry_lists s.info hmin
      (show _ ≤ acpiMaxLapics by omega) (show _ ≤ acpiMaxIoapics by omega)
    rw [length_cons, Function.iterate_succ_apply, hstep, hidsCons, hioapicsCons]
    have hnext := ih { s with
        offset := s.offset + entryLength mem madt s.offset
        info := (madtEntry mem madt s.offset (entryLength mem madt s.offset) s.info).1
        reads := s.reads ++ roundReads mem madt s } hfinished hrest
    simp only [hentryIds, hentryIoapics, length_append, length_map] at hnext
    obtain ⟨hoffset, hlapics, hios⟩ := hnext (by omega) (by omega)
    exact ⟨hoffset, by rw [hlapics, map_append, append_assoc], by rw [hios, append_assoc]⟩

theorem iterate_info_of_not_goesOn : ∀ (k : Nat) {s : MadtState},
    ¬ s.goesOn mem madt → ((madtStep mem madt)^[k] s).info = s.info
  | 0, _, _ => rfl
  | k + 1, s, h => by
    have hstep : madtStep mem madt s = { s with finished := true } := by rw [madtStep, if_neg h]
    rw [Function.iterate_succ_apply, hstep,
      iterate_info_of_not_goesOn k (fun hon => Bool.noConfusion hon.1)]

theorem parseMadt_info (hinside : MadtInside mem madt) (hfits : Fits mem madt madtSize es)
    (hids : (usableIds mem madt es).length ≤ acpiMaxLapics)
    (hioapics : (ioapicsOf mem madt es).length ≤ acpiMaxIoapics) {n : Nat} (hn : es.length ≤ n) :
    (acpiParseMadt mem madt n).info.lapicIds = (usableIds mem madt es).map UInt8.ofNat ∧
      (acpiParseMadt mem madt n).info.ioapics = ioapicsOf mem madt es := by
  obtain ⟨hoffset, hlapics, hios⟩ := iterate_fits madt es (madtStart mem madt) rfl hfits
    (by simpa [madtStart] using hids) (by simpa [madtStart] using hioapics)
  have hended : ¬ (acpiParseMadt mem madt es.length).goesOn mem madt := by
    intro hon
    have hread := hinside.2 es.length hon
    have hpos := entryBytes_pos mem madt (acpiParseMadt mem madt es.length).offset
      (acpiParseMadt mem madt es.length).info
    have hend : (acpiParseMadt mem madt es.length).offset = declared mem madt := hoffset
    omega
  obtain ⟨k, rfl⟩ : ∃ k, n = k + es.length := ⟨n - es.length, by omega⟩
  have hinfo : (acpiParseMadt mem madt (k + es.length)).info =
      (acpiParseMadt mem madt es.length).info := by
    rw [acpiParseMadt, Function.iterate_add_apply]
    exact iterate_info_of_not_goesOn k hended
  rw [hinfo]
  exact ⟨hlapics, hios⟩

/-- A MADT whose entries fit is listed, and no table is read beyond its length. -/
structure TablesParsed (mem : Pointer) (rsdp : Nat) (useXsdt : Bool) (sig : List UInt8)
    (madt mcfg : Nat) (info : EcamInfo) : Prop where
  lists : ∀ es, Fits mem madt madtSize es →
    (usableIds mem madt es).length ≤ acpiMaxLapics →
    (ioapicsOf mem madt es).length ≤ acpiMaxIoapics →
    ∀ n, es.length ≤ n → ListsExactly mem madt es (acpiParseMadt mem madt n).info
  findTable : AllInside mem (acpiFindTable mem rsdp useXsdt sig).2
  parseMadt : ∀ n, AllInside mem (acpiParseMadt mem madt n).reads
  parseMcfg : AllInside mem (acpiParseMcfg mem mcfg info).2

/-- For every content of memory: the tables are parsed as expected exactly if no usable processor
has a number above 255 and all that is read lies inside its table. -/
theorem tablesParsed_iff (mem : Pointer) (rsdp : Nat) (useXsdt : Bool) (sig : List UInt8)
    (madt mcfg : Nat) (info : EcamInfo) :
    TablesParsed mem rsdp useXsdt sig madt mcfg info ↔
      (∀ es, Fits mem madt madtSize es → (usableIds mem madt es).length ≤ acpiMaxLapics →
        (ioapicsOf mem madt es).length ≤ acpiMaxIoapics →
        ∀ id ∈ usableIds mem madt es, id < 256) ∧
      FindInside mem sig (rootTable mem rsdp useXsdt).1 (rootTable mem rsdp useXsdt).2 ∧
      MadtInside mem madt ∧ mcfgSize ≤ declared mem mcfg := by
  constructor
  · intro h
    refine ⟨?_, (findTable_inside_iff rsdp useXsdt sig).mp h.findTable,
      (parseMadt_inside_iff madt).mp h.parseMadt, (parseMcfg_inside_iff mcfg info).mp h.parseMcfg⟩
    intro es hfits hids hioapics id hid
    rw [← (h.lists es hfits hids hioapics es.length (Nat.le_refl _)).1, mem_map] at hid
    obtain ⟨b, -, rfl⟩ := hid
    exact b.toNat_lt
  · rintro ⟨hsmall, hfind, hmadt, hmcfg⟩
    refine ⟨?_, (findTable_inside_iff rsdp useXsdt sig).mpr hfind,
      (parseMadt_inside_iff madt).mpr hmadt, (parseMcfg_inside_iff mcfg info).mpr hmcfg⟩
    intro es hfits hids hioapics n hn
    obtain ⟨hlapics, hios⟩ := parseMadt_info hmadt hfits hids hioapics hn
    refine ⟨?_, hios⟩
    rw [hlapics, map_map]
    refine (map_congr_left fun id hid => ?_).trans (map_id _)
    have hid := hsmall es hfits hids hioapics id hid
    exact Nat.mod_eq_of_lt hid

def x2apicMadt : Pointer := pointerTo
  ([0x41, 0x50, 0x49, 0x43, 60, 0, 0, 0] ++ List.replicate 36 0 ++
    [9, 16, 0, 0, 0, 1, 0, 0, 1, 0, 0, 0, 0, 0, 0, 0])

/-- Its processor is listed as number 0; and of an MCFG whose length is 0 an
entry is read. -/
theorem x2apic_truncated_and_mcfg_overread :
    (Fits x2apicMadt 0 madtSize [44] ∧ usableIds x2apicMadt 0 [44] = [256] ∧
      (acpiParseMadt x2apicMadt 0 2).info.lapicIds = [0]) ∧
    ¬ AllInside (fun _ => 0) (acpiParseMcfg (fun _ => 0) 4096 ⟨0, 0, 0, false⟩).2 := by
  refine ⟨⟨⟨rfl, by decide, by decide, ?_⟩, by decide, by decide⟩, ?_⟩
  · exact show madtSize + entryLength x2apicMadt 0 madtSize = declared x2apicMadt 0 by decide
  · rw [parseMcfg_inside_iff]
    decide

end AlJefra.Bus.Acpi
