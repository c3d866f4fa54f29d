/- The commands of an AHCI transfer. -/
import AlJefra.Storage.Ahci
import AlJefra.Storage.NvmeTheorems

namespace AlJefra.Storage.Ahci

open AlJefra.Hal List
open AlJefra.Lib

/-! ## The plan -/

theorem prdtLeft_eq (n left : Nat) : prdtLeft n left = left - n * ahciPrdtMaxBytes := by
  induction n generalizing left with
  | zero => simp [prdtLeft]
  | succ n ih =>
    rw [prdtLeft]
    split
    · rw [ih, Nat.succ_mul]
      split <;> omega
    · omega

theorem nextChunk_eq (p : AhciPort) (remaining : Nat) :
    nextChunk p remaining = min remaining 65536 := by
  have hchunk : (if remaining > 65536 then 65536 else remaining) = min remaining 65536 := by
    split <;> omega
  simp only [nextChunk, hchunk, prdtLeft_eq, p.sectorSize_eq, ahciMaxPrdtPerCmd, ahciPrdtMaxBytes]
  rw [if_neg (by omega)]

def command (p : AhciPort) (op : Op) (lba bufPhys : Nat) (piece : Nat × Nat) : Command :=
  buildCommand p op ((lba + piece.1) % 2 ^ 64) ((bufPhys + piece.1 * 512) % 2 ^ 64) piece.2

variable {σ : Type} {p : AhciPort} (io : σ → Command → σ × HalStatus)

theorem dmaLoop_eq (op : Op) (lba bufPhys : Nat) {fuel remaining : Nat} (hfuel : remaining ≤ fuel)
    (s : σ) (done : Nat) :
    dmaLoop p io op fuel s ((lba + done) % 2 ^ 64) ((bufPhys + done * 512) % 2 ^ 64) remaining
      = runUntil .ok io s
          ((piecesFrom 65536 fuel done remaining).map (command p op lba bufPhys)) := by
  induction fuel generalizing s done remaining with
  | zero => simp [dmaLoop, piecesFrom, runUntil]
  | succ fuel ih =>
    rw [dmaLoop, piecesFrom]
    by_cases hzero : remaining = 0
    · simp [hzero, runUntil]
    · have hpos : 0 < remaining := Nat.pos_of_ne_zero hzero
      have hlba : ((lba + done) % 2 ^ 64 + min remaining 65536) % 2 ^ 64
          = (lba + (done + min remaining 65536)) % 2 ^ 64 := by omega
      have hphys : ((bufPhys + done * 512) % 2 ^ 64 + min remaining 65536 * 512) % 2 ^ 64
          = (bufPhys + (done + min remaining 65536) * 512) % 2 ^ 64 := by omega
      have hrest := fun s => ih (by omega : remaining - min remaining 65536 ≤ fuel) s
        (done + min remaining 65536)
      have hcmd : buildCommand p op ((lba + done) % 2 ^ 64) ((bufPhys + done * 512) % 2 ^ 64)
          (min remaining 65536) = command p op lba bufPhys (done, min remaining 65536) := rfl
      rw [if_pos hpos, if_neg hzero, map_cons, runUntil]
      simp only [nextChunk_eq, hcmd, p.sectorSize_eq, hlba, hphys, hrest]
      cases io s (command p op lba bufPhys (done, min remaining 65536)) with
      | mk s' st => cases st <;> simp

def commands (p : AhciPort) (op : Op) (lba : UInt64) (count : UInt32) (bufPhys : UInt64) :
    List Command :=
  (pieces 65536 count.toNat).map (command p op lba.toNat bufPhys.toNat)

theorem ahciAtaDma_eq (hpresent : p.present = true) (op : Op) (s : σ) (lba : UInt64)
    (count : UInt32) (bufPhys : UInt64) :
    ahciAtaDma p io op s lba count bufPhys
      = runUntil .ok io s (commands p op lba count bufPhys) := by
  have hloop := dmaLoop_eq (p := p) io op lba.toNat bufPhys.toNat (Nat.le_refl count.toNat) s 0
  rw [Nat.add_zero, Nat.zero_mul, Nat.add_zero, Nat.mod_eq_of_lt lba.toNat_lt,
    Nat.mod_eq_of_lt bufPhys.toNat_lt] at hloop
  rw [ahciAtaDma, hpresent, Bool.not_true, if_neg Bool.false_ne_true, commands, pieces, ← hloop]

/-! ## The sectors and the memory of a command -/

def Command.lba (cmd : Command) : Nat :=
  cmd.lba0 + 2 ^ 8 * cmd.lba1 + 2 ^ 16 * cmd.lba2 + 2 ^ 24 * cmd.lba3 + 2 ^ 32 * cmd.lba4 +
    2 ^ 40 * cmd.lba5

def Command.sectors (cmd : Command) : Nat := if cmd.count = 0 then 65536 else cmd.count

def PrdtEntry.span (addr : Nat) (e : PrdtEntry) : List Nat :=
  (List.range (e.dbc + 1)).map fun i => (addr + i) % 2 ^ 64

def PrdtEntry.described (e : PrdtEntry) : List Nat := e.span (e.dba + 2 ^ 32 * e.dbau)
def PrdtEntry.bytes (e : PrdtEntry) : List Nat := e.span (e.dba / 2 * 2 + 2 ^ 32 * e.dbau)
def Command.bytes (cmd : Command) : List Nat := cmd.prdt.flatMap PrdtEntry.bytes

theorem lba_buildCommand (p : AhciPort) (op : Op) (curLba curPhys chunk : Nat) :
    (buildCommand p op curLba curPhys chunk).lba = curLba % 2 ^ 48 := by
  simp only [Command.lba, buildCommand]
  omega

variable {chunk left : Nat}

theorem sectors_buildCommand (p : AhciPort) (op : Op) (curLba curPhys : Nat) (hpos : 0 < chunk)
    (hle : chunk ≤ 65536) : (buildCommand p op curLba curPhys chunk).sectors = chunk := by
  simp only [Command.sectors, buildCommand]
  split <;> split at * <;> omega

theorem prdtFill_zero (curPhys n offset : Nat) : prdtFill curPhys n offset 0 = [] := by
  cases n <;> simp [prdtFill]

def region (curPhys offset size : Nat) : PrdtEntry where
  dba := (curPhys + offset) % 2 ^ 64 % 2 ^ 32
  dbau := (curPhys + offset) % 2 ^ 64 / 2 ^ 32
  dbc := (size - 1) % 2 ^ 22

theorem prdtFill_last (curPhys n offset : Nat) (hpos : 0 < left) (hle : left ≤ ahciPrdtMaxBytes) :
    prdtFill curPhys (n + 1) offset left = [region curPhys offset left] := by
  simp only [prdtFill, if_pos hpos, if_neg (Nat.not_lt.mpr hle), Nat.sub_self, prdtFill_zero,
    region]

theorem prdtFill_more (curPhys n offset : Nat) (hmore : ahciPrdtMaxBytes < left) :
    prdtFill curPhys (n + 1) offset left = region curPhys offset ahciPrdtMaxBytes
      :: prdtFill curPhys n (offset + ahciPrdtMaxBytes) (left - ahciPrdtMaxBytes) := by
  simp only [prdtFill, if_pos (Nat.zero_lt_of_lt hmore), if_pos hmore, region]

theorem flatMap_span_prdtFill (start : PrdtEntry → Nat) (base curPhys n offset left : Nat)
    (hoffset : offset % 2 = 0) (hleft : left ≤ n * ahciPrdtMaxBytes)
    (hstart : ∀ off size i, off % 2 = 0 →
      (start (region curPhys off size) + i) % 2 ^ 64 = (base + off + i) % 2 ^ 64) :
    (prdtFill curPhys n offset left).flatMap (fun e => e.span (start e))
      = (range left).map fun i => (base + offset + i) % 2 ^ 64 := by
  have hspan : ∀ off size, off % 2 = 0 → 0 < size → size ≤ ahciPrdtMaxBytes →
      (region curPhys off size).span (start (region curPhys off size))
        = (range size).map fun i => (base + off + i) % 2 ^ 64 := by
    intro off size hoff hpos hle
    have hsize : (size - 1) % 2 ^ 22 + 1 = size := by
      simp only [ahciPrdtMaxBytes] at hle
      omega
    rw [PrdtEntry.span, show (region curPhys off size).dbc + 1 = size from hsize]
    exact map_congr_left fun i _ => hstart off size i hoff
  induction n generalizing offset left with
  | zero =>
    rw [Nat.zero_mul, Nat.le_zero] at hleft
    rw [hleft]
    rfl
  | succ n ih =>
    rcases Nat.eq_zero_or_pos left with rfl | hpos
    · rfl
    · rcases Nat.lt_or_ge ahciPrdtMaxBytes left with hmore | hlast
      · have heven : (offset + ahciPrdtMaxBytes) % 2 = 0 := by
          simp only [ahciPrdtMaxBytes]
          omega
        obtain ⟨rest, rfl⟩ := Nat.exists_eq_add_of_le (Nat.le_of_lt hmore)
        rw [Nat.succ_mul, Nat.add_comm] at hleft
        rw [prdtFill_more _ _ _ hmore, flatMap_cons, Nat.add_sub_cancel_left,
          hspan _ _ hoffset (by decide) (Nat.le_refl _),
          ih _ _ heven (Nat.le_of_add_le_add_right hleft),
          ← map_range_append (fun i => (base + offset + i) % 2 ^ 64)]
        simp only [add_assoc]
      · rw [prdtFill_last _ _ _ hpos hlast, flatMap_singleton, hspan _ _ hoffset hpos hlast]

theorem chunk_fits (hle : chunk ≤ 65536) : chunk * 512 ≤ ahciMaxPrdtPerCmd * ahciPrdtMaxBytes := by
  simp only [ahciMaxPrdtPerCmd, ahciPrdtMaxBytes]
  omega

theorem bytes_buildCommand (p : AhciPort) (op : Op) (curLba curPhys : Nat) (hle : chunk ≤ 65536) :
    (buildCommand p op curLba curPhys chunk).bytes
      = (range (chunk * 512)).map fun i => (curPhys / 2 * 2 + i) % 2 ^ 64 := by
  have hstart : ∀ off size i, off % 2 = 0 →
      ((region curPhys off size).dba / 2 * 2 + 2 ^ 32 * (region curPhys off size).dbau + i) % 2 ^ 64
        = (curPhys / 2 * 2 + off + i) % 2 ^ 64 := by
    intro off size i hoff
    simp only [region]
    omega
  rw [Command.bytes, buildCommand, p.sectorSize_eq]
  exact flatMap_span_prdtFill (fun e => e.dba / 2 * 2 + 2 ^ 32 * e.dbau) (curPhys / 2 * 2) curPhys
    ahciMaxPrdtPerCmd 0 (chunk * 512) rfl (chunk_fits hle) hstart

theorem described_buildCommand (p : AhciPort) (op : Op) (curLba curPhys : Nat)
    (hle : chunk ≤ 65536) :
    (buildCommand p op curLba curPhys chunk).prdt.flatMap PrdtEntry.described
      = (range (chunk * 512)).map fun i => (curPhys + i) % 2 ^ 64 := by
  have hstart : ∀ off size i, off % 2 = 0 →
      ((region curPhys off size).dba + 2 ^ 32 * (region curPhys off size).dbau + i) % 2 ^ 64
        = (curPhys + off + i) % 2 ^ 64 := by
    intro off size i _
    simp only [region]
    omega
  rw [buildCommand, p.sectorSize_eq]
  exact flatMap_span_prdtFill (fun e => e.dba + 2 ^ 32 * e.dbau) curPhys curPhys
    ahciMaxPrdtPerCmd 0 (chunk * 512) rfl (chunk_fits hle) hstart

/-! ## Tiling -/

theorem prdtFill_bounds (curPhys n offset left : Nat) :
    (prdtFill curPhys n offset left).length ≤ n ∧
      ∀ e ∈ prdtFill curPhys n offset left, e.dbc + 1 ≤ ahciPrdtMaxBytes := by
  induction n generalizing offset left with
  | zero => simp [prdtFill]
  | succ n ih =>
    rw [prdtFill]
    split
    · obtain ⟨hlength, hsize⟩ := ih (offset + if left > ahciPrdtMaxBytes then ahciPrdtMaxBytes
        else left) (left - if left > ahciPrdtMaxBytes then ahciPrdtMaxBytes else left)
      refine ⟨Nat.succ_le_succ hlength, forall_mem_cons.mpr ⟨?_, hsize⟩⟩
      simp only [ahciPrdtMaxBytes]
      omega
    · exact ⟨Nat.zero_le _, fun e he => absurd he not_mem_nil⟩

def sectorsIn : List Command → Nat
  | [] => 0
  | cmd :: cmds => cmd.sectors + sectorsIn cmds

/-- The commands cover the sectors in order, all of them after success, within the limits of a
command, and their entries describe the buffer. -/
structure Tiles (lba : UInt64) (count : UInt32) (bufPhys : UInt64) (issued : List Command)
    (st : HalStatus) : Prop where
  covers : ∃ n, n ≤ count.toNat ∧
    issued.flatMap (fun cmd => List.range' cmd.lba cmd.sectors) = List.range' lba.toNat n ∧
    (st = .ok → n = count.toNat)
  limits : ∀ cmd ∈ issued, cmd.sectors ≤ 65536 ∧ cmd.prdt.length ≤ ahciMaxPrdtPerCmd ∧
    ∀ e ∈ cmd.prdt, e.dbc + 1 ≤ ahciPrdtMaxBytes
  slices : ∀ pre cmd post, issued = pre ++ cmd :: post →
    cmd.prdt.flatMap PrdtEntry.described
      = bufferSlice bufPhys.toNat (sectorsIn pre * 512) (cmd.sectors * 512)

theorem small_of_mem_pieces {count : Nat} {piece : Nat × Nat} (h : piece ∈ pieces 65536 count) :
    Small piece := by
  obtain ⟨k, hk, rfl⟩ := (mem_pieces (by decide)).mp h
  constructor <;> dsimp only <;> omega

section Tiling

variable {op : Op} {lba : UInt64} {bufPhys : UInt64} {ps : List (Nat × Nat)} {piece : Nat × Nat}

theorem sectors_command (h : Small piece) :
    (command p op lba.toNat bufPhys.toNat piece).sectors = piece.2 :=
  sectors_buildCommand _ _ _ _ h.1 h.2

theorem sectorsIn_map_command (h : ∀ piece ∈ ps, Small piece) :
    sectorsIn (ps.map (command p op lba.toNat bufPhys.toNat)) = total ps := by
  induction ps with
  | nil => rfl
  | cons piece rest ih =>
    obtain ⟨hpiece, hrest⟩ := forall_mem_cons.mp h
    rw [map_cons, sectorsIn, sectors_command hpiece, ih hrest, total]

theorem flatMap_sectors (hsmall : ∀ piece ∈ ps, Small piece) {start : Nat}
    (hps : Consecutive start ps) (hend : lba.toNat + start + total ps ≤ 2 ^ 48) :
    (ps.map (command p op lba.toNat bufPhys.toNat)).flatMap
        (fun cmd => range' cmd.lba cmd.sectors)
      = range' (lba.toNat + start) (total ps) := by
  induction ps generalizing start with
  | nil => rfl
  | cons piece rest ih =>
    obtain ⟨hpiece, hrest⟩ := forall_mem_cons.mp hsmall
    obtain ⟨hstart, hconsecutive⟩ := hps
    have hpos := hpiece.1
    rw [total] at hend
    have hlba : (command p op lba.toNat bufPhys.toNat piece).lba = lba.toNat + start := by
      rw [command, lba_buildCommand, hstart]
      omega
    rw [map_cons, flatMap_cons, ih hrest hconsecutive (by omega), hlba,
      sectors_command hpiece, total, ← add_assoc, range'_append_1]

theorem described_command (h : Small piece) :
    (command p op lba.toNat bufPhys.toNat piece).prdt.flatMap PrdtEntry.described
      = bufferSlice bufPhys.toNat (piece.1 * 512) (piece.2 * 512) := by
  rw [command, described_buildCommand _ _ _ _ h.2, bufferSlice]
  simp only [Nat.mod_add_mod]

theorem tiles_map_command (hsmall : ∀ piece ∈ ps, Small piece) (hps : Consecutive 0 ps)
    {count : UInt32} (hfits : lba.toNat + count.toNat ≤ 2 ^ 48) {st : HalStatus}
    (hle : total ps ≤ count.toNat) (hall : st = .ok → total ps = count.toNat) :
    Tiles lba count bufPhys (ps.map (command p op lba.toNat bufPhys.toNat)) st where
  covers := by
    refine ⟨total ps, hle, ?_, hall⟩
    exact flatMap_sectors hsmall hps (by omega)
  limits cmd hcmd := by
    obtain ⟨piece, hpiece, rfl⟩ := mem_map.mp hcmd
    rw [sectors_command (hsmall piece hpiece)]
    exact ⟨(hsmall piece hpiece).2, prdtFill_bounds _ _ _ _⟩
  slices pre cmd post hsplit := by
    obtain ⟨before, rest, rfl, rfl, hrest⟩ := map_eq_append_iff.mp hsplit
    obtain ⟨piece, after, rfl, rfl, -⟩ := map_eq_cons_iff.mp hrest
    have hstart := hps.start_eq
    have hpiece : Small piece := hsmall piece (by simp)
    have hpre : ∀ q ∈ before, Small q := fun q hq => hsmall q (mem_append_left _ hq)
    rw [described_command hpiece, sectorsIn_map_command hpre, sectors_command hpiece, hstart,
      zero_add]

end Tiling

def issue (p : AhciPort) (op : Op) (lba : UInt64) (count : UInt32) (bufPhys : UInt64)
    (outcome : List Command → Command → HalStatus) : List Command × HalStatus :=
  ahciAtaDma p (record outcome) op [] lba count bufPhys

def diskPort : AhciPort := ⟨true, 512, rfl⟩

end AlJefra.Storage.Ahci
