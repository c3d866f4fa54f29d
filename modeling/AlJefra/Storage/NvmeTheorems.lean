/- The commands of a transfer. -/
import AlJefra.Lib.Chunks
import AlJefra.Storage.Nvme

namespace AlJefra.Storage

open AlJefra.Hal List
open AlJefra.Lib

variable {ctrl : NvmeController}

/-! ## The plan -/

def cap (ctrl : NvmeController) : Nat := min (maxBlocks ctrl) (twoPages ctrl)

theorem maxBlocks_pos (ctrl : NvmeController) : 0 < maxBlocks ctrl := by
  simp only [maxBlocks]
  split
  · exact Nat.one_pos
  · next h => exact Nat.pos_of_ne_zero h

theorem twoPages_pos (ctrl : NvmeController) : 0 < twoPages ctrl := by
  simp only [twoPages]
  split
  · exact Nat.one_pos
  · next h => exact Nat.pos_of_ne_zero h

theorem cap_pos (ctrl : NvmeController) : 0 < cap ctrl :=
  Nat.lt_min.mpr ⟨maxBlocks_pos ctrl, twoPages_pos ctrl⟩

variable {addr chunk count len prp2 remaining : Nat} {piece : Nat × Nat} {ps : List (Nat × Nat)}

theorem nextPage_of_aligned (h : addr % 4096 = 0) :
    (addr + 4096) % 2 ^ 64 / 4096 * 4096 = nextPage addr := by
  unfold nextPage
  omega

theorem min_twoPages_of_le (hsize : 0 < ctrl.ns1BlockSize.toNat)
    (h : chunk * ctrl.ns1BlockSize.toNat ≤ 8192) (hpos : 0 < chunk) :
    min chunk (twoPages ctrl) = chunk := by
  have hfits := (Nat.le_div_iff_mul_le hsize).mpr h
  simp only [twoPages]
  split <;> omega

theorem min_twoPages_of_lt (hsize : 0 < ctrl.ns1BlockSize.toNat)
    (h : 8192 < chunk * ctrl.ns1BlockSize.toNat) : min chunk (twoPages ctrl) = twoPages ctrl := by
  have hmore := (Nat.div_lt_iff_lt_mul hsize).mpr h
  simp only [twoPages]
  split <;> omega

theorem nextChunk_eq (hsize : 0 < ctrl.ns1BlockSize.toNat) (hpos : 0 < remaining)
    (bufPhys offset : Nat) :
    nextChunk ctrl bufPhys offset remaining =
      { blocks := min remaining (cap ctrl)
        prp1 := (bufPhys + offset) % 2 ^ 64
        prp2 := if 4096 < min remaining (cap ctrl) * ctrl.ns1BlockSize.toNat then
          nextPage ((bufPhys + offset) % 2 ^ 64) else 0 } := by
  have hmin : (if remaining > maxBlocks ctrl then maxBlocks ctrl else remaining)
      = min remaining (maxBlocks ctrl) := by
    split <;> omega
  have hchunk : 0 < min remaining (maxBlocks ctrl) := Nat.lt_min.mpr ⟨hpos, maxBlocks_pos ctrl⟩
  simp only [nextChunk, hmin, cap, ← Nat.min_assoc]
  generalize min remaining (maxBlocks ctrl) = chunk at *
  generalize (bufPhys + offset) % 2 ^ 64 = prp1
  by_cases hsmall : chunk * ctrl.ns1BlockSize.toNat ≤ 8192
  · rw [min_twoPages_of_le hsize hsmall hchunk]
    by_cases hone : 4096 < chunk * ctrl.ns1BlockSize.toNat
    · rw [if_pos hone, if_pos hsmall, if_pos hone]
      by_cases haligned : prp1 % 4096 = 0
      · rw [if_neg (not_not_intro haligned), nextPage_of_aligned haligned]
      · rw [if_pos haligned]
    · rw [if_neg hone, if_neg hone]
  · have hone : 4096 < chunk * ctrl.ns1BlockSize.toNat := by omega
    rw [min_twoPages_of_lt hsize (Nat.lt_of_not_le hsmall), if_pos hone, if_neg hsmall]
    by_cases htwo : 4096 < twoPages ctrl * ctrl.ns1BlockSize.toNat
    · rw [if_pos htwo, if_pos htwo]
    · rw [if_neg htwo, if_neg htwo]

def command (ctrl : NvmeController) (op : Op) (lba bufPhys : Nat) (piece : Nat × Nat) : SqEntry :=
  sqEntry op ((lba + piece.1) % 2 ^ 64)
    { blocks := piece.2
      prp1 := (bufPhys + piece.1 * ctrl.ns1BlockSize.toNat) % 2 ^ 64
      prp2 := if 4096 < piece.2 * ctrl.ns1BlockSize.toNat then
        nextPage ((bufPhys + piece.1 * ctrl.ns1BlockSize.toNat) % 2 ^ 64) else 0 }

variable {σ : Type} (io : σ → SqEntry → σ × HalStatus)

theorem nvmeLoop_eq (hsize : 0 < ctrl.ns1BlockSize.toNat) (op : Op) (bufPhys lba : Nat) {fuel : Nat}
    (hfuel : remaining ≤ fuel) (s : σ) (done : Nat) :
    nvmeLoop ctrl io op bufPhys fuel s ((lba + done) % 2 ^ 64) remaining
        (done * ctrl.ns1BlockSize.toNat)
      = runUntil .ok io s
          ((piecesFrom (cap ctrl) fuel done remaining).map (command ctrl op lba bufPhys)) := by
  induction fuel generalizing s done remaining with
  | zero => simp [nvmeLoop, piecesFrom, runUntil]
  | succ fuel ih =>
    rw [nvmeLoop, piecesFrom]
    by_cases hzero : remaining = 0
    · simp [hzero, runUntil]
    · have hpos : 0 < remaining := Nat.pos_of_ne_zero hzero
      have hcap := cap_pos ctrl
      have hlba : ((lba + done) % 2 ^ 64 + min remaining (cap ctrl)) % 2 ^ 64
          = (lba + (done + min remaining (cap ctrl))) % 2 ^ 64 := by omega
      have hrest := fun s => ih (by omega : remaining - min remaining (cap ctrl) ≤ fuel) s
        (done + min remaining (cap ctrl))
      rw [if_pos hpos, if_neg hzero, map_cons, runUntil]
      simp only [nextChunk_eq hsize hpos, hlba, ← Nat.add_mul, hrest, command]
      generalize io s _ = result
      obtain ⟨s', st⟩ := result
      cases st <;> simp

def commands (ctrl : NvmeController) (op : Op) (lba : UInt64) (count : UInt32) (bufPhys : UInt64) :
    List SqEntry :=
  (pieces (cap ctrl) count.toNat).map (command ctrl op lba.toNat bufPhys.toNat)

theorem nvmeRw_eq (hinit : ctrl.initialized = true) (op : Op) (s : σ) (lba : UInt64)
    (count : UInt32) (bufPhys : UInt64) :
    nvmeRw ctrl io op s lba count bufPhys
      = runUntil .ok io s (commands ctrl op lba count bufPhys) := by
  have hloop := nvmeLoop_eq io (ctrl.blockSize_pos hinit) op bufPhys.toNat lba.toNat
    (Nat.le_refl count.toNat) s 0
  rw [Nat.add_zero, Nat.mod_eq_of_lt lba.toNat_lt, Nat.zero_mul] at hloop
  rw [nvmeRw, hinit, Bool.not_true, if_neg Bool.false_ne_true, commands, pieces, ← hloop]
  split
  · next hcount => simp [hcount, nvmeLoop]
  · rfl

/-! ## The blocks of a command -/

def SqEntry.slba (cmd : SqEntry) : Nat := cmd.cdw10 + 2 ^ 32 * cmd.cdw11
def SqEntry.numBlocks (cmd : SqEntry) : Nat := cmd.cdw12 % 2 ^ 16 + 1

def SqEntry.lbas (cmd : SqEntry) : List Nat :=
  (List.range cmd.numBlocks).map fun i => (cmd.slba + i) % 2 ^ 64

def blocksIn : List SqEntry → Nat
  | [] => 0
  | cmd :: cmds => cmd.numBlocks + blocksIn cmds

theorem cap_le (ctrl : NvmeController) : cap ctrl ≤ 8192 := by
  have hdiv : 8192 / ctrl.ns1BlockSize.toNat ≤ 8192 := Nat.div_le_self _ _
  have htwo : twoPages ctrl ≤ 8192 := by
    simp only [twoPages]
    split <;> omega
  exact Nat.le_trans (Nat.min_le_right _ _) htwo

/-- What one command can move. -/
def Small (piece : Nat × Nat) : Prop := 0 < piece.2 ∧ piece.2 ≤ 65536

theorem small_of_mem_pieces (h : piece ∈ pieces (cap ctrl) count) : Small piece := by
  have hpos := cap_pos ctrl
  have hle := cap_le ctrl
  obtain ⟨k, hk, rfl⟩ := (mem_pieces hpos).mp h
  constructor <;> dsimp only <;> omega

variable {op : Op} {lba bufPhys : Nat}

theorem numBlocks_command (h : Small piece) :
    (command ctrl op lba bufPhys piece).numBlocks = piece.2 := by
  obtain ⟨hpos, hle⟩ := h
  simp only [SqEntry.numBlocks, command, sqEntry]
  omega

theorem slba_command (piece : Nat × Nat) :
    (command ctrl op lba bufPhys piece).slba = (lba + piece.1) % 2 ^ 64 := by
  simp only [SqEntry.slba, command, sqEntry]
  omega

theorem lbas_command (h : Small piece) : (command ctrl op lba bufPhys piece).lbas
      = (range' piece.1 piece.2).map fun i => (lba + i) % 2 ^ 64 := by
  rw [SqEntry.lbas, numBlocks_command h, slba_command, range'_eq_map_range, map_map]
  apply map_congr_left
  intro i _
  simp only [Function.comp]
  omega

theorem blocksIn_map_command (h : ∀ piece ∈ ps, Small piece) :
    blocksIn (ps.map (command ctrl op lba bufPhys)) = total ps := by
  induction ps with
  | nil => rfl
  | cons piece rest ih =>
    obtain ⟨hpiece, hrest⟩ := forall_mem_cons.mp h
    rw [map_cons, blocksIn, numBlocks_command hpiece, ih hrest, total]

theorem flatMap_lbas (hsmall : ∀ piece ∈ ps, Small piece) (h : Consecutive 0 ps) :
    (ps.map (command ctrl op lba bufPhys)).flatMap SqEntry.lbas
      = (range (total ps)).map fun i => (lba + i) % 2 ^ 64 := by
  have hmap : ps.map (fun piece => (command ctrl op lba bufPhys piece).lbas)
      = ps.map fun piece => (range' piece.1 piece.2).map fun i => (lba + i) % 2 ^ 64 :=
    map_congr_left fun piece hpiece => lbas_command (hsmall piece hpiece)
  rw [flatMap_map, flatMap_def, hmap, ← flatMap_def, ← map_flatMap,
    h.flatMap_range', range_eq_range']

/-! ## The pages of a command -/

def prpRange (prp1 prp2 len : Nat) : List Nat :=
  let first := min len (4096 - prp1 % 4096)
  List.range' prp1 first ++ List.range' prp2 (min (len - first) (4096 - prp2 % 4096))

def SqEntry.prpBytes (blockSize : Nat) (cmd : SqEntry) : List Nat :=
  prpRange cmd.prp1 cmd.prp2 (cmd.numBlocks * blockSize)

def bufferSlice (bufPhys off len : Nat) : List Nat :=
  (List.range len).map fun i => (bufPhys + off + i) % 2 ^ 64

/-- The bytes stay in one page, or end on the next one and there is a second pointer. Behind the
last page comes the one at 0, to which a missing pointer points. -/
def PrpFits (addr len : Nat) : Prop :=
  addr % 4096 + len ≤ 4096 ∨
    (addr % 4096 + len ≤ 8192 ∧ (4096 < len ∨ 2 ^ 64 - 4096 ≤ addr))

instance (addr len : Nat) : Decidable (PrpFits addr len) := inferInstanceAs (Decidable (_ ∨ _))

theorem map_range_mod (h : addr + len ≤ 2 ^ 64) :
    ((range len).map fun i => (addr + i) % 2 ^ 64) = range' addr len := by
  rw [range'_eq_map_range]
  apply map_congr_left
  intro i hi
  have := mem_range.mp hi
  omega

theorem range'_eq_page_iff {page : Nat} (hpage : page % 4096 = 0) (hlt : page < 2 ^ 64)
    (hprp2 : prp2 % 4096 = 0) (hpos : 0 < len) :
    range' prp2 (min len (4096 - prp2 % 4096))
        = ((range len).map fun i => (page + i) % 2 ^ 64)
      ↔ len ≤ 4096 ∧ prp2 = page := by
  constructor
  · intro h
    have hlen := congrArg length h
    simp only [length_range', length_map, length_range] at hlen
    have hhead := congrArg (fun l => l[0]?) h
    rw [hlen] at hhead
    simp only [getElem?_range' hpos, getElem?_map, getElem?_range hpos,
      Option.map_some, Option.some.injEq, add_zero, Nat.mod_eq_of_lt hlt] at hhead
    omega
  · rintro ⟨hlen, rfl⟩
    rw [map_range_mod (by omega)]
    congr 1
    omega

theorem prp_eq_iff (haddr : addr < 2 ^ 64) (hpos : 0 < len)
    (hprp2 : prp2 = if 4096 < len then nextPage addr else 0) :
    prpRange addr prp2 len = ((range len).map fun i => (addr + i) % 2 ^ 64)
      ↔ PrpFits addr len := by
  simp only [prpRange]
  by_cases hone : len ≤ 4096 - addr % 4096
  · have hfirst : min len (4096 - addr % 4096) = len := Nat.min_eq_left hone
    have hfits : PrpFits addr len := .inl (by omega)
    rw [hfirst, map_range_mod (by omega), Nat.sub_self, Nat.zero_min, range'_zero, append_nil]
    exact ⟨fun _ => hfits, fun _ => rfl⟩
  · have hfirst : min len (4096 - addr % 4096) = 4096 - addr % 4096 := by omega
    have hrange : range len = range (4096 - addr % 4096)
        ++ (range (len - (4096 - addr % 4096))).map (4096 - addr % 4096 + ·) := by
      rw [← range_add]
      congr 1
      omega
    have hpage : nextPage addr % 4096 = 0 := by unfold nextPage; omega
    have hpageLt : nextPage addr < 2 ^ 64 := Nat.mod_lt _ (by decide)
    have haligned : prp2 % 4096 = 0 := by
      rw [hprp2]
      split
      · exact hpage
      · rfl
    have hsecond : ((range (len - (4096 - addr % 4096))).map
          (4096 - addr % 4096 + ·)).map (fun i => (addr + i) % 2 ^ 64)
        = (range (len - (4096 - addr % 4096))).map fun i => (nextPage addr + i) % 2 ^ 64 := by
      rw [map_map]
      apply map_congr_left
      intro i _
      simp only [Function.comp, nextPage]
      omega
    rw [hfirst, hrange, map_append, map_range_mod (by omega), append_cancel_left_eq,
      hsecond, range'_eq_page_iff hpage hpageLt haligned (by omega), hprp2]
    unfold PrpFits nextPage
    split <;> omega

theorem prpBytes_command_iff (hsize : 0 < ctrl.ns1BlockSize.toNat) (h : Small piece) :
    (command ctrl op lba bufPhys piece).prpBytes ctrl.ns1BlockSize.toNat
        = bufferSlice bufPhys (piece.1 * ctrl.ns1BlockSize.toNat)
            (piece.2 * ctrl.ns1BlockSize.toNat)
      ↔ PrpFits ((bufPhys + piece.1 * ctrl.ns1BlockSize.toNat) % 2 ^ 64)
          (piece.2 * ctrl.ns1BlockSize.toNat) := by
  have hslice : bufferSlice bufPhys (piece.1 * ctrl.ns1BlockSize.toNat)
      (piece.2 * ctrl.ns1BlockSize.toNat)
      = (range (piece.2 * ctrl.ns1BlockSize.toNat)).map fun i =>
          ((bufPhys + piece.1 * ctrl.ns1BlockSize.toNat) % 2 ^ 64 + i) % 2 ^ 64 := by
    apply map_congr_left
    intro i _
    rw [Nat.mod_add_mod]
  rw [SqEntry.prpBytes, numBlocks_command h, hslice]
  exact prp_eq_iff (Nat.mod_lt _ (by decide)) (Nat.mul_pos h.1 hsize) rfl

/-! ## Transfers -/

def Tiles (lba : UInt64) (count : UInt32) (issued : List SqEntry) (st : HalStatus) : Prop :=
  ∃ n, n ≤ count.toNat ∧
    issued.flatMap SqEntry.lbas = ((List.range n).map fun i => (lba.toNat + i) % 2 ^ 64) ∧
    (st = .ok → n = count.toNat)

def Described (blockSize : Nat) (bufPhys : UInt64) (issued : List SqEntry) : Prop :=
  ∀ pre cmd post, issued = pre ++ cmd :: post →
    cmd.prpBytes blockSize
      = bufferSlice bufPhys.toNat (blocksIn pre * blockSize) (cmd.numBlocks * blockSize)

def issue (ctrl : NvmeController) (op : Op) (lba : UInt64) (count : UInt32) (bufPhys : UInt64)
    (outcome : List SqEntry → SqEntry → HalStatus) : List SqEntry × HalStatus :=
  nvmeRw ctrl (record outcome) op [] lba count bufPhys

theorem small_of_mem_take {j : Nat} (h : piece ∈ (pieces (cap ctrl) count).take j) : Small piece :=
  small_of_mem_pieces (mem_of_mem_take h)

theorem issue_eq (hinit : ctrl.initialized = true) (op : Op) (lba : UInt64) (count : UInt32)
    (bufPhys : UInt64) (outcome : List SqEntry → SqEntry → HalStatus) :
    ∃ j, (issue ctrl op lba count bufPhys outcome).1 = ((pieces (cap ctrl) count.toNat).take j).map
            (command ctrl op lba.toNat bufPhys.toNat) ∧
      ((issue ctrl op lba count bufPhys outcome).2 = .ok →
        total ((pieces (cap ctrl) count.toNat).take j) = count.toNat) := by
  rw [issue, nvmeRw_eq _ hinit]
  obtain ⟨j, hissued, hall⟩ := @runUntil_record _ _ _ HalStatus.ok outcome []
    (commands ctrl op lba count bufPhys)
  refine ⟨j, ?_, ?_⟩
  · rw [hissued, nil_append, commands, map_take]
  · intro hok
    have hlength := congrArg length (hall hok)
    rw [commands, ← map_take, length_map, length_map] at hlength
    have htake : (pieces (cap ctrl) count.toNat).take j = pieces (cap ctrl) count.toNat := by
      rw [length_take] at hlength
      exact take_of_length_le (by omega)
    rw [htake, total_pieces (cap_pos ctrl)]

theorem issue_good (hinit : ctrl.initialized = true) {op : Op} {lba : UInt64} {count : UInt32}
    {bufPhys : UInt64} :
    (issue ctrl op lba count bufPhys fun _ _ => .ok).1
      = (pieces (cap ctrl) count.toNat).map (command ctrl op lba.toNat bufPhys.toNat) := by
  rw [issue, nvmeRw_eq _ hinit, runUntil_record_good, nil_append, commands]

theorem tiles_issue (ctrl : NvmeController) (op : Op) (lba : UInt64) (count : UInt32)
    (bufPhys : UInt64) (outcome : List SqEntry → SqEntry → HalStatus) :
    Tiles lba count (issue ctrl op lba count bufPhys outcome).1
      (issue ctrl op lba count bufPhys outcome).2 := by
  cases hinit : ctrl.initialized with
  | false =>
    refine ⟨0, Nat.zero_le _, ?_, ?_⟩
    · simp [issue, nvmeRw, hinit]
    · simp [issue, nvmeRw, hinit]
  | true =>
    obtain ⟨j, hissued, hall⟩ := issue_eq hinit op lba count bufPhys outcome
    refine ⟨total ((pieces (cap ctrl) count.toNat).take j), ?_, ?_, hall⟩
    · have hle := total_take_le (pieces (cap ctrl) count.toNat) j
      rwa [total_pieces (cap_pos ctrl)] at hle
    · rw [hissued]
      exact flatMap_lbas (fun _ => small_of_mem_take) ((consecutive_pieces _ _).take j)

theorem described_iff (hsize : 0 < ctrl.ns1BlockSize.toNat) (op : Op) (lba : UInt64)
    (bufPhys : UInt64) (hsmall : ∀ piece ∈ ps, Small piece) (hps : Consecutive 0 ps) :
    Described ctrl.ns1BlockSize.toNat bufPhys (ps.map (command ctrl op lba.toNat bufPhys.toNat)) ↔
      ∀ piece ∈ ps, PrpFits ((bufPhys.toNat + piece.1 * ctrl.ns1BlockSize.toNat) % 2 ^ 64)
        (piece.2 * ctrl.ns1BlockSize.toNat) := by
  constructor
  · intro h piece hpiece
    obtain ⟨pre, post, rfl⟩ := append_of_mem hpiece
    have hstart := hps.start_eq
    have hpre : ∀ piece ∈ pre, Small piece := fun p hp => hsmall p (mem_append_left _ hp)
    have hbytes := h _ _ _ (map_append ..)
    rw [blocksIn_map_command hpre, numBlocks_command (hsmall piece hpiece)] at hbytes
    rw [zero_add] at hstart
    rw [← hstart] at hbytes
    exact (prpBytes_command_iff hsize (hsmall piece hpiece)).mp hbytes
  · intro h pre cmd post hsplit
    obtain ⟨before, rest, rfl, rfl, hrest⟩ := map_eq_append_iff.mp hsplit
    obtain ⟨piece, after, rfl, rfl, -⟩ := map_eq_cons_iff.mp hrest
    have hstart := hps.start_eq
    have hpiece : piece ∈ before ++ piece :: after := by simp
    have hpre : ∀ p ∈ before, Small p := fun p hp => hsmall p (mem_append_left _ hp)
    rw [blocksIn_map_command hpre, numBlocks_command (hsmall piece hpiece)]
    rw [zero_add] at hstart
    rw [← hstart]
    exact (prpBytes_command_iff hsize (hsmall piece hpiece)).mpr (h piece hpiece)

/-- The commands tile every request and describe its buffer exactly if each piece fits two pointers.
-/
theorem nvmeRw_pointers_iff (ctrl : NvmeController) (op : Op) (lba : UInt64) (count : UInt32)
    (bufPhys : UInt64) :
    (∀ outcome, Tiles lba count (issue ctrl op lba count bufPhys outcome).1
        (issue ctrl op lba count bufPhys outcome).2 ∧
      Described ctrl.ns1BlockSize.toNat bufPhys
        (issue ctrl op lba count bufPhys outcome).1) ↔
    (ctrl.initialized = true → ∀ k, k * cap ctrl < count.toNat →
      PrpFits ((bufPhys.toNat + k * cap ctrl * ctrl.ns1BlockSize.toNat) % 2 ^ 64)
        (min (count.toNat - k * cap ctrl) (cap ctrl) * ctrl.ns1BlockSize.toNat)) := by
  constructor
  · intro h hinit k hk
    have hdescribed := (h fun _ _ => .ok).2
    rw [issue_good hinit, described_iff (ctrl.blockSize_pos hinit) op lba bufPhys
      (fun _ => small_of_mem_pieces) (consecutive_pieces _ _)] at hdescribed
    exact (hdescribed _ ((mem_pieces (cap_pos ctrl)).mpr ⟨k, hk, rfl⟩) :)
  · intro h outcome
    refine ⟨tiles_issue ctrl op lba count bufPhys outcome, ?_⟩
    cases hinit : ctrl.initialized with
    | false =>
      intro pre cmd post hsplit
      simp [issue, nvmeRw, hinit] at hsplit
    | true =>
      obtain ⟨j, hissued, -⟩ := issue_eq hinit op lba count bufPhys outcome
      rw [hissued, described_iff (ctrl.blockSize_pos hinit) op lba bufPhys
        (fun _ => small_of_mem_take) ((consecutive_pieces _ _).take j)]
      intro piece hpiece
      obtain ⟨k, hk, rfl⟩ := (mem_pieces (cap_pos ctrl)).mp (mem_of_mem_take hpiece)
      exact h hinit k hk

def sectorController : NvmeController where
  maxTransfer := 1048576
  ns1BlockSize := 512
  initialized := true
  blockSize_pos _ := by decide

/-- Eight blocks from the middle of a page: the bytes behind it are described at address 0. -/
theorem nvmeRead_crosses_page :
    (issue sectorController .read 0 8 0x1200 fun _ _ => .ok).1
      = [{ opc := 2, nsid := 1, prp1 := 0x1200, prp2 := 0, cdw10 := 0, cdw11 := 0, cdw12 := 7 }] ∧
    ¬ Described sectorController.ns1BlockSize.toNat 0x1200
      (issue sectorController .read 0 8 0x1200 fun _ _ => .ok).1 := by
  refine ⟨by decide, ?_⟩
  rw [issue_good rfl, described_iff (by decide) .read 0 0x1200 (fun _ => small_of_mem_pieces)
    (consecutive_pieces _ _)]
  intro h
  exact absurd (h (0, 8) (by decide)) (by decide)

end AlJefra.Storage
