/- The unit of `driver_ops_t`. -/
import AlJefra.Storage.DriverOps

namespace AlJefra.Storage

open AlJefra.Hal List
open AlJefra.Lib

/-! ## Pieces of a request -/

def sectorSlice (buf lba : UInt64) (piece : Nat × Nat) : List Move :=
  (List.range (piece.2 * 512)).map fun i =>
    (lba.toNat * 512 + (piece.1 * 512 + i), (buf.toNat + (piece.1 * 512 + i)) % 2 ^ 64)

variable {buf lba : UInt64} {count : UInt32} {cap : Nat} {f : Nat × Nat → Option (List Move)}

theorem sectorMoves_eq (hcap : 0 < cap) : sectorMoves buf lba count
      = (pieces cap count.toNat).flatMap (sectorSlice buf lba) := by
  have hunits := (consecutive_pieces cap count.toNat).flatMap_units 512
    fun i => (lba.toNat * 512 + i, (buf.toNat + i) % 2 ^ 64)
  simp only [total_pieces hcap, Nat.zero_mul, Nat.zero_add] at hunits
  exact hunits.symm

theorem collect_sectors_iff (hcap : 0 < cap)
    (hlen : ∀ piece ∈ pieces cap count.toNat, ∀ v, f piece = some v → v.length = piece.2 * 512) :
    collect ((pieces cap count.toNat).map f) = some (sectorMoves buf lba count) ↔
      ∀ piece ∈ pieces cap count.toNat, f piece = some (sectorSlice buf lba piece) := by
  rw [sectorMoves_eq hcap]
  refine collect_eq_some_flatMap_iff fun piece hpiece v hv => ?_
  rw [hlen piece hpiece v hv, sectorSlice, length_map, length_range]

variable {unit : Nat}

theorem unit_of_collect (hcap : 0 < cap)
    (hlen : ∀ piece ∈ pieces cap count.toNat, ∀ v, f piece = some v → v.length = piece.2 * unit)
    (h : collect ((pieces cap count.toNat).map f) = some (sectorMoves buf lba count)) :
    count.toNat = 0 ∨ unit = 512 := by
  have hlength := length_collect hlen h
  rw [sectorMoves, length_map, length_range, total_pieces hcap] at hlength
  rcases Nat.eq_zero_or_pos count.toNat with hzero | hpos
  · exact .inl hzero
  · exact .inr (Nat.eq_of_mul_eq_mul_left hpos hlength.symm)

theorem collect_unit_iff (hcap : 0 < cap)
    (hlen : ∀ piece ∈ pieces cap count.toNat, ∀ v, f piece = some v → v.length = piece.2 * unit) :
    collect ((pieces cap count.toNat).map f) = some (sectorMoves buf lba count) ↔
      count.toNat = 0 ∨ (unit = 512 ∧
        ∀ piece ∈ pieces cap count.toNat, f piece = some (sectorSlice buf lba piece)) := by
  constructor
  · intro h
    rcases unit_of_collect hcap hlen h with hzero | rfl
    · exact .inl hzero
    · exact .inr ⟨rfl, (collect_sectors_iff hcap hlen).mp h⟩
  · rintro (hzero | ⟨rfl, hall⟩)
    · rw [sectorMoves, hzero]
      rfl
    · exact (collect_sectors_iff hcap hlen).mpr hall

theorem slice_iff {start : Nat} {addr : Nat → Nat} {piece : Nat × Nat} (hpos : 0 < piece.2) :
    some ((range (piece.2 * 512)).map fun i => (start * 512 + i, addr i))
        = some (sectorSlice buf lba piece) ↔
      start = lba.toNat + piece.1 ∧
        ∀ i, i < piece.2 * 512 → addr i = (buf.toNat + piece.1 * 512 + i) % 2 ^ 64 := by
  rw [Option.some.injEq, sectorSlice, map_inj_left]
  constructor
  · intro h
    have hfirst := congrArg Prod.fst (h 0 (mem_range.mpr (by omega)))
    refine ⟨by dsimp only at hfirst; omega, fun i hi => ?_⟩
    have hbyte := congrArg Prod.snd (h i (mem_range.mpr hi))
    dsimp only at hbyte
    rw [hbyte, add_assoc]
  · rintro ⟨rfl, hall⟩ i hi
    rw [hall i (mem_range.mp hi), Nat.add_mul, Nat.add_assoc, Nat.add_assoc]

theorem carried_out {κ : Type} {accepts : κ → Bool} {effect : κ → Option (List Move)}
    {ps : List (Nat × Nat)} {cmd : Nat × Nat → κ}
    (h : (runUntil .ok (carryOut HalStatus.ok .error accepts effect) (some []) (ps.map cmd)).2
      = .ok) :
    (∀ piece ∈ ps, accepts (cmd piece) = true) ∧
      (runUntil .ok (carryOut HalStatus.ok .error accepts effect) (some []) (ps.map cmd)).1
        = collect (ps.map fun piece => effect (cmd piece)) := by
  obtain ⟨hall, hstate⟩ := runUntil_carryOut (by decide) _ _ h
  rw [nil_andThen, map_map] at hstate
  exact ⟨fun piece hpiece => hall _ (mem_map_of_mem hpiece), hstate⟩

theorem drvResult_ok {σ : Type} {r : σ × HalStatus} (h : (drvResult count r).2 = count.toNat) :
    r.2 = .ok := by
  simp only [drvResult] at h
  split at h
  · assumption
  · omega

/-! ## NVMe -/

section Nvme

variable {ctrl : NvmeController} {op : Op}

theorem prpByte_iff {addr len prp2 : Nat} (haddr : addr < 2 ^ 64) (htwo : addr % 4096 + len ≤ 8192)
    (hprp2 : prp2 = if 4096 < len then nextPage addr else 0) :
    (∀ i, i < len → prpByte addr prp2 i = (addr + i) % 2 ^ 64) ↔ PrpFits addr len := by
  unfold PrpFits
  constructor
  · intro h
    by_cases hone : addr % 4096 + len ≤ 4096
    · exact .inl hone
    · -- the first byte of the second page
      refine .inr ⟨htwo, ?_⟩
      have hbyte := h (4096 - addr % 4096) (by omega)
      simp only [prpByte, Nat.lt_irrefl, if_false, Nat.sub_self, Nat.add_zero] at hbyte
      by_cases hlong : 4096 < len
      · exact .inl hlong
      · rw [hprp2, if_neg hlong] at hbyte
        omega
  · intro h i hi
    simp only [prpByte]
    split
    · omega
    · have hpage : prp2 = nextPage addr := by
        rw [hprp2]
        split
        · rfl
        · unfold nextPage
          omega
      rw [hpage]
      unfold nextPage
      omega

variable {piece : Nat × Nat} {nsze : UInt64}

theorem length_moves {blockSize : Nat} (h : Small piece) {lba bufPhys : Nat} {v : List Move}
    (hv : (command ctrl op lba bufPhys piece).moves blockSize = some v) :
    v.length = piece.2 * blockSize := by
  simp only [SqEntry.moves, numBlocks_command h] at hv
  split at hv
  · rw [← Option.some.inj hv, length_map, length_range]
  · cases hv

theorem moves_command_iff (hsize : ctrl.ns1BlockSize.toNat = 512) (h : Small piece)
    (hlba : lba.toNat + piece.1 < 2 ^ 64) :
    (command ctrl op lba.toNat buf.toNat piece).moves 512 = some (sectorSlice buf lba piece) ↔
      PrpFits ((buf.toNat + piece.1 * 512) % 2 ^ 64) (piece.2 * 512) := by
  have hprp1 : (command ctrl op lba.toNat buf.toNat piece).prp1
      = (buf.toNat + piece.1 * 512) % 2 ^ 64 := by
    rw [← hsize]
    rfl
  have hprp2 : (command ctrl op lba.toNat buf.toNat piece).prp2
      = if 4096 < piece.2 * 512 then nextPage ((buf.toNat + piece.1 * 512) % 2 ^ 64) else 0 := by
    rw [← hsize]
    rfl
  have haddr : (buf.toNat + piece.1 * 512) % 2 ^ 64 < 2 ^ 64 := Nat.mod_lt _ (by decide)
  simp only [SqEntry.moves, numBlocks_command h, slba_command, hprp1, Nat.mod_eq_of_lt hlba]
  split
  · next htwo =>
    rw [slice_iff h.1, ← prpByte_iff haddr htwo hprp2]
    simp only [Nat.mod_add_mod, true_and]
  · next htwo =>
    unfold PrpFits
    simp only [reduceCtorEq, false_iff]
    omega

theorem nvme_success
    (h : ((StorageDriver.nvme ctrl nsze).rw op buf lba count).2 = some (count.toNat : Int)) :
    (∀ piece ∈ pieces (Storage.cap ctrl) count.toNat,
      (command ctrl op lba.toNat buf.toNat piece).accepted nsze.toNat = true) ∧
    ((StorageDriver.nvme ctrl nsze).rw op buf lba count).1
      = collect ((pieces (Storage.cap ctrl) count.toNat).map fun piece =>
          (command ctrl op lba.toNat buf.toNat piece).moves ctrl.ns1BlockSize.toNat) := by
  have hok := drvResult_ok (Option.some.inj h)
  have hinit : ctrl.initialized = true := by
    cases hinit : ctrl.initialized with
    | true => rfl
    | false =>
      rw [nvmeRw, hinit] at hok
      cases hok
  have hstate := congrArg Prod.fst (nvmeRw_eq (carryOut HalStatus.ok .error
    (SqEntry.accepted nsze.toNat) (SqEntry.moves ctrl.ns1BlockSize.toNat)) hinit op (some []) lba
    count buf)
  rw [nvmeRw_eq _ hinit, commands] at hok
  rw [commands, (carried_out hok).2] at hstate
  exact ⟨(carried_out hok).1, hstate⟩

theorem nvme_sectors_iff
    (h : ((StorageDriver.nvme ctrl nsze).rw op buf lba count).2 = some (count.toNat : Int)) :
    ((StorageDriver.nvme ctrl nsze).rw op buf lba count).1 = some (sectorMoves buf lba count) ↔
      count.toNat = 0 ∨ (ctrl.ns1BlockSize.toNat = 512 ∧ ∀ k, k * Storage.cap ctrl < count.toNat →
          PrpFits ((buf.toNat + k * Storage.cap ctrl * 512) % 2 ^ 64)
            (min (count.toNat - k * Storage.cap ctrl) (Storage.cap ctrl) * 512)) := by
  obtain ⟨hall, hstate⟩ := nvme_success h
  have hcap := cap_pos ctrl
  rw [hstate, collect_unit_iff hcap fun piece hpiece v hv =>
    length_moves (small_of_mem_pieces hpiece) hv]
  -- a block number that wrapped around would lie behind the namespace
  have hnowrap := (consecutive_pieces (Storage.cap ctrl) count.toNat).no_wrap
    (m := 2 ^ 64) lba.toNat_lt nsze.toNat_lt fun piece hpiece => by
      have hacc := of_decide_eq_true (hall piece hpiece)
      rwa [numBlocks_command (small_of_mem_pieces hpiece), slba_command] at hacc
  refine or_congr_right (and_congr_right fun hsize => ?_)
  rw [hsize]
  constructor
  · intro hmoves k hk
    have hpiece := (mem_pieces hcap).mpr ⟨k, hk, rfl⟩
    exact (moves_command_iff hsize (small_of_mem_pieces hpiece) (hnowrap _ hpiece)).mp
      (hmoves _ hpiece)
  · intro hfits piece hpiece
    rw [moves_command_iff hsize (small_of_mem_pieces hpiece) (hnowrap _ hpiece)]
    obtain ⟨k, hk, rfl⟩ := (mem_pieces hcap).mp hpiece
    exact hfits k hk

end Nvme

/-! ## AHCI -/

section Ahci

variable {hba : Ahci.AhciHba} {port : Ahci.AhciPort} {drive : Ahci.Drive} {op : Op}
  {piece : Nat × Nat}

theorem length_ahciMoves (h : piece ∈ pieces 65536 count.toNat) {lba bufPhys : Nat} {v : List Move}
    (hv : (Ahci.command port op lba bufPhys piece).moves drive = some v) :
    v.length = piece.2 * drive.sectorSize := by
  obtain ⟨hpos, hle⟩ := Ahci.small_of_mem_pieces h
  simp only [Ahci.Command.moves, Ahci.command, Ahci.sectors_buildCommand _ _ _ _ hpos hle] at hv
  split at hv
  · next hlen =>
    rw [← Option.some.inj hv, length_zip, length_map, length_range, hlen, Nat.min_self]
  · cases hv

theorem ahciMoves_command_iff (hsize : drive.sectorSize = 512)
    (h : piece ∈ pieces 65536 count.toNat) :
    (Ahci.command port op lba.toNat buf.toNat piece).moves drive
        = some (sectorSlice buf lba piece) ↔
      buf.toNat % 2 = 0 ∧ lba.toNat + piece.1 < 2 ^ 48 := by
  obtain ⟨hpos, hle⟩ := Ahci.small_of_mem_pieces h
  simp only [Ahci.Command.moves, Ahci.command, Ahci.sectors_buildCommand _ _ _ _ hpos hle, hsize,
    Ahci.bytes_buildCommand _ _ _ _ hle, Ahci.lba_buildCommand, length_map, length_range,
    if_true, zip_map']
  rw [slice_iff hpos]
  constructor
  · rintro ⟨hlba, hbytes⟩
    have hfirst := hbytes 0 (by omega)
    omega
  · rintro ⟨heven, hlba⟩
    refine ⟨by omega, fun i _ => ?_⟩
    omega

theorem ahci_success
    (h : ((StorageDriver.ahci hba drive).rw op buf lba count).2 = some (count.toNat : Int)) :
    ∃ port, ((StorageDriver.ahci hba drive).rw op buf lba count).1
      = collect ((pieces 65536 count.toNat).map fun piece =>
          (Ahci.command port op lba.toNat buf.toNat piece).moves drive) := by
  simp only [StorageDriver.rw, Ahci.ahciDrvRw] at h ⊢
  cases hport : hba.port with
  | none =>
    rw [hport] at h
    have hneg : (-1 : Int) = count.toNat := Option.some.inj h
    omega
  | some port =>
    rw [hport] at h
    have hok := drvResult_ok (Option.some.inj h)
    rw [Ahci.ahciRw] at hok
    cases hinit : hba.initialized with
    | false =>
      rw [hinit] at hok
      cases hok
    | true =>
      cases hpresent : port.present with
      | false =>
        rw [hinit, Ahci.ahciAtaDma, hpresent] at hok
        cases hok
      | true =>
        rw [hinit, Bool.not_true, if_neg Bool.false_ne_true, Ahci.ahciAtaDma_eq _ hpresent,
          Ahci.commands] at hok
        refine ⟨port, ?_⟩
        simp only [drvResult, Ahci.ahciRw, hinit, Bool.not_true, Bool.false_eq_true, if_false,
          Ahci.ahciAtaDma_eq _ hpresent, Ahci.commands]
        exact (carried_out hok).2

theorem ahci_sectors_iff
    (h : ((StorageDriver.ahci hba drive).rw op buf lba count).2 = some (count.toNat : Int)) :
    ((StorageDriver.ahci hba drive).rw op buf lba count).1 = some (sectorMoves buf lba count) ↔
      count.toNat = 0 ∨ (drive.sectorSize = 512 ∧
        ∀ k, k * 65536 < count.toNat → buf.toNat % 2 = 0 ∧ lba.toNat + k * 65536 < 2 ^ 48) := by
  obtain ⟨port, hstate⟩ := ahci_success h
  have hcap : 0 < 65536 := by decide
  rw [hstate, collect_unit_iff hcap fun piece hpiece v hv => length_ahciMoves hpiece hv]
  refine or_congr_right (and_congr_right fun hsize => ?_)
  constructor
  · intro hmoves k hk
    have hpiece := (mem_pieces hcap).mpr ⟨k, hk, rfl⟩
    exact (ahciMoves_command_iff hsize hpiece).mp (hmoves _ hpiece)
  · intro hfits piece hpiece
    rw [ahciMoves_command_iff hsize hpiece]
    obtain ⟨k, hk, rfl⟩ := (mem_pieces hcap).mp hpiece
    exact hfits k hk

end Ahci

/-! ## UFS -/

section Ufs

variable {ctrl : Ufs.UfsController} {op : Op}

theorem lba_scsi (op : Op) (curLba chunk dataPhys dataLen : Nat) :
    (Ufs.buildCommand op curLba chunk dataPhys dataLen).lba = curLba % 2 ^ 32 := by
  simp only [Ufs.ScsiCommand.lba, Ufs.buildCommand, getD_cons_succ, getD_cons_zero]
  omega

theorem blocks_scsi (op : Op) (curLba dataPhys dataLen : Nat) {chunk : Nat} (h : chunk ≤ 65535) :
    (Ufs.buildCommand op curLba chunk dataPhys dataLen).blocks = chunk := by
  simp only [Ufs.ScsiCommand.blocks, Ufs.buildCommand, getD_cons_succ, getD_cons_zero]
  omega

variable {piece : Nat × Nat} {v : List Move} {blocks : Nat}

theorem length_ufsMoves {dataBuf blockSize : Nat} {part : Ufs.Staged} {lba bufPhys : Nat}
    (hle : piece.2 ≤ 65535)
    (hv : Ufs.moves blockSize dataBuf (part, Ufs.command ctrl op lba bufPhys piece) = some v) :
    v.length = piece.2 * blockSize := by
  simp only [Ufs.moves, Ufs.command, blocks_scsi _ _ _ _ hle] at hv
  split at hv
  · next hlen =>
    rw [← Option.some.inj hv, length_zip, length_map, length_map, length_range,
      hlen.1, Nat.min_self]
  · cases hv

def ufsPieceMoves (ctrl : Ufs.UfsController) (op : Op) (lba buf : Nat) (piece : Nat × Nat) :
    Option (List Move) :=
  collect ((Ufs.pieceCommands ctrl op lba buf piece).map
    (Ufs.moves ctrl.blockSize ctrl.dataBufPhys.toNat))

theorem length_ufsPieceMoves (hle : ctrl.blockSize ≤ Ufs.maxXfer) {lba buf : Nat}
    (hv : ufsPieceMoves ctrl op lba buf piece = some v) : v.length = piece.2 * ctrl.blockSize := by
  have hcap := Ufs.blockCap_pos (Ufs.blockSize_pos ctrl) hle
  rw [ufsPieceMoves, Ufs.pieceCommands, map_map] at hv
  have hlength := length_collect (fun inner hinner w hw => length_ufsMoves ?_ hw) hv
  · rw [hlength, total_pieces hcap]
  · obtain ⟨k, hk, rfl⟩ := (mem_pieces hcap).mp hinner
    exact Nat.le_trans (Nat.min_le_right _ _) (Nat.min_le_left _ _)

theorem bytes_scsi (op : Op) (curLba chunk : Nat) {dataPhys dataLen : Nat} (hphys : dataPhys ≠ 0)
    (hlt : dataPhys < 2 ^ 64) (hpos : 0 < dataLen) (hle : dataLen ≤ Ufs.ufsPrdtMaxBytes) :
    (Ufs.buildCommand op curLba chunk dataPhys dataLen).bytes
      = (range dataLen).map fun i => dataPhys + i := by
  have hmod : dataPhys % 2 ^ 32 + 2 ^ 32 * (dataPhys / 2 ^ 32) = dataPhys := Nat.mod_add_div _ _
  have hfill : Ufs.prdtFill dataPhys Ufs.ufsMaxPrdtEntries 0 dataLen
      = [{ baseAddr := dataPhys % 2 ^ 32, baseAddrUpper := dataPhys / 2 ^ 32,
           size := dataLen - 1 }] := by
    rw [Ufs.ufsMaxPrdtEntries, Ufs.prdtFill, if_pos hpos]
    simp only [gt_iff_lt, if_neg (Nat.not_lt.mpr hle), Nat.add_zero, Nat.mod_eq_of_lt hlt,
      Nat.sub_self]
    rfl
  rw [Ufs.ScsiCommand.bytes, Ufs.buildCommand, if_pos ⟨hpos, hphys⟩, hfill,
    flatMap_singleton, Ufs.PrdtEntry.bytes, hmod, Nat.sub_add_cancel hpos]

theorem ufs_maxBlocks (hsize : ctrl.blockSize = 512) : Ufs.maxBlocks ctrl = 128 := by
  rw [Ufs.maxBlocks, hsize]
  rfl

theorem ufs_piece (h : piece ∈ pieces 128 count.toNat) : 0 < piece.2 ∧ piece.2 ≤ 128 := by
  obtain ⟨k, hk, rfl⟩ := (mem_pieces (by decide)).mp h
  constructor <;> dsimp only <;> omega

theorem ufsPieceMoves_iff (hinit : ctrl.initialized = true) (hsize : ctrl.blockSize = 512)
    (h : piece ∈ pieces 128 count.toNat) :
    ufsPieceMoves ctrl op lba.toNat buf.toNat piece = some (sectorSlice buf lba piece) ↔
      lba.toNat + piece.1 < 2 ^ 32 := by
  obtain ⟨hpos, hle⟩ := ufs_piece h
  have hphys : ctrl.dataBufPhys.toNat ≠ 0 := fun h0 =>
    ctrl.dataBuf_ne hinit (UInt64.toNat_inj.mp h0)
  have hcap : Ufs.blockCap 512 = 32768 := rfl
  have hone : pieces (Ufs.blockCap ctrl.blockSize) piece.2 = [(0, piece.2)] := by
    obtain ⟨n, hn⟩ := Nat.exists_eq_succ_of_ne_zero (Nat.pos_iff_ne_zero.mp hpos)
    rw [hsize, hcap, pieces, hn, piecesFrom, if_neg (Nat.succ_ne_zero n), ← hn,
      Nat.min_eq_left (by omega), Nat.sub_self, Nat.zero_add]
    cases n <;> rfl
  have hbytes : (Ufs.command ctrl op ((lba.toNat + piece.1) % 2 ^ 64) ctrl.dataBufPhys.toNat
      (0, piece.2)).bytes = (range (piece.2 * 512)).map fun i => ctrl.dataBufPhys.toNat + i := by
    rw [Ufs.command, Nat.zero_mul, Nat.add_zero, Nat.add_zero,
      Nat.mod_eq_of_lt ctrl.dataBufPhys.toNat_lt, hsize]
    refine bytes_scsi op _ _ hphys ctrl.dataBufPhys.toNat_lt (by omega) ?_
    simp only [Ufs.ufsPrdtMaxBytes]
    omega
  have hinside : ∀ m ∈ (range (piece.2 * 512)).map (fun i => ctrl.dataBufPhys.toNat + i),
      ctrl.dataBufPhys.toNat ≤ m ∧ m < ctrl.dataBufPhys.toNat + piece.2 * 512 := by
    intro m hm
    obtain ⟨i, hi, rfl⟩ := mem_map.mp hm
    have := mem_range.mp hi
    omega
  have hlba : (Ufs.command ctrl op ((lba.toNat + piece.1) % 2 ^ 64) ctrl.dataBufPhys.toNat
      (0, piece.2)).lba = (lba.toNat + piece.1) % 2 ^ 32 := by
    rw [Ufs.command, lba_scsi]
    omega
  have hblocks : (Ufs.command ctrl op ((lba.toNat + piece.1) % 2 ^ 64) ctrl.dataBufPhys.toNat
      (0, piece.2)).blocks = piece.2 := blocks_scsi _ _ _ _ (by omega)
  rw [ufsPieceMoves, Ufs.pieceCommands, hone, map_singleton, map_singleton, collect,
    collect, andThen_nil]
  simp only [Ufs.moves, hblocks, hbytes, hlba, hsize, Ufs.staged, length_map,
    length_range, true_and]
  rw [if_pos hinside, map_map, zip_map', slice_iff hpos]
  simp only [Function.comp_apply, Nat.add_sub_cancel_left, Nat.mod_add_mod, implies_true, and_true]
  omega

theorem ufs_success (hpos : 0 < count.toNat)
    (h : ((StorageDriver.ufs ctrl blocks).rw op buf lba count).2 = some (count.toNat : Int)) :
    ((StorageDriver.ufs ctrl blocks).rw op buf lba count).1
      = collect ((pieces (Ufs.maxBlocks ctrl) count.toNat).map
          (ufsPieceMoves ctrl op lba.toNat buf.toNat)) := by
  obtain ⟨hok, hstate⟩ := Ufs.commands_of_success _ op (some []) buf lba hpos h
  have heffect := (runUntil_carryOut (by decide) _ _ hok).2
  rw [nil_andThen, Ufs.commands, map_flatMap, collect_flatMap] at heffect
  exact hstate.trans heffect

theorem ufs_sectors_iff
    (h : ((StorageDriver.ufs ctrl blocks).rw op buf lba count).2 = some (count.toNat : Int)) :
    ((StorageDriver.ufs ctrl blocks).rw op buf lba count).1 = some (sectorMoves buf lba count) ↔
      count.toNat = 0 ∨ (ctrl.blockSize = 512 ∧
        ∀ k, k * 128 < count.toNat → lba.toNat + k * 128 < 2 ^ 32) := by
  rcases Nat.eq_zero_or_pos count.toNat with hzero | hpos
  · have hnone : ((StorageDriver.ufs ctrl blocks).rw op buf lba count).1 = some [] := by
      simp only [StorageDriver.rw, Ufs.ufsDrvRw, hzero, Ufs.drvLoop]
    rw [hnone, sectorMoves, hzero]
    simp
  · obtain ⟨hinit, hle⟩ := Ufs.ready_of_success _ op (some []) buf lba hpos h
    rw [ufs_success hpos h, collect_unit_iff (Ufs.maxBlocks_pos ctrl)
      fun piece _ v hv => length_ufsPieceMoves hle hv]
    refine or_congr_right (and_congr_right fun hsize => ?_)
    rw [ufs_maxBlocks hsize]
    have hcap : 0 < 128 := by decide
    constructor
    · intro hmoves k hk
      have hpiece := (mem_pieces hcap).mpr ⟨k, hk, rfl⟩
      exact (ufsPieceMoves_iff hinit hsize hpiece).mp (hmoves _ hpiece)
    · intro hfits piece hpiece
      rw [ufsPieceMoves_iff hinit hsize hpiece]
      obtain ⟨k, hk, rfl⟩ := (mem_pieces hcap).mp hpiece
      exact hfits k hk

end Ufs

/-! ## VirtIO -/

theorem virtioBlk_sectors_iff {dev : VirtioBlk.VirtioBlkDev} {capacity : UInt64} {op : Op}
    (h : ((StorageDriver.virtioBlk dev capacity).rw op buf lba count).2
      = some (count.toNat : Int)) :
    ((StorageDriver.virtioBlk dev capacity).rw op buf lba count).1
        = some (sectorMoves buf lba count) ↔ count.toNat < 2 ^ 23 := by
  have hok := drvResult_ok (Option.some.inj h)
  have hlen : (count * 512).toNat = count.toNat * 512 % 2 ^ 32 := rfl
  have hstate : ((StorageDriver.virtioBlk dev capacity).rw op buf lba count).1
      = (VirtioBlk.buildRequest op lba count buf).moves := by
    simp only [StorageDriver.rw, VirtioBlk.virtioBlkDrvRw, drvResult, VirtioBlk.vblkDoIo] at hok ⊢
    split at hok
    · cases hok
    · split at hok
      · cases hok
      · next hinit hwritable =>
        rw [if_neg hinit, if_neg hwritable]
        unfold carryOut at hok ⊢
        split at hok
        · next haccepted => rw [if_pos haccepted, nil_andThen]
        · cases hok
  rw [hstate, VirtioBlk.Request.moves, Option.some.injEq, sectorMoves]
  simp only [VirtioBlk.buildRequest, hlen]
  constructor
  · intro hmoves
    have hlength := congrArg length hmoves
    rw [length_map, length_map, length_range, length_range] at hlength
    omega
  · intro hlt
    rw [Nat.mod_eq_of_lt (by omega)]

/-! ## Every driver -/

def StorageDriver.InSectors (d : StorageDriver) (buf lba : UInt64) (count : UInt32) : Prop :=
  match d with
  | .nvme ctrl _ =>
    ctrl.ns1BlockSize.toNat = 512 ∧ ∀ k, k * Storage.cap ctrl < count.toNat →
      PrpFits ((buf.toNat + k * Storage.cap ctrl * 512) % 2 ^ 64)
        (min (count.toNat - k * Storage.cap ctrl) (Storage.cap ctrl) * 512)
  | .ufs ctrl _ =>
    ctrl.blockSize = 512 ∧ ∀ k, k * 128 < count.toNat → lba.toNat + k * 128 < 2 ^ 32
  | .ahci _ drive =>
    drive.sectorSize = 512 ∧
      ∀ k, k * 65536 < count.toNat → buf.toNat % 2 = 0 ∧ lba.toNat + k * 65536 < 2 ^ 48
  | .virtioBlk _ _ => count.toNat < 2 ^ 23

/-- A call that succeeds has moved `count * 512` bytes from `lba * 512` on exactly if nothing was
asked for or the driver's condition holds. -/
theorem rw_sectors_iff (d : StorageDriver) (op : Op) (buf lba : UInt64) (count : UInt32)
    (h : (d.rw op buf lba count).2 = some (count.toNat : Int)) :
    (d.rw op buf lba count).1 = some (sectorMoves buf lba count) ↔
      count.toNat = 0 ∨ d.InSectors buf lba count := by
  cases d with
  | nvme ctrl nsze => exact nvme_sectors_iff h
  | ufs ctrl blocks => exact ufs_sectors_iff h
  | ahci hba drive => exact ahci_sectors_iff h
  | virtioBlk dev capacity =>
    rw [virtioBlk_sectors_iff h, StorageDriver.InSectors]
    omega

theorem rw_sectors_one :
    ((StorageDriver.nvme sectorController 8).rw .read 0x1000 3 1).1
      = some (sectorMoves 0x1000 3 1) := by
  refine (rw_sectors_iff (.nvme sectorController 8) .read 0x1000 3 1 (by decide)).mpr (.inr ?_)
  refine ⟨rfl, fun k hk => ?_⟩
  have hzero : k = 0 := by
    have hk : k * 16 < 1 := hk
    omega
  rw [hzero]
  decide

def pageController : NvmeController where
  maxTransfer := 1048576
  ns1BlockSize := 4096
  initialized := true
  blockSize_pos _ := by decide

theorem nvmeRead_moves_block :
    ((StorageDriver.nvme pageController 8).rw .read 0x1000 3 1).2 = some 1 ∧
    ((StorageDriver.nvme pageController 8).rw .read 0x1000 3 1).1
      ≠ some (sectorMoves 0x1000 3 1) := by
  refine ⟨by decide, fun h => ?_⟩
  rcases (nvme_sectors_iff (by decide)).mp h with hzero | ⟨hsize, -⟩
  · exact absurd hzero (by decide)
  · exact absurd hsize (by decide)

end AlJefra.Storage
