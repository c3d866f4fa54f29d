/-
Where a write lands and what a read returns, chunk by chunk (`transfers`). An accepted write stays
in its file and reads back unless an address wraps or it grows over the directory (`WriteFits`).
-/
import Mathlib.Data.List.Range
import AlJefra.Kernel.FsAllocTheorems

namespace AlJefra.Kernel.Fs

open AlJefra.Lib List UInt64

/-! ## Chunks -/

def chunkBytes (off count : UInt64) : UInt64 :=
  if offsetInSector off = 0 ∧ fsSectorSize ≤ count then
    (wholeSectors count).toUInt64 * fsSectorSize
  else (partialBytes off count).toUInt64

def chunkSectors (off count : UInt64) : UInt32 :=
  if offsetInSector off = 0 ∧ fsSectorSize ≤ count then wholeSectors count else 1

theorem byteToSector_toNat (off : UInt64) : (byteToSector off).toNat = off.toNat / 512 := by
  simp [byteToSector, fsSectorSize, UInt64.toNat_div]

theorem offsetInSector_toNat (off : UInt64) : (offsetInSector off).toNat = off.toNat % 512 := by
  simp only [offsetInSector, fsSectorSize, toNat_toUInt32, UInt64.toNat_mod]
  rw [show (512 : UInt64).toNat = 512 from rfl]
  omega

variable {count off x : UInt64} {i lba o : Nat}

theorem offsetInSector_eq_zero : offsetInSector off = 0 ↔ off.toNat % 512 = 0 := by
  rw [← offsetInSector_toNat, ← UInt32.toNat_inj]
  rfl

theorem fsSectorSize_le : fsSectorSize ≤ count ↔ 512 ≤ count.toNat := le_iff_toNat_le

theorem wholeSectors_toNat (count : UInt64) :
    (wholeSectors count).toNat = min 256 (count.toNat / 512 % 2 ^ 32) := by
  have hcast : (count / fsSectorSize).toUInt32.toNat = count.toNat / 512 % 2 ^ 32 := by
    simp [fsSectorSize, UInt64.toNat_div]
  have h256 : (256 : UInt32).toNat = 256 := rfl
  unfold wholeSectors
  dsimp only
  split
  · rename_i h
    rw [UInt32.lt_iff_toNat_lt, hcast] at h
    omega
  · rename_i h
    rw [UInt32.lt_iff_toNat_lt, hcast] at h
    omega

theorem partialBytes_toNat (off count : UInt64) :
    (partialBytes off count).toNat = min (512 - off.toNat % 512) count.toNat := by
  have havail : (fsSectorSize.toUInt32 - offsetInSector off).toNat = 512 - off.toNat % 512 := by
    have h512 : fsSectorSize.toUInt32.toNat = 512 := rfl
    rw [UInt32.toNat_sub_of_le, h512, offsetInSector_toNat]
    rw [UInt32.le_iff_toNat_le, h512, offsetInSector_toNat]
    omega
  unfold partialBytes
  dsimp only
  split
  · rename_i h
    rw [lt_iff_toNat_lt, UInt32.toNat_toUInt64, havail] at h
    rw [toNat_toUInt32]
    omega
  · rename_i h
    rw [lt_iff_toNat_lt, UInt32.toNat_toUInt64, havail] at h
    omega

theorem chunk_whole (h : offsetInSector off = 0 ∧ fsSectorSize ≤ count) :
    off.toNat % 512 = 0 ∧ chunkSectors off count = wholeSectors count ∧
      chunkBytes off count = (wholeSectors count).toUInt64 * fsSectorSize ∧
      (chunkBytes off count).toNat = 512 * (wholeSectors count).toNat ∧
      (chunkBytes off count).toNat ≤ count.toNat := by
  have hsec := wholeSectors_toNat count
  have hbytes : chunkBytes off count = (wholeSectors count).toUInt64 * fsSectorSize := by
    rw [chunkBytes, if_pos h]
  have hnat : (chunkBytes off count).toNat = 512 * (wholeSectors count).toNat := by
    rw [hbytes, UInt64.toNat_mul, UInt32.toNat_toUInt64, show fsSectorSize.toNat = 512 from rfl]
    omega
  exact ⟨offsetInSector_eq_zero.mp h.1, by rw [chunkSectors, if_pos h], hbytes, hnat, by omega⟩

theorem chunk_inner (h : ¬ (offsetInSector off = 0 ∧ fsSectorSize ≤ count)) (hc : count ≠ 0) :
    chunkSectors off count = 1 ∧ chunkBytes off count = (partialBytes off count).toUInt64 ∧
      (chunkBytes off count).toNat = min (512 - off.toNat % 512) count.toNat ∧
      0 < (chunkBytes off count).toNat := by
  have hbytes : chunkBytes off count = (partialBytes off count).toUInt64 := by
    rw [chunkBytes, if_neg h]
  have hnat : (chunkBytes off count).toNat = min (512 - off.toNat % 512) count.toNat := by
    rw [hbytes, UInt32.toNat_toUInt64, partialBytes_toNat]
  have hpos : count.toNat ≠ 0 := fun h0 => hc (UInt64.toNat_inj.mp h0)
  exact ⟨by rw [chunkSectors, if_neg h], hbytes, hnat, by omega⟩

theorem chunkBytes_le (off : UInt64) (hc : count ≠ 0) :
    (chunkBytes off count).toNat ≤ count.toNat := by
  by_cases h : offsetInSector off = 0 ∧ fsSectorSize ≤ count
  · exact (chunk_whole h).2.2.2.2
  · rw [(chunk_inner h hc).2.2.1]
    exact min_le_right _ _

theorem chunk_inside (off : UInt64) (hc : count ≠ 0) : off.toNat + (chunkBytes off count).toNat
      ≤ 512 * (off.toNat / 512 + (chunkSectors off count).toNat) := by
  by_cases h : offsetInSector off = 0 ∧ fsSectorSize ≤ count
  · obtain ⟨halign, hsec, -, hnat, -⟩ := chunk_whole h
    rw [hsec, hnat]
    omega
  · obtain ⟨hsec, -, hnat, -⟩ := chunk_inner h hc
    rw [hsec, hnat, UInt32.toNat_one]
    omega

def transfers (lba sectors : Nat) : Nat → UInt64 → UInt64 → Prop
  | 0, _, count => count = 0
  | fuel + 1, off, count =>
    count = 0 ∨
      (0 < (chunkSectors off count).toNat ∧
        lba + off.toNat / 512 + (chunkSectors off count).toNat ≤ sectors ∧
        transfers lba sectors fuel (off + chunkBytes off count) (count - chunkBytes off count))

instance decidableTransfers (lba sectors : Nat) :
    ∀ fuel off count, Decidable (transfers lba sectors fuel off count)
  | 0, _, count => inferInstanceAs (Decidable (count = 0))
  | fuel + 1, off, count =>
    have := decidableTransfers lba sectors fuel (off + chunkBytes off count)
      (count - chunkBytes off count)
    inferInstanceAs (Decidable (_ ∨ _))

/-! ## Bytes of the partition -/

def rangeAddr (lba o i : Nat) : Nat := 512 * lba + (o + i) % 2 ^ 64

theorem rangeAddr_add (lba o k j : Nat) :
    rangeAddr lba ((o + k) % 2 ^ 64) j = rangeAddr lba o (k + j) := by
  unfold rangeAddr
  omega

theorem rangeAddr_of_lt (h : o + i < 2 ^ 64) : rangeAddr lba o i = 512 * lba + o + i := by
  unfold rangeAddr
  omega

structure Laid (lba : Nat) (d d' : SectorDisk) (o : Nat) (src : List UInt8) : Prop where
  sectors : d'.sectors = d.sectors
  data : ∀ i < src.length, d'.byte (rangeAddr lba o i) = src.getD i 0
  frame : ∀ a, (∀ i < src.length, a ≠ rangeAddr lba o i) → d'.byte a = d.byte a

theorem Laid.nil (lba : Nat) (d : SectorDisk) (o : Nat) : Laid lba d d o [] :=
  ⟨rfl, by simp, fun _ _ => rfl⟩

theorem Laid.append {k : Nat} {d d₁ d₂ : SectorDisk} {src : List UInt8} (hk : k ≤ src.length)
    (hlen : src.length < 2 ^ 64) (h₁ : Laid lba d d₁ o (src.take k))
    (h₂ : Laid lba d₁ d₂ ((o + k) % 2 ^ 64) (src.drop k)) : Laid lba d d₂ o src where
  sectors := h₂.sectors.trans h₁.sectors
  data := by
    intro i hi
    by_cases hik : i < k
    · -- the second range does not reach back into the first
      have hframe : ∀ j < (src.drop k).length,
          rangeAddr lba o i ≠ rangeAddr lba ((o + k) % 2 ^ 64) j := by
        intro j hj heq
        rw [length_drop] at hj
        rw [rangeAddr_add] at heq
        unfold rangeAddr at heq
        omega
      rw [h₂.frame _ hframe, h₁.data i (by rw [length_take]; omega)]
      simp [getD_eq_getElem?_getD, hik]
    · have hdata := h₂.data (i - k) (by rw [length_drop]; omega)
      rw [rangeAddr_add, show k + (i - k) = i by omega] at hdata
      rw [hdata]
      simp only [getD_eq_getElem?_getD, getElem?_drop]
      rw [show k + (i - k) = i by omega]
  frame := by
    intro a ha
    rw [h₂.frame a, h₁.frame a]
    · intro i hi
      rw [length_take] at hi
      exact ha i (by omega)
    · intro j hj
      rw [length_drop] at hj
      rw [rangeAddr_add]
      exact ha (k + j) (by omega)

def gather (lba : Nat) (d : SectorDisk) (o n : Nat) : List UInt8 :=
  (List.range n).map (fun i => d.byte (rangeAddr lba o i))

theorem gather_append (lba : Nat) (d : SectorDisk) (o k m : Nat) :
    gather lba d o (k + m) = gather lba d o k ++ gather lba d ((o + k) % 2 ^ 64) m := by
  unfold gather
  rw [range_add, map_append, map_map]
  congr 1
  refine map_congr_left (fun j _ => ?_)
  simp only [Function.comp_apply, rangeAddr_add]

theorem slice_eq_gather (lba : Nat) {n : Nat} (d : SectorDisk) (h : o + n ≤ 2 ^ 64) :
    d.slice (512 * lba + o) n = gather lba d o n := by
  refine map_congr_left (fun i hi => ?_)
  rw [rangeAddr_of_lt (by have := mem_range.mp hi; omega)]

theorem slice_drop_take (d : SectorDisk) (a n i k : Nat) (h : i + k ≤ n) :
    ((d.slice a n).drop i).take k = d.slice (a + i) k := by
  unfold SectorDisk.slice
  apply ext_getElem
  · simp only [length_map, length_take, length_drop, length_range]
    omega
  · simp [add_assoc]

/-! ## Sector transfers on a disk -/

def FsState.withDev (s : FsState SectorDisk) (d : SectorDisk) : FsState SectorDisk :=
  { s with dev := d }

section Disk

variable {s : FsState SectorDisk} {count lba off : UInt64} {n : UInt32} {src : List UInt8}

theorem toNat_lba (hlba : s.partitionLba.toNat + lba.toNat < 2 ^ 64) :
    (s.partitionLba + lba).toNat = s.partitionLba.toNat + lba.toNat := by
  rw [UInt64.toNat_add, Nat.mod_eq_of_lt hlba]

theorem fsReadSectors_disk (hlba : s.partitionLba.toNat + lba.toNat < 2 ^ 64) :
    fsReadSectors sectorDriver s lba n
      = (if 0 < n.toNat ∧ s.partitionLba.toNat + lba.toNat + n.toNat ≤ s.dev.sectors then
          some (s.dev.slice (512 * (s.partitionLba.toNat + lba.toNat)) (512 * n.toNat))
        else none, s) := by
  simp only [fsReadSectors, sectorDriver, SectorDisk.read, toNat_lba hlba]
  by_cases hfit : s.partitionLba.toNat + lba.toNat + n.toNat ≤ s.dev.sectors
  · by_cases hn : 0 < n.toNat <;> simp [hfit, hn]
  · simp [hfit]

theorem fsWriteSectors_disk (buf : List UInt8) (hlba : s.partitionLba.toNat + lba.toNat < 2 ^ 64)
    (hn : 0 < n.toNat) (hfit : s.partitionLba.toNat + lba.toNat + n.toNat ≤ s.dev.sectors) :
    fsWriteSectors sectorDriver s buf lba n
      = (0, s.withDev (s.dev.put (512 * (s.partitionLba.toNat + lba.toNat))
          (512 * n.toNat) buf)) := by
  simp only [fsWriteSectors, sectorDriver, SectorDisk.write, toNat_lba hlba, if_pos hfit]
  rw [if_pos (by exact_mod_cast hn)]
  rfl

theorem fsWriteSectors_disk_fail (buf : List UInt8)
    (hlba : s.partitionLba.toNat + lba.toNat < 2 ^ 64)
    (h : ¬ (0 < n.toNat ∧ s.partitionLba.toNat + lba.toNat + n.toNat ≤ s.dev.sectors)) :
    (fsWriteSectors sectorDriver s buf lba n).1 = -1 := by
  simp only [fsWriteSectors, sectorDriver, SectorDisk.write, toNat_lba hlba]
  by_cases hfit : s.partitionLba.toNat + lba.toNat + n.toNat ≤ s.dev.sectors
  · have hn : n.toNat = 0 := by
      by_contra h0
      exact h ⟨Nat.pos_of_ne_zero h0, hfit⟩
    simp [hn]
    split <;> simp
  · simp [hfit]

/-! ## One chunk -/

theorem laid_put (lba o : Nat) (d : SectorDisk) (src : List UInt8) (h : o + src.length ≤ 2 ^ 64) :
    Laid lba d (d.put (512 * lba + o) src.length src) o src where
  sectors := rfl
  data := by
    intro i hi
    rw [rangeAddr_of_lt (by omega)]
    simp only [SectorDisk.put]
    rw [if_pos (by omega), show 512 * lba + o + i - (512 * lba + o) = i by omega]
  frame := by
    intro a ha
    simp only [SectorDisk.put]
    rw [if_neg]
    intro hin
    exact ha (a - (512 * lba + o)) (by omega) (by rw [rangeAddr_of_lt (by omega)]; omega)

theorem getD_overwrite {buf : List UInt8} {off : Nat} (h : off + src.length ≤ buf.length) (j : Nat)
    : (overwrite buf off src).getD j 0
      = if off ≤ j ∧ j < off + src.length then src.getD (j - off) 0 else buf.getD j 0 := by
  have htake : (buf.take off).length = off := by rw [length_take]; omega
  unfold overwrite
  simp only [getD_eq_getElem?_getD, append_assoc]
  by_cases h1 : j < off
  · rw [if_neg (by omega), getElem?_append_left (by omega), getElem?_take_of_lt h1]
  · rw [getElem?_append_right (by omega), htake]
    by_cases h2 : j < off + src.length
    · rw [if_pos (by omega), getElem?_append_left (by omega)]
    · rw [if_neg (by omega), getElem?_append_right (by omega), getElem?_drop]
      congr 2
      omega

theorem getD_slice (d : SectorDisk) {a n j : Nat} (h : j < n) :
    (d.slice a n).getD j 0 = d.byte (a + j) := by
  simp [SectorDisk.slice, getD_eq_getElem?_getD, h]

theorem laid_put_overwrite (lba o : Nat) (d : SectorDisk) (src : List UInt8)
    (hsec : o % 512 + src.length ≤ 512) (h : o + src.length ≤ 2 ^ 64) :
    Laid lba d (d.put (512 * (lba + o / 512)) 512
      (overwrite (d.slice (512 * (lba + o / 512)) 512) (o % 512) src)) o src := by
  have hlen : (d.slice (512 * (lba + o / 512)) 512).length = 512 := by simp [SectorDisk.slice]
  refine ⟨rfl, ?_, ?_⟩
  · intro i hi
    rw [rangeAddr_of_lt (by omega)]
    simp only [SectorDisk.put]
    rw [if_pos (by omega), getD_overwrite (by omega), if_pos (by omega),
      show 512 * lba + o + i - 512 * (lba + o / 512) - o % 512 = i by omega]
  · intro a ha
    simp only [SectorDisk.put]
    split
    · rw [getD_overwrite (by omega), if_neg, getD_slice d (by omega),
        show 512 * (lba + o / 512) + (a - 512 * (lba + o / 512)) = a by omega]
      · intro hmid
        exact ha (a - (512 * lba + o)) (by omega) (by rw [rangeAddr_of_lt (by omega)]; omega)
    · rfl

theorem chunk_on_disk {lba sectors : Nat} (hc : count ≠ 0) (hle : sectors ≤ 2 ^ 55)
    (hfit : lba + off.toNat / 512 + (chunkSectors off count).toNat ≤ sectors) :
    off.toNat + (chunkBytes off count).toNat ≤ 2 ^ 64 ∧ (off + chunkBytes off count).toNat
        = (off.toNat + (chunkBytes off count).toNat) % 2 ^ 64 ∧
      (count - chunkBytes off count).toNat = count.toNat - (chunkBytes off count).toNat := by
  have hin := chunk_inside off hc
  have hsub := chunkBytes_le off hc
  refine ⟨by omega, UInt64.toNat_add _ _, ?_⟩
  exact UInt64.toNat_sub_of_le _ _ (le_iff_toNat_le.mpr hsub)

/-! ## The loops -/

theorem fsWriteBytesLoop_chunk (fuel : Nat) (hp : s.partitionLba.toNat ≤ 2 ^ 55)
    (hsrc : src.length = count.toNat) (hc : count ≠ 0) (hpos : 0 < (chunkSectors off count).toNat)
    (hfit : s.partitionLba.toNat + off.toNat / 512 + (chunkSectors off count).toNat ≤
      s.dev.sectors) :
    ∃ d, fsWriteBytesLoop sectorDriver (fuel + 1) s src off count
        = fsWriteBytesLoop sectorDriver fuel (s.withDev d)
            (src.drop (chunkBytes off count).toNat) (off + chunkBytes off count)
            (count - chunkBytes off count) ∧
      Laid s.partitionLba.toNat s.dev d off.toNat (src.take (chunkBytes off count).toNat) := by
  obtain ⟨hwrap, -, -⟩ := chunk_on_disk hc s.dev.sectors_le hfit
  have hle := chunkBytes_le off hc
  have hsector := byteToSector_toNat off
  have hlba : s.partitionLba.toNat + (byteToSector off).toNat < 2 ^ 64 := by
    omega
  have hlen : (src.take (chunkBytes off count).toNat).length = (chunkBytes off count).toNat := by
    rw [length_take]
    omega
  rw [fsWriteBytesLoop, if_neg hc]
  by_cases hw : offsetInSector off = 0 ∧ fsSectorSize ≤ count
  · -- whole sectors
    obtain ⟨halign, hsec, hbytes, hnat, -⟩ := chunk_whole hw
    rw [hsec] at hpos hfit
    have hput := laid_put s.partitionLba.toNat off.toNat s.dev
      (src.take (chunkBytes off count).toNat) (by rw [hlen]; exact hwrap)
    rw [hlen, hnat, show 512 * s.partitionLba.toNat + off.toNat
      = 512 * (s.partitionLba.toNat + (byteToSector off).toNat) by omega] at hput
    refine ⟨_, ?_, by rw [hnat]; exact hput⟩
    simp only [hw, and_self, if_true, ← hbytes, hnat]
    rw [fsWriteSectors_disk _ hlba hpos (by rw [hsector]; exact hfit)]
    rfl
  · -- part of one sector
    obtain ⟨hsec, hbytes, hnat, -⟩ := chunk_inner hw hc
    have hone : (1 : UInt32).toNat = 1 := rfl
    rw [hsec, hone] at hfit
    have hpart : (partialBytes off count).toNat = (chunkBytes off count).toNat := by
      rw [hbytes, UInt32.toNat_toUInt64]
    have hput := laid_put_overwrite s.partitionLba.toNat off.toNat s.dev
      (src.take (chunkBytes off count).toNat) (by rw [hlen]; omega) (by rw [hlen]; exact hwrap)
    refine ⟨_, ?_, hput⟩
    simp only [hw, if_false]
    rw [fsReadSectors_disk hlba, if_pos (by rw [hone, hsector]; omega)]
    simp only [← hbytes, hpart, offsetInSector_toNat]
    rw [fsWriteSectors_disk _ hlba (by rw [hone]; omega) (by rw [hone, hsector]; exact hfit),
      hsector]
    rfl

theorem fsWriteBytesLoop_chunk_fail (fuel : Nat) (hp : s.partitionLba.toNat ≤ 2 ^ 55)
    (hc : count ≠ 0)
    (h : ¬ (0 < (chunkSectors off count).toNat ∧
      s.partitionLba.toNat + off.toNat / 512 + (chunkSectors off count).toNat ≤ s.dev.sectors))
    : (fsWriteBytesLoop sectorDriver (fuel + 1) s src off count).1 = -1 := by
  have hsector := byteToSector_toNat off
  have hlba : s.partitionLba.toNat + (byteToSector off).toNat < 2 ^ 64 := by
    have := off.toNat_lt
    omega
  rw [fsWriteBytesLoop, if_neg hc]
  by_cases hw : offsetInSector off = 0 ∧ fsSectorSize ≤ count
  · rw [(chunk_whole hw).2.1] at h
    simp only [hw, and_self, if_true]
    rw [fsWriteSectors_disk_fail _ hlba (by rw [hsector]; exact h)]
    rfl
  · rw [(chunk_inner hw hc).1] at h
    simp only [hw, if_false]
    rw [fsReadSectors_disk hlba, if_neg (by rw [hsector]; exact h)]

theorem fsWriteBytesLoop_spec : ∀ (fuel : Nat) (s : FsState SectorDisk) (src : List UInt8)
    (off count : UInt64), s.partitionLba.toNat ≤ 2 ^ 55 → src.length = count.toNat →
    (transfers s.partitionLba.toNat s.dev.sectors fuel off count →
      ∃ d, fsWriteBytesLoop sectorDriver fuel s src off count = (0, s.withDev d) ∧
        Laid s.partitionLba.toNat s.dev d off.toNat src) ∧
    (¬ transfers s.partitionLba.toNat s.dev.sectors fuel off count →
      (fsWriteBytesLoop sectorDriver fuel s src off count).1 = -1) := by
  intro fuel
  induction fuel with
  | zero =>
    intro s src off count hp hsrc
    unfold fsWriteBytesLoop transfers
    by_cases hc : count = 0
    · subst hc
      obtain rfl : src = [] := length_eq_zero_iff.mp hsrc
      exact ⟨fun _ => ⟨s.dev, by simp [FsState.withDev], Laid.nil _ _ _⟩, fun h => absurd rfl h⟩
    · simp [hc]
  | succ fuel ih =>
    intro s src off count hp hsrc
    by_cases hc : count = 0
    · subst hc
      obtain rfl : src = [] := length_eq_zero_iff.mp hsrc
      exact ⟨fun _ => ⟨s.dev, by simp [fsWriteBytesLoop, FsState.withDev], Laid.nil _ _ _⟩,
        fun h => absurd (Or.inl rfl) h⟩
    · by_cases hchunk : 0 < (chunkSectors off count).toNat ∧
          s.partitionLba.toNat + off.toNat / 512 + (chunkSectors off count).toNat ≤ s.dev.sectors
      · obtain ⟨hpos, hfit⟩ := hchunk
        obtain ⟨-, hoff', hcount'⟩ := chunk_on_disk hc s.dev.sectors_le hfit
        have hle := chunkBytes_le off hc
        obtain ⟨d₁, hloop, hlaid⟩ := fsWriteBytesLoop_chunk fuel hp hsrc hc hpos hfit
        have hsectors : d₁.sectors = s.dev.sectors := hlaid.sectors
        obtain ⟨hok, hfail⟩ := ih (s.withDev d₁) (src.drop (chunkBytes off count).toNat)
          (off + chunkBytes off count) (count - chunkBytes off count) hp
          (by rw [length_drop, hcount', hsrc])
        rw [hloop]
        refine ⟨fun h => ?_, fun h => ?_⟩
        · obtain ⟨-, -, hrest⟩ := h.resolve_left hc
          obtain ⟨d, heq, hd⟩ := hok (hsectors ▸ hrest)
          exact ⟨d, heq, hlaid.append (by omega) (by rw [hsrc]; exact count.toNat_lt) hd⟩
        · refine hfail (fun hrest => h (Or.inr ⟨hpos, hfit, ?_⟩))
          exact hsectors ▸ hrest
      · exact ⟨fun h => absurd ⟨(h.resolve_left hc).1, (h.resolve_left hc).2.1⟩ hchunk,
          fun _ => fsWriteBytesLoop_chunk_fail fuel hp hc hchunk⟩

theorem fsReadBytesLoop_chunk (fuel : Nat) (acc : List UInt8) (hp : s.partitionLba.toNat ≤ 2 ^ 55)
    (hc : count ≠ 0) (hpos : 0 < (chunkSectors off count).toNat)
    (hfit : s.partitionLba.toNat + off.toNat / 512 + (chunkSectors off count).toNat ≤
      s.dev.sectors) :
    fsReadBytesLoop sectorDriver (fuel + 1) s off count acc
      = fsReadBytesLoop sectorDriver fuel s (off + chunkBytes off count)
          (count - chunkBytes off count)
          (acc ++ gather s.partitionLba.toNat s.dev off.toNat (chunkBytes off count).toNat) := by
  obtain ⟨hwrap, -, -⟩ := chunk_on_disk hc s.dev.sectors_le hfit
  have hsector := byteToSector_toNat off
  have hlba : s.partitionLba.toNat + (byteToSector off).toNat < 2 ^ 64 := by
    omega
  have hslice := slice_eq_gather s.partitionLba.toNat s.dev hwrap
  rw [fsReadBytesLoop, if_neg hc]
  by_cases hw : offsetInSector off = 0 ∧ fsSectorSize ≤ count
  · -- whole sectors
    obtain ⟨halign, hsec, hbytes, hnat, -⟩ := chunk_whole hw
    rw [hsec] at hpos hfit
    rw [show 512 * s.partitionLba.toNat + off.toNat
      = 512 * (s.partitionLba.toNat + off.toNat / 512) by omega, hnat] at hslice
    simp only [hw, and_self, if_true, ← hbytes]
    rw [fsReadSectors_disk hlba, if_pos ⟨hpos, by rw [hsector]; exact hfit⟩]
    simp only [hsector, hnat, hslice]
    rw [take_of_length_le (by simp [gather])]
  · -- part of one sector
    obtain ⟨hsec, hbytes, hnat, -⟩ := chunk_inner hw hc
    have hpart : (partialBytes off count).toNat = (chunkBytes off count).toNat := by
      rw [hbytes, UInt32.toNat_toUInt64]
    have hone : (1 : UInt32).toNat = 1 := rfl
    rw [hsec, hone] at hfit
    simp only [hw, if_false, ← hbytes, hpart, offsetInSector_toNat]
    rw [fsReadSectors_disk hlba, if_pos ⟨by omega, by rw [hsector, hone]; exact hfit⟩]
    simp only [hone, hsector]
    rw [slice_drop_take _ _ _ _ _ (by omega),
      show 512 * (s.partitionLba.toNat + off.toNat / 512) + off.toNat % 512
        = 512 * s.partitionLba.toNat + off.toNat by omega, hslice]

theorem fsReadBytesLoop_spec : ∀ (fuel : Nat) (s : FsState SectorDisk) (off count : UInt64)
    (acc : List UInt8), s.partitionLba.toNat ≤ 2 ^ 55 →
    transfers s.partitionLba.toNat s.dev.sectors fuel off count →
    fsReadBytesLoop sectorDriver fuel s off count acc
      = (some (acc ++ gather s.partitionLba.toNat s.dev off.toNat count.toNat), s) := by
  intro fuel
  induction fuel with
  | zero =>
    intro s off count acc hp h
    subst h
    simp [fsReadBytesLoop, gather]
  | succ fuel ih =>
    intro s off count acc hp h
    by_cases hc : count = 0
    · subst hc
      simp [fsReadBytesLoop, gather]
    · obtain ⟨hpos, hfit, hrest⟩ := h.resolve_left hc
      obtain ⟨-, hoff', hcount'⟩ := chunk_on_disk hc s.dev.sectors_le hfit
      rw [fsReadBytesLoop_chunk fuel acc hp hc hpos hfit, ih _ _ _ _ hp hrest,
        hoff', hcount', append_assoc, ← gather_append,
        Nat.add_sub_cancel' (chunkBytes_le off hc)]

theorem transfers_onDisk_iff {lba sectors : Nat} (hsec : sectors ≤ 2 ^ 55) :
    ∀ (fuel : Nat) (off count : UInt64), count.toNat ≤ fuel →
      512 * lba + off.toNat + count.toNat ≤ 512 * sectors →
      (transfers lba sectors fuel off count ↔
        count.toNat < 2 ^ 41 + (512 - off.toNat % 512) % 512) := by
  intro fuel
  induction fuel with
  | zero =>
    intro off count hfuel _
    exact iff_of_true (UInt64.toNat_inj.mp (Nat.le_zero.mp hfuel)) (by omega)
  | succ fuel ih =>
    intro off count hfuel hon
    by_cases hc : count = 0
    · exact iff_of_true (.inl hc) (by simp only [hc, UInt64.toNat_zero]; omega)
    · have hpos : count.toNat ≠ 0 := fun h0 => hc (UInt64.toNat_inj.mp h0)
      have hone : (1 : UInt32).toNat = 1 := rfl
      simp only [transfers, hc, false_or]
      by_cases hw : offsetInSector off = 0 ∧ fsSectorSize ≤ count
      · -- whole sectors: their number modulo 2^32 goes down to 0
        obtain ⟨halign, hsecs, -, hnat, hle⟩ := chunk_whole hw
        have hws := wholeSectors_toNat count
        have h512 := fsSectorSize_le.mp hw.2
        have hfit : lba + off.toNat / 512 + (chunkSectors off count).toNat ≤ sectors := by
          rw [hsecs]
          omega
        obtain ⟨-, hoff', hcount'⟩ := chunk_on_disk hc hsec hfit
        by_cases hzero : (wholeSectors count).toNat = 0
        · simp only [hsecs, hzero, lt_irrefl, false_and, false_iff]
          omega
        · rw [ih _ _ (by omega) (by omega), hoff', hcount', hsecs]
          rw [hsecs] at hfit
          simp only [hfit, Nat.pos_of_ne_zero hzero, true_and]
          omega
      · -- part of one sector: the next chunk, if any, is aligned
        obtain ⟨hsecs, -, hnat, hbytes⟩ := chunk_inner hw hc
        have hfit : lba + off.toNat / 512 + (chunkSectors off count).toNat ≤ sectors := by
          rw [hsecs, hone]
          omega
        obtain ⟨-, hoff', hcount'⟩ := chunk_on_disk hc hsec hfit
        rw [offsetInSector_eq_zero, fsSectorSize_le] at hw
        rw [ih _ _ (by omega) (by omega), hoff', hcount']
        simp only [hsecs, hone, one_pos, true_and]
        omega

theorem transfers_onDisk {lba sectors : Nat} (hsec : sectors ≤ 2 ^ 55) (fuel : Nat)
    (off count : UInt64) (hfuel : count.toNat ≤ fuel) (hlt : count.toNat < 2 ^ 41)
    (hon : 512 * lba + off.toNat + count.toNat ≤ 512 * sectors) :
    transfers lba sectors fuel off count :=
  (transfers_onDisk_iff hsec fuel off count hfuel hon).mpr (by omega)

def BytesExact (s : FsState SectorDisk) (src : List UInt8) (off count : UInt64) : Prop :=
  let start := 512 * s.partitionLba.toNat + off.toNat
  fsReadBytes sectorDriver s off count = (some (s.dev.slice start count.toNat), s) ∧
  ∃ d, fsWriteBytes sectorDriver s src off count = (0, s.withDev d) ∧
    d.sectors = s.dev.sectors ∧
    ∀ a, d.byte a = if start ≤ a ∧ a < start + count.toNat then src.getD (a - start) 0
      else s.dev.byte a

theorem bytesExact_iff_transfers (hsrc : src.length = count.toNat)
    (hsum : off.toNat + count.toNat < 2 ^ 64)
    (hon : 512 * s.partitionLba.toNat + off.toNat + count.toNat ≤ 512 * s.dev.sectors) :
    BytesExact s src off count ↔
      transfers s.partitionLba.toNat s.dev.sectors count.toNat off count := by
  have hp : s.partitionLba.toNat ≤ 2 ^ 55 := by
    have := s.dev.sectors_le
    omega
  obtain ⟨hok, hfail⟩ := fsWriteBytesLoop_spec count.toNat s src off count hp hsrc
  constructor
  · rintro ⟨-, d, hwrite, -⟩
    by_contra hnot
    have hret := hfail hnot
    rw [← fsWriteBytes, hwrite] at hret
    cases hret
  · intro h
    obtain ⟨d, hwrite, hlaid⟩ := hok h
    refine ⟨?_, d, hwrite, hlaid.sectors, fun a => ?_⟩
    · rw [fsReadBytes, fsReadBytesLoop_spec _ _ _ _ _ hp h, slice_eq_gather _ _ (by omega)]
      rfl
    · split
      · rename_i ha
        have hdata := hlaid.data (a - (512 * s.partitionLba.toNat + off.toNat)) (by omega)
        rwa [rangeAddr_of_lt (by omega), Nat.add_sub_cancel' ha.1] at hdata
      · rename_i ha
        refine hlaid.frame a fun i hi => ?_
        rw [rangeAddr_of_lt (by omega)]
        omega

/-- On a range on the disk the two functions are exact if and only if fewer than 2^32 whole sectors
stand behind the first, partial one. -/
theorem bytesExact_iff (s : FsState SectorDisk) (src : List UInt8) (off count : UInt64)
    (hsrc : src.length = count.toNat) (hsum : off.toNat + count.toNat < 2 ^ 64)
    (hon : 512 * s.partitionLba.toNat + off.toNat + count.toNat ≤ 512 * s.dev.sectors) :
    BytesExact s src off count ↔ count.toNat < 2 ^ 41 + (512 - off.toNat % 512) % 512 :=
  (bytesExact_iff_transfers hsrc hsum hon).trans
    (transfers_onDisk_iff s.dev.sectors_le _ _ _ (Nat.le_refl _) hon)

end Disk

/-! ## One `fs_write`, one `fs_read` -/

def DirOnDisk (s : FsState SectorDisk) : Prop := s.partitionLba.toNat + 16 ≤ s.dev.sectors
def fileOffset (f : FsFd) (off : UInt64) : Nat := f.startingBlock.toNat * 2097152 + off.toNat
def absOffset (f : FsFd) (off : UInt64) : UInt64 := f.startingBlock * bmfsBlockSize + off

theorem absOffset_toNat (f : FsFd) (off : UInt64) :
    (absOffset f off).toNat = fileOffset f off % 2 ^ 64 := by
  have hblock : bmfsBlockSize.toNat = 2097152 := by decide
  rw [absOffset, fileOffset, UInt64.toNat_add, UInt64.toNat_mul, hblock]
  omega

theorem toInt64_of_lt (h : x.toNat < 2 ^ 63) : toInt64 x = x.toNat := by
  unfold toInt64
  rw [BitVec.toInt_eq_toNat_of_lt (by simpa using (by omega : 2 * x.toNat < 2 ^ 64))]
  rfl

theorem toInt64_neg_of_le (h : 2 ^ 63 ≤ x.toNat) : toInt64 x < 0 := by
  unfold toInt64
  rw [BitVec.toInt_eq_toNat_cond, if_neg (by simpa using (by omega : ¬ 2 * x.toNat < 2 ^ 64))]
  omega

def Accepted (s : FsState SectorDisk) (f : FsFd) (off size : UInt64) : Prop :=
  ¬ f.reservedBlocks * bmfsBlockSize < off + size ∧
    transfers s.partitionLba.toNat s.dev.sectors size.toNat (absOffset f off) size ∧
    size.toNat < 2 ^ 63

section Calls

variable {s : FsState SectorDisk} {fd : Int} {f : FsFd} {off size : UInt64} {buf : List UInt8}

theorem partitionLba_le (hdir : DirOnDisk s) : s.partitionLba.toNat ≤ 2 ^ 55 := by
  have := s.dev.sectors_le
  unfold DirOnDisk at hdir
  omega

theorem fsWrite_accepted (hdir : DirOnDisk s) (hopen : openFd s fd = some f)
    (hsize : size ≠ 0) (hbuf : buf.length = size.toNat) (hacc : Accepted s f off size) :
    ∃ d, Laid s.partitionLba.toNat s.dev d (absOffset f off).toNat buf ∧
      fsWrite sectorDriver s fd (some buf) off size
        = ((size.toNat : Int), recordSize sectorDriver (s.withDev d) fd f (off + size)) := by
  obtain ⟨hmax, htrans, h63⟩ := hacc
  obtain ⟨d, hloop, hlaid⟩ :=
    (fsWriteBytesLoop_spec size.toNat s buf (absOffset f off) size (partitionLba_le hdir) hbuf).1
      htrans
  have hbytes : fsWriteBytes sectorDriver s buf (absOffset f off) size = (0, s.withDev d) := by
    exact hloop
  refine ⟨d, hlaid, ?_⟩
  unfold fsWrite
  rw [hopen]
  simp only [if_neg hsize, if_neg hmax]
  rw [absOffset] at hbytes
  rw [hbytes]
  simp only [toInt64_of_lt h63]
  rfl

theorem fsWrite_not_accepted (hdir : DirOnDisk s) (hopen : openFd s fd = some f)
    (hsize : size ≠ 0) (hbuf : buf.length = size.toNat) (hacc : ¬ Accepted s f off size) :
    (fsWrite sectorDriver s fd (some buf) off size).1 ≠ size.toNat := by
  have hneg : ∀ x : Int, x < 0 → x ≠ size.toNat := fun x hx => by omega
  unfold fsWrite
  rw [hopen]
  simp only [if_neg hsize]
  rw [if_neg (by simp [sectorDriver])]
  by_cases hmax : f.reservedBlocks * bmfsBlockSize < off + size
  · rw [if_pos hmax]
    exact hneg (-1) (by decide)
  · rw [if_neg hmax]
    have hspec := fsWriteBytesLoop_spec size.toNat s buf (absOffset f off) size
      (partitionLba_le hdir) hbuf
    change _ ∧ (_ → (fsWriteBytes sectorDriver s buf _ size).1 = -1) at hspec
    by_cases htrans : transfers s.partitionLba.toNat s.dev.sectors size.toNat (absOffset f off) size
    · have h63 : 2 ^ 63 ≤ size.toNat := by
        by_contra h
        exact hacc ⟨hmax, htrans, by omega⟩
      split
      · exact hneg (-1) (by decide)
      · exact hneg _ (toInt64_neg_of_le h63)
    · have hfail := hspec.2 htrans
      rw [absOffset] at hfail
      rw [hfail, if_pos (by decide)]
      exact hneg (-1) (by decide)

theorem fsRead_clamped (hp : s.partitionLba.toNat ≤ 2 ^ 55) (hopen : openFd s fd = some f)
    (hsize : size ≠ 0) (hoff : off.toNat < f.fileSize.toNat) {n : UInt64}
    (hn : clampSize (f.fileSize - off) size = n) (h63 : n.toNat < 2 ^ 63)
    (htrans : transfers s.partitionLba.toNat s.dev.sectors n.toNat (absOffset f off) n) :
    (fsRead sectorDriver s fd true off size).1
      = ((n.toNat : Int), gather s.partitionLba.toNat s.dev (absOffset f off).toNat n.toNat) := by
  have hread : fsReadBytes sectorDriver s (absOffset f off) n
      = (some (gather s.partitionLba.toNat s.dev (absOffset f off).toNat n.toNat), s) := by
    unfold fsReadBytes
    rw [fsReadBytesLoop_spec n.toNat s (absOffset f off) n [] hp htrans, nil_append]
  have hin : ¬ f.fileSize ≤ off := by
    rw [le_iff_toNat_le]
    omega
  unfold fsRead
  rw [hopen]
  simp only [not_true_eq_false, false_or, if_neg hsize, if_neg hin, hn]
  rw [absOffset] at hread ⊢
  rw [hread]
  simp only [toInt64_of_lt h63]

theorem fsRead_full (hp : s.partitionLba.toNat ≤ 2 ^ 55) (hopen : openFd s fd = some f)
    (hsize : size ≠ 0) (h63 : size.toNat < 2 ^ 63)
    (hend : off.toNat + size.toNat ≤ f.fileSize.toNat)
    (htrans : transfers s.partitionLba.toNat s.dev.sectors size.toNat (absOffset f off) size) :
    (fsRead sectorDriver s fd true off size).1 = ((size.toNat : Int),
          gather s.partitionLba.toNat s.dev (absOffset f off).toNat size.toNat) := by
  have hpos : size.toNat ≠ 0 := fun h => hsize (UInt64.toNat_inj.mp h)
  have havail : (f.fileSize - off).toNat = f.fileSize.toNat - off.toNat :=
    UInt64.toNat_sub_of_le _ _ (le_iff_toNat_le.mpr (by omega))
  have hclamp : clampSize (f.fileSize - off) size = size := by
    unfold clampSize
    rw [if_neg]
    rw [lt_iff_toNat_lt, havail]
    omega
  exact fsRead_clamped hp hopen hsize (by omega) hclamp h63 htrans

theorem fsRead_short (hopen : openFd s fd = some f) (hsize : size ≠ 0)
    (h63 : size.toNat < 2 ^ 63) (hend : f.fileSize.toNat < off.toNat + size.toNat) :
    (fsRead sectorDriver s fd true off size).1.1 ≠ size.toNat := by
  have hpos : size.toNat ≠ 0 := fun h => hsize (UInt64.toNat_inj.mp h)
  unfold fsRead
  rw [hopen]
  simp only [not_true_eq_false, false_or, if_neg hsize]
  by_cases hoff : f.fileSize ≤ off
  · rw [if_pos hoff]
    dsimp only
    omega
  · rw [if_neg hoff]
    rw [le_iff_toNat_le] at hoff
    have havail : (f.fileSize - off).toNat = f.fileSize.toNat - off.toNat :=
      UInt64.toNat_sub_of_le _ _ (le_iff_toNat_le.mpr (by omega))
    have hclamp : clampSize (f.fileSize - off) size = f.fileSize - off := by
      unfold clampSize
      rw [if_pos]
      rw [lt_iff_toNat_lt, havail]
      omega
    rw [hclamp]
    generalize fsReadBytes sectorDriver s (f.startingBlock * bmfsBlockSize + off)
      (f.fileSize - off) = r
    rcases r with ⟨_ | bytes, t⟩
    · dsimp only
      omega
    · dsimp only
      rw [toInt64_of_lt (by omega), havail]
      omega

def grownDir (s : FsState SectorDisk) (f : FsFd) (newEnd : UInt64) :
    Table BmfsEntry bmfsMaxFiles :=
  s.dir.modify f.dirIndex (BmfsEntry.withSize newEnd)

def recordedDisk (s : FsState SectorDisk) (f : FsFd) (newEnd : UInt64) : SectorDisk :=
  if f.fileSize < newEnd then
    s.dev.put (512 * s.partitionLba.toNat + 4096) 4096 (dirBytes (grownDir s f newEnd))
  else s.dev

def recordedFd (f : FsFd) (newEnd : UInt64) : FsFd :=
  if f.fileSize < newEnd then { f with fileSize := newEnd } else f

theorem recordSize_disk (hdir : DirOnDisk s) (fd : Int) (f : FsFd) (newEnd : UInt64) :
    (recordSize sectorDriver s fd f newEnd).dev = recordedDisk s f newEnd ∧
      (recordSize sectorDriver s fd f newEnd).partitionLba = s.partitionLba := by
  unfold recordSize recordedDisk
  split
  · have hp := partitionLba_le hdir
    have h8 : (byteToSector bmfsDirOffset).toNat = 8 := by decide
    have hn : (bmfsDirSize / fsSectorSize.toUInt32).toNat = 8 := by decide
    unfold dirWrite
    rw [fsWriteSectors_disk _ (by rw [h8]; dsimp only; omega) (by rw [hn]; omega)
      (by rw [h8, hn]; exact hdir)]
    exact ⟨rfl, rfl⟩
  · exact ⟨rfl, rfl⟩

theorem openFd_recordSize (hopen : openFd s fd = some f) (newEnd : UInt64) :
    openFd (recordSize sectorDriver s fd f newEnd) fd = some (recordedFd f newEnd) := by
  unfold recordSize recordedFd
  split
  · obtain ⟨-, hfds, -, hinit⟩ := dirWrite_same sectorDriver { s with
      fds := s.fds.modify fd.toNat (fun f => { f with fileSize := newEnd })
      dir := s.dir.modify f.dirIndex (BmfsEntry.withSize newEnd) }
    unfold openFd at hopen ⊢
    rw [hfds, hinit]
    split at hopen
    · cases hopen
    · rename_i hvalid
      rw [if_neg hvalid]
      obtain ⟨hget, huse⟩ := Option.filter_eq_some_iff.mp hopen
      simp [Table.slots_modify, getElem?_modify_eq, hget, huse]
  · exact hopen

theorem recordedDisk_byte {newEnd : UInt64} {a : Nat}
    (h : f.fileSize < newEnd → ¬ (512 * s.partitionLba.toNat + 4096 ≤ a ∧
      a < 512 * s.partitionLba.toNat + 8192)) :
    (recordedDisk s f newEnd).byte a = s.dev.byte a := by
  unfold recordedDisk
  split
  · rename_i hgrow
    simp only [SectorDisk.put]
    rw [if_neg (fun hin => h hgrow (by omega))]
  · rfl

def Confined (s s' : FsState SectorDisk) (f : FsFd) (off size : UInt64) : Prop :=
  ∀ a, s'.dev.byte a ≠ s.dev.byte a →
    (∃ i < size.toNat, a = 512 * s.partitionLba.toNat + (fileOffset f off + i)) ∨
      (512 * s.partitionLba.toNat + 4096 ≤ a ∧ a < 512 * s.partitionLba.toNat + 8192)

def WriteGood (s : FsState SectorDisk) (fd : Int) (f : FsFd) (off size : UInt64)
    (buf : List UInt8) : Prop :=
  (fsWrite sectorDriver s fd (some buf) off size).1 = size.toNat →
    Confined s (fsWrite sectorDriver s fd (some buf) off size).2 f off size ∧
      (fsRead sectorDriver (fsWrite sectorDriver s fd (some buf) off size).2 fd true off size).1
        = ((size.toNat : Int), buf)

/-- The sums do not wrap, and a write that grows the file stays clear of the directory. The last
disjunct is a file whose address wraps into the directory sectors. -/
def WriteFits (f : FsFd) (off size : UInt64) : Prop :=
  size = 0 ∨ (off.toNat + size.toNat < 2 ^ 64 ∧
    ((fileOffset f off + size.toNat ≤ 2 ^ 64 ∧
        (f.fileSize < off + size →
          fileOffset f off + size.toNat ≤ 4096 ∨ 8192 ≤ fileOffset f off)) ∨
      (2 ^ 64 ≤ fileOffset f off ∧ ¬ f.fileSize < off + size ∧
        4096 ≤ fileOffset f off % 2 ^ 64 ∧
        fileOffset f off % 2 ^ 64 + size.toNat ≤ 8192)))

theorem gather_eq {lba o : Nat} {d : SectorDisk} (h : ∀ i < buf.length,
    d.byte (rangeAddr lba o i) = buf.getD i 0) : gather lba d o buf.length = buf := by
  apply ext_getElem
  · simp [gather]
  · intro i h1 h2
    simp only [gather, getElem_map, getElem_range]
    rw [h i h2, getD_eq_getElem?_getD, getElem?_eq_getElem h2, Option.getD_some]

theorem fsWrite_then_fsRead (hdir : DirOnDisk s) (hopen : openFd s fd = some f)
    (hsize : size ≠ 0) (hbuf : buf.length = size.toNat) (hacc : Accepted s f off size) :
    ∃ d, Laid s.partitionLba.toNat s.dev d (absOffset f off).toNat buf ∧
      (fsWrite sectorDriver s fd (some buf) off size).1 = size.toNat ∧
      (fsWrite sectorDriver s fd (some buf) off size).2.dev
        = recordedDisk (s.withDev d) f (off + size) ∧
      (off.toNat + size.toNat < 2 ^ 64 →
        (fsRead sectorDriver (fsWrite sectorDriver s fd (some buf) off size).2 fd true off size).1
          = ((size.toNat : Int), gather s.partitionLba.toNat
              (recordedDisk (s.withDev d) f (off + size)) (absOffset f off).toNat size.toNat)) ∧
      (2 ^ 64 ≤ off.toNat + size.toNat →
        (fsRead sectorDriver (fsWrite sectorDriver s fd (some buf) off size).2 fd true off
          size).1.1 ≠ size.toNat) := by
  obtain ⟨d, hlaid, hwrite⟩ := fsWrite_accepted hdir hopen hsize hbuf hacc
  have hdir' : DirOnDisk (s.withDev d) := by
    change s.partitionLba.toNat + 16 ≤ d.sectors
    rw [hlaid.sectors]
    exact hdir
  obtain ⟨hdev, hlba⟩ := recordSize_disk hdir' fd f (off + size)
  have hopen' := openFd_recordSize (s := s.withDev d) hopen (off + size)
  have hsectors : (recordedDisk (s.withDev d) f (off + size)).sectors = s.dev.sectors := by
    rw [← hlaid.sectors]
    unfold recordedDisk
    split <;> rfl
  have hstart : absOffset (recordedFd f (off + size)) off = absOffset f off := by
    unfold recordedFd
    split <;> rfl
  refine ⟨d, hlaid, by rw [hwrite], by rw [hwrite]; exact hdev, fun hend => ?_, fun hend => ?_⟩
  · have hsum : (off + size).toNat = off.toNat + size.toNat := by
      rw [UInt64.toNat_add, Nat.mod_eq_of_lt hend]
    have hfull : off.toNat + size.toNat ≤ (recordedFd f (off + size)).fileSize.toNat := by
      unfold recordedFd
      split
      · rw [hsum]
      · rename_i h
        rw [lt_iff_toNat_lt, hsum] at h
        omega
    rw [hwrite, ← hdev, ← hstart]
    have hread := fsRead_full (s := recordSize sectorDriver (s.withDev d) fd f (off + size))
      (by rw [hlba]; exact partitionLba_le hdir') hopen' hsize hacc.2.2 hfull
      (by rw [hlba, hdev, hsectors, hstart]; exact hacc.2.1)
    rw [hlba] at hread
    exact hread
  · rw [hwrite]
    have := (recordedFd f (off + size)).fileSize.toNat_lt
    exact fsRead_short hopen' hsize hacc.2.2 (by omega)

theorem writeGood_of_fits (hdir : DirOnDisk s) (hopen : openFd s fd = some f)
    (hbuf : buf.length = size.toNat) (hfits : Accepted s f off size → WriteFits f off size) :
    WriteGood s fd f off size buf := by
  intro hret
  by_cases hsize : size = 0
  · -- nothing to write, nothing to read
    subst hsize
    obtain rfl : buf = [] := length_eq_zero_iff.mp hbuf
    have hw : fsWrite sectorDriver s fd (some []) off 0 = (0, s) := by
      simp [fsWrite, hopen, sectorDriver]
    refine ⟨fun a ha => absurd (by rw [hw]) ha, ?_⟩
    simp [hw, fsRead, hopen]
  · have hacc : Accepted s f off size := by
      by_contra hacc
      exact fsWrite_not_accepted hdir hopen hsize hbuf hacc hret
    obtain ⟨hend, hcases⟩ := (hfits hacc).resolve_left hsize
    obtain ⟨d, hlaid, -, hdev, hread, -⟩ := fsWrite_then_fsRead hdir hopen hsize hbuf hacc
    have ho := absOffset_toNat f off
    -- the data survives the flush
    have hdata : ∀ i < buf.length, (recordedDisk (s.withDev d) f (off + size)).byte
          (rangeAddr s.partitionLba.toNat (absOffset f off).toNat i) = buf.getD i 0 := by
      intro i hi
      rw [recordedDisk_byte, ← hlaid.data i hi]
      · rfl
      · intro hgrow hin
        change 512 * s.partitionLba.toNat + 4096 ≤ _ ∧ _ < 512 * s.partitionLba.toNat + 8192 at hin
        rw [rangeAddr, ho] at hin
        rcases hcases with ⟨hpart, hclear⟩ | ⟨-, hno, -⟩
        · have := hclear hgrow
          omega
        · exact hno hgrow
    refine ⟨?_, ?_⟩
    · intro a ha
      rw [hdev] at ha
      by_contra hout
      push Not at hout
      obtain ⟨hfile, hdirs⟩ := hout
      apply ha
      refine (recordedDisk_byte (s := s.withDev d)
        (fun _ hin => absurd hin.2 (not_lt.mpr (hdirs hin.1)))).trans ?_
      refine hlaid.frame a (fun i hi heq => ?_)
      rw [rangeAddr, ho] at heq
      rcases hcases with ⟨hpart, -⟩ | ⟨-, -, h1, h2⟩
      · exact hfile i (by omega) (by omega)
      · omega
    · rw [hread hend, ← hbuf, gather_eq hdata]

def FsState.withBytes (s : FsState SectorDisk) (byte : Nat → UInt8) : FsState SectorDisk :=
  s.withDev { s.dev with byte := byte }

def InDirectory (s : FsState SectorDisk) (a : Nat) : Prop :=
  512 * s.partitionLba.toNat + 4096 ≤ a ∧ a < 512 * s.partitionLba.toNat + 8192

def byteAddr (s : FsState SectorDisk) (f : FsFd) (off : UInt64) (i : Nat) : Nat :=
  rangeAddr s.partitionLba.toNat (absOffset f off).toNat i

def FilledGood (s : FsState SectorDisk) (fd : Int) (f : FsFd) (off size : UInt64)
    (c : UInt8) : Prop :=
  WriteGood (s.withBytes (fun _ => 0)) fd f off size (List.replicate size.toNat c)

variable {c : UInt8} {i : Nat}

section

variable (hdir : DirOnDisk s) (hopen : openFd s fd = some f)
include hdir hopen

theorem FilledGood.sum_lt (hsize : size ≠ 0)
    (hacc : Accepted s f off size) (hgood : FilledGood s fd f off size c) :
    off.toNat + size.toNat < 2 ^ 64 := by
  obtain ⟨d, -, hret, -, -, hshort⟩ := fsWrite_then_fsRead (s := s.withBytes (fun _ => 0))
    hdir hopen hsize (length_replicate (a := c)) hacc
  by_contra hwrap
  exact hshort (by omega) (congrArg Prod.fst (hgood hret).2)

theorem FilledGood.flushed (hsize : size ≠ 0)
    (hacc : Accepted s f off size) (hgood : FilledGood s fd f off size c)
    (hgrow : f.fileSize < off + size) (hi : i < size.toNat)
    (hin : InDirectory s (byteAddr s f off i)) :
    (dirBytes (grownDir s f (off + size))).getD
      (byteAddr s f off i - (512 * s.partitionLba.toNat + 4096)) 0 = c := by
  have hend := hgood.sum_lt hdir hopen hsize hacc
  obtain ⟨d, -, hret, -, hread, -⟩ := fsWrite_then_fsRead (s := s.withBytes (fun _ => 0))
    hdir hopen hsize (length_replicate (a := c)) hacc
  have hbytes := congrArg Prod.snd ((hread hend).symm.trans (hgood hret).2)
  have hget := congrArg (fun l => l.getD i 0) hbytes
  simp only [gather, getD_eq_getElem?_getD, getElem?_map, getElem?_range hi,
    Option.map_some, Option.getD_some, getElem?_replicate, if_pos hi] at hget
  rw [recordedDisk, if_pos hgrow] at hget
  simp only [SectorDisk.put] at hget
  have hlt : byteAddr s f off i < 512 * s.partitionLba.toNat + 4096 + 4096 := hin.2
  rw [if_pos ⟨hin.1, hlt⟩] at hget
  rw [← hget, getD_eq_getElem?_getD]
  rfl

theorem FilledGood.placed (hsize : size ≠ 0)
    (hacc : Accepted s f off size) (hgood : FilledGood s fd f off size 1) (hi : i < size.toNat)
    (hout : f.fileSize < off + size → ¬ InDirectory s (byteAddr s f off i)) :
    (∃ j < size.toNat, byteAddr s f off i = 512 * s.partitionLba.toNat + (fileOffset f off + j)) ∨
      InDirectory s (byteAddr s f off i) := by
  obtain ⟨d, hlaid, hret, hdev, -, -⟩ := fsWrite_then_fsRead (s := s.withBytes (fun _ => 0))
    hdir hopen hsize (length_replicate (a := 1)) hacc
  refine (hgood hret).1 _ ?_
  rw [hdev, recordedDisk_byte (s := (s.withBytes (fun _ => 0)).withDev d) hout]
  have hdata := hlaid.data i (by rw [length_replicate]; exact hi)
  rw [getD_eq_getElem?_getD, getElem?_replicate, if_pos hi] at hdata
  change d.byte (byteAddr s f off i) = 1 at hdata
  change d.byte (byteAddr s f off i) ≠ 0
  rw [hdata]
  decide

theorem fits_of_writeGood
    (hacc : Accepted s f off size) (hgood : ∀ c, FilledGood s fd f off size c) :
    WriteFits f off size := by
  by_cases hsize : size = 0
  · exact Or.inl hsize
  have hpos : size.toNat ≠ 0 := fun h => hsize (UInt64.toNat_inj.mp h)
  have hend := (hgood 0).sum_lt hdir hopen hsize hacc
  have ho := absOffset_toNat f off
  -- a byte of a flushed directory cannot be both 0 and 1
  have hflush : f.fileSize < off + size → ∀ i < size.toNat,
      ¬ (4096 ≤ (fileOffset f off % 2 ^ 64 + i) % 2 ^ 64 ∧
        (fileOffset f off % 2 ^ 64 + i) % 2 ^ 64 < 8192) := by
    intro hgrow i hi hin
    have hin' : InDirectory s (byteAddr s f off i) := by
      rw [InDirectory, byteAddr, rangeAddr, ho]; omega
    have h0 := (hgood 0).flushed hdir hopen hsize hacc hgrow hi hin'
    have h1 := (hgood 1).flushed hdir hopen hsize hacc hgrow hi hin'
    exact absurd (h0.symm.trans h1) (by decide)
  have hplaced : ∀ i < size.toNat,
      (∃ j < size.toNat, (fileOffset f off % 2 ^ 64 + i) % 2 ^ 64 = fileOffset f off + j) ∨
        (4096 ≤ (fileOffset f off % 2 ^ 64 + i) % 2 ^ 64 ∧
          (fileOffset f off % 2 ^ 64 + i) % 2 ^ 64 < 8192) := by
    intro i hi
    have h := (hgood 1).placed hdir hopen hsize hacc hi (fun hgrow hin => hflush hgrow i hi
      (by rw [InDirectory, byteAddr, rangeAddr, ho] at hin; omega))
    rw [InDirectory, byteAddr, rangeAddr, ho] at h
    rcases h with ⟨j, hj, heq⟩ | h
    · exact Or.inl ⟨j, hj, by omega⟩
    · exact Or.inr (by omega)
  refine Or.inr ⟨hend, ?_⟩
  by_cases hpart : fileOffset f off + size.toNat ≤ 2 ^ 64
  · -- no wrap: only the flush matters
    refine Or.inl ⟨hpart, fun hgrow => ?_⟩
    by_contra hover
    have h1 := hflush hgrow (4096 - fileOffset f off) (by omega)
    omega
  · by_cases hstart : fileOffset f off < 2 ^ 64
    · -- the range runs over 2^64 and comes back to offset 0
      rcases hplaced (2 ^ 64 - fileOffset f off) (by omega) with ⟨j, hj, heq⟩ | h <;> omega
    · -- the whole file lies past 2^64
      have hdirs : ∀ i < size.toNat, 4096 ≤ (fileOffset f off % 2 ^ 64 + i) % 2 ^ 64 ∧
          (fileOffset f off % 2 ^ 64 + i) % 2 ^ 64 < 8192 := by
        intro i hi
        rcases hplaced i hi with ⟨j, hj, heq⟩ | h
        · omega
        · exact h
      have h0 := hdirs 0 (by omega)
      refine Or.inr ⟨by omega, fun hgrow => hflush hgrow 0 (by omega) h0, by omega, ?_⟩
      by_contra hover
      have h1 := hdirs (8192 - fileOffset f off % 2 ^ 64) (by omega)
      omega

end

/-- An accepted `fs_write` changes only its own bytes and reads back as written, on every disk, if
and only if its sums do not wrap and it stays clear of the directory. -/
theorem fsWrite_confined_readBack_iff (s : FsState SectorDisk) (hdir : DirOnDisk s) (fd : Int)
    (f : FsFd) (hopen : openFd s fd = some f) (off size : UInt64) :
    (∀ (byte : Nat → UInt8) (buf : List UInt8), buf.length = size.toNat →
        WriteGood (s.withBytes byte) fd f off size buf) ↔
      (Accepted s f off size → WriteFits f off size) := by
  constructor
  · intro h hacc
    exact fits_of_writeGood hdir hopen hacc (fun c => h _ _ length_replicate)
  · intro hfits byte buf hbuf
    exact writeGood_of_fits (s := s.withBytes byte) hdir hopen hbuf hfits

end Calls

def twoFiles : FsState SectorDisk :=
  let closed : FsFd := ⟨false, 0, 0, 0, 0, Table.ofFn (fun _ => 0)⟩
  run (step sectorDriver)
    { dir := emptyDir, fds := Table.ofFn (fun _ => closed), partitionLba := 0,
      initialized := true, dev := ⟨65536, fun _ => 0, by decide⟩ }
    [.create (some (byteName 0)) 1, .create (some (byteName 1)) 1, .open (some (byteName 1))]

def secondFd : FsFd := ⟨true, 1, 2, 1, 0, (newEntry (byteName 1) 2 1).filename⟩

theorem openFd_twoFiles : openFd twoFiles 0 = some secondFd := by decide +kernel

theorem bytesExact_twoFiles : BytesExact twoFiles [1, 2] 511 2 :=
  (bytesExact_iff twoFiles [1, 2] 511 2 rfl (by decide) (by decide)).mpr (by decide)

def wideVolume : FsState SectorDisk := twoFiles.withDev ⟨4294967296, fun _ => 0, by decide⟩

theorem bytes_of_wideVolume :
    ¬ BytesExact wideVolume (List.replicate 2199023255552 1) 0 2199023255552 := by
  have hsectors : 512 * wideVolume.partitionLba.toNat + (0 : UInt64).toNat
      + (2199023255552 : UInt64).toNat ≤ 512 * wideVolume.dev.sectors := by decide
  have hlen : (List.replicate 2199023255552 (1 : UInt8)).length
      = (2199023255552 : UInt64).toNat := length_replicate
  rw [bytesExact_iff_transfers hlen (by decide) hsectors,
    transfers_onDisk_iff wideVolume.dev.sectors_le _ _ _ (Nat.le_refl _) hsectors]
  decide

theorem fsWrite_confined_readBack_twoFiles :
    WriteGood (twoFiles.withBytes (fun _ => 9)) 0 secondFd 100 1000 (List.replicate 1000 7) := by
  have hdir : DirOnDisk twoFiles := by
    unfold DirOnDisk
    decide +kernel
  have hfits : WriteFits secondFd 100 1000 :=
    Or.inr ⟨by decide, Or.inl ⟨by decide, fun _ => Or.inr (by decide)⟩⟩
  exact (fsWrite_confined_readBack_iff twoFiles hdir 0 secondFd openFd_twoFiles 100 1000).mpr
    (fun _ => hfits) (fun _ => 9) (List.replicate 1000 7) length_replicate

/-- 1024 bytes at offset 2^64 - 512 land in the file before. -/
theorem fsWrite_into_previous_file :
    BlocksDisjoint twoFiles.dir ∧
    (fsWrite sectorDriver twoFiles 0 (some (List.replicate 1024 7)) 0xFFFFFFFFFFFFFE00 1024).1
      = 1024 ∧
    twoFiles.dev.byte (2 * 2097152 - 512) = 0 ∧
    (fsWrite sectorDriver twoFiles 0 (some (List.replicate 1024 7)) 0xFFFFFFFFFFFFFE00
      1024).2.dev.byte (2 * 2097152 - 512) = 7 ∧
    ¬ WriteGood twoFiles 0 secondFd 0xFFFFFFFFFFFFFE00 1024 (List.replicate 1024 7) := by
  have hret : (fsWrite sectorDriver twoFiles 0 (some (List.replicate 1024 7)) 0xFFFFFFFFFFFFFE00
      1024).1 = 1024 := by decide +kernel
  refine ⟨?_, hret, by decide +kernel, by decide +kernel, fun hgood => ?_⟩
  · have hranges : ranges twoFiles.dir = [⟨1, 1⟩, ⟨2, 1⟩] := by decide +kernel
    unfold BlocksDisjoint
    rw [hranges]
    refine ⟨pairwise_pair.mpr (fun x hx => ?_), by decide, by decide⟩
    simp only [Range.Mem, Range.stop] at hx
    omega
  · have := congrArg Prod.fst (hgood hret).2
    exact absurd this (by decide)

end AlJefra.Kernel.Fs
