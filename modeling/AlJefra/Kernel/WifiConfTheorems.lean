/- Whether saved Wi-Fi credentials survive a reboot. -/
import AlJefra.Kernel.WifiConf
import AlJefra.Kernel.FsDurableTheorems
import Mathlib.Data.List.TakeWhile

namespace AlJefra.Kernel.Fs

open AlJefra.Lib List

/-! ## The text -/

structure Credentials where
  ssid : CStr
  pass : CStr
  ssid_pos : 1 ≤ ssid.bytes.length
  ssid_le : ssid.bytes.length ≤ 32
  pass_pos : 1 ≤ pass.bytes.length
  pass_le : pass.bytes.length ≤ 63
  ssid_line : ∀ b ∈ ssid.bytes, isNewline b = false
  pass_line : ∀ b ∈ pass.bytes, isNewline b = false

theorem length_afterLine_lt {cur : List UInt8} (h : cur ≠ []) :
    (afterLine cur).length < cur.length := by
  have hdrop := (dropWhile_sublist isNewline (l := cur.drop (wifiLine cur).length)).length_le
  rw [length_drop] at hdrop
  cases cur with
  | nil => exact absurd rfl h
  | cons b bs =>
    cases hb : isNewline b with
    | true =>
      have hline : wifiLine (b :: bs) = [] := by simp [wifiLine, hb]
      have hskip := (dropWhile_sublist isNewline (l := bs)).length_le
      simp only [afterLine, hline, length_nil, drop_zero, dropWhile_cons, hb,
        if_true, length_cons]
      omega
    | false =>
      have hline : 0 < (wifiLine (b :: bs)).length := by simp [wifiLine, hb]
      rw [afterLine]
      rw [length_cons] at hdrop ⊢
      omega

section Parse

variable {ssidMax passMax : Nat}

theorem wifiFields_fuel (n m : Nat) (cur : List UInt8) (fields : List UInt8 × List UInt8)
    (hn : cur.length ≤ n) (hm : cur.length ≤ m) :
    wifiFields ssidMax passMax n cur fields = wifiFields ssidMax passMax m cur fields := by
  induction n generalizing m cur fields with
  | zero =>
    obtain rfl := length_eq_zero_iff.mp (Nat.le_zero.mp hn)
    cases m <;> rfl
  | succ n ih =>
    cases cur with
    | nil => cases m <;> rfl
    | cons b bs =>
      have hlt := length_afterLine_lt (cons_ne_nil b bs)
      cases m with
      | zero => simp at hm
      | succ m =>
        exact ih m _ _ (by omega) (by omega)

theorem wifiFields_line {line rest : List UInt8} (hline : ∀ b ∈ line, isNewline b = false)
    (hlen : line.length ≤ 95) (hrest : ∀ b ∈ rest.head?, isNewline b = false) (fuel : Nat)
    (fields : List UInt8 × List UInt8) :
    wifiFields ssidMax passMax (fuel + 1) (line ++ 0x0A :: rest) fields =
      wifiFields ssidMax passMax fuel rest (wifiField ssidMax passMax line fields) := by
  have htake : wifiLine (line ++ 0x0A :: rest) = line := by
    rw [wifiLine, takeWhile_append_of_pos (fun b hb => by simp [hline b hb])]
    simpa [isNewline] using take_of_length_le hlen
  have hafter : afterLine (line ++ 0x0A :: rest) = rest := by
    rw [afterLine, htake, drop_left]
    cases rest with
    | nil => rfl
    | cons b bs =>
      have hb := hrest b rfl
      simp [isNewline, dropWhile_cons] at hb ⊢
      simp [hb]
  have hne : line ++ 0x0A :: rest ≠ [] := by simp
  rw [wifiFields, if_neg hne, htake, hafter]

theorem wifiField_ssid (ssid : List UInt8) (fields : List UInt8 × List UInt8) :
    wifiField ssidMax passMax (ssidKey ++ ssid) fields = (strCopy ssid ssidMax, fields.2) := by
  rfl

theorem wifiField_pass (pass : List UInt8) (fields : List UInt8 × List UInt8) :
    wifiField ssidMax passMax (passphraseKey ++ pass) fields =
      (fields.1, strCopy pass passMax) := by
  rfl

theorem wifiText_eq (c : Credentials) : wifiText c.ssid c.pass =
      (ssidKey ++ c.ssid.bytes) ++ 0x0A :: ((passphraseKey ++ c.pass.bytes) ++ [0x0A]) := by
  have hs := c.ssid_le
  have hp := c.pass_le
  have hkey : ssidKey.length = 5 := rfl
  have hkey' : passphraseKey.length = 11 := rfl
  have hfit : ∀ buf src : List UInt8, buf.length + src.length < 160 →
      strAppend 160 buf src = buf ++ src := by
    intro buf src h
    rw [strAppend, strCopy, take_of_length_le (by omega)]
  simp only [wifiText]
  rw [show strCopy ssidKey 160 = ssidKey from rfl, hfit ssidKey _ (by omega),
    hfit (ssidKey ++ _) _ (by simp [hkey, hkey']; omega),
    hfit (_ ++ 0x0A :: passphraseKey) _ (by simp [hkey, hkey']; omega),
    hfit (_ ++ c.pass.bytes) _ (by simp [hkey, hkey']; omega)]
  simp only [append_assoc, cons_append]

theorem wifiParse_wifiText (c : Credentials) (hs : 33 ≤ ssidMax) (hp : 64 ≤ passMax) :
    wifiParse ssidMax passMax (wifiText c.ssid c.pass) = some (c.ssid.bytes, c.pass.bytes) := by
  have hssid := c.ssid_le
  have hpass := c.pass_le
  have hssid' : c.ssid.bytes ≠ [] := length_pos_iff.mp c.ssid_pos
  have hpass' : c.pass.bytes ≠ [] := length_pos_iff.mp c.pass_pos
  set text := wifiText c.ssid c.pass with htext
  have heq : text = (ssidKey ++ c.ssid.bytes) ++
      0x0A :: ((passphraseKey ++ c.pass.bytes) ++ [0x0A]) := wifiText_eq c
  have hkeys : (∀ b ∈ ssidKey, isNewline b = false) ∧ ∀ b ∈ passphraseKey, isNewline b = false := by
    simp [ssidKey, passphraseKey, isNewline]
  have hnul : text.takeWhile (fun b => b != 0) = text := by
    have hkeys0 : 0 ∉ ssidKey ∧ 0 ∉ passphraseKey := by decide
    have hmem : 0 ∉ text := by
      rw [heq]
      simp [c.ssid.noNul, c.pass.noNul, hkeys0]
    refine takeWhile_eq_self_iff.mpr fun b hb => ?_
    simpa using fun h : b = 0 => hmem (h ▸ hb)
  have hline1 : ∀ b ∈ ssidKey ++ c.ssid.bytes, isNewline b = false := by
    intro b hb
    exact (mem_append.mp hb).elim (hkeys.1 b) (c.ssid_line b)
  have hline2 : ∀ b ∈ passphraseKey ++ c.pass.bytes, isNewline b = false := by
    intro b hb
    exact (mem_append.mp hb).elim (hkeys.2 b) (c.pass_line b)
  have hfields : wifiFields ssidMax passMax text.length text ([], []) =
      (c.ssid.bytes, c.pass.bytes) := by
    rw [wifiFields_fuel text.length (text.length + 2) text _ (le_refl _) (by omega), heq,
      wifiFields_line hline1 (by simp [ssidKey]; omega) (by simp [passphraseKey, isNewline]),
      wifiFields_line hline2 (by simp [passphraseKey]; omega) (by simp),
      wifiField_ssid, wifiField_pass, strCopy, strCopy, take_of_length_le (by omega),
      take_of_length_le (by omega)]
    generalize (length _) = n
    cases n <;> rfl
  simp only [wifiParse, hnul, hfields]
  rw [if_pos ⟨hssid', hpass'⟩]

end Parse

/-! ## Loading after a mount -/

section Load

variable {s : FsState SectorDisk} {idx : Nat} {e : BmfsEntry}

theorem load_absent (h : dirFind s.dir wifiConf = none) (ssidMax passMax : Nat) :
    (shellLoadWifiCredentials sectorDriver s.closeAll ssidMax passMax).1 = none := by
  have hinit : s.closeAll.initialized = true := rfl
  have hfind : dirFind s.closeAll.dir wifiConf = none := h
  simp only [shellLoadWifiCredentials, fsOpen, hinit, not_true_eq_false, if_false, hfind]

theorem openFd_first (f : FsFd) (hf : f.inUse = true) :
    openFd { s.closeAll with fds := s.closeAll.fds.set 0 f } (0 : Nat) = some f := by
  have hlen : 0 < s.closeAll.fds.slots.length := by
    rw [s.closeAll.fds.length_slots]
    decide
  rw [openFd_of_slot (i := 0) (f := f) rfl (by simp [hlen])]
  simp [hf]

theorem load_empty (hat : At s.dir wifiConf idx e) (hsize : e.fileSize = 0)
    (ssidMax passMax : Nat) :
    (shellLoadWifiCredentials sectorDriver s.closeAll ssidMax passMax).1 = none := by
  simp only [shellLoadWifiCredentials, fsOpen_closeAll hat, fsRead, openFd_first, hsize]
  simp

theorem load_present (hdisk : DirOnDisk s) (hat : At s.dir wifiConf idx e)
    (hpos : 0 < e.fileSize.toNat) (hon : fileAddr s e + e.fileSize.toNat ≤ 512 * s.dev.sectors)
    (ssidMax passMax : Nat) :
    (shellLoadWifiCredentials sectorDriver s.closeAll ssidMax passMax).1 =
      wifiParse ssidMax passMax (s.dev.slice (fileAddr s e) (min e.fileSize.toNat 255)) := by
  set f : FsFd := ⟨true, idx, e.startingBlock, e.reservedBlocks, e.fileSize, e.filename⟩ with hf
  set t : FsState SectorDisk := { s.closeAll with fds := s.closeAll.fds.set 0 f } with ht
  have hcache : Caches f e := ⟨rfl, rfl, rfl⟩
  have hsec := s.dev.sectors_le
  set n := clampSize (f.fileSize - 0) 255 with hn
  have hclamp : n.toNat = min e.fileSize.toNat 255 := by
    have h255 : (255 : UInt64).toNat = 255 := rfl
    rw [hn, UInt64.sub_zero, clampSize, hcache.size]
    split <;> rename_i hlt <;> rw [UInt64.lt_iff_toNat_lt, h255] at hlt <;> omega
  rw [fileAddr] at hon
  have habs : (absOffset f 0).toNat = e.startingBlock.toNat * 2097152 := by
    rw [absOffset_toNat, fileOffset, hcache.start, UInt64.toNat_zero]
    omega
  have htrans : transfers s.partitionLba.toNat s.dev.sectors n.toNat (absOffset f 0) n := by
    refine transfers_onDisk hsec _ _ _ (le_refl _) (by omega) ?_
    omega
  have hp : t.partitionLba.toNat ≤ 2 ^ 55 := partitionLba_le hdisk
  have hread : (fsRead sectorDriver t (0 : Nat) true 0 255).1 = ((n.toNat : Int),
      gather s.partitionLba.toNat s.dev (absOffset f 0).toNat n.toNat) :=
    fsRead_clamped hp (openFd_first f rfl) (by decide) (by exact hpos) hn.symm (by omega) htrans
  have hbytes : s.dev.slice (fileAddr s e) n.toNat =
      gather s.partitionLba.toNat s.dev (absOffset f 0).toNat n.toNat := by
    rw [habs, ← slice_eq_gather _ _ (by omega)]
    rfl
  rw [shellLoadWifiCredentials, fsOpen_closeAll hat, ← hclamp, hbytes]
  simp only [← hf, ← ht, hread]
  rw [if_neg (by omega)]

end Load

/-! ## Saving -/

structure Mounted (s : FsState SectorDisk) : Prop where
  initialized : s.initialized = true
  flushed : Flushed s
  live : ∀ fd f, openFd s fd = some f → ∃ e, s.dir.slots[f.dirIndex]? = some e ∧ e.tag = .live

def contents (s : FsState SectorDisk) (name : CStr) : Option (List UInt8) :=
  (lookup s.dir name).map fun e => s.dev.slice (fileAddr s e) e.fileSize.toNat

def afterReboot (s : FsState SectorDisk) (ssidMax passMax : Nat) :
    Option (List UInt8 × List UInt8) :=
  (shellLoadWifiCredentials sectorDriver (fsInit sectorDriver s s.partitionLba).2
    ssidMax passMax).1

structure Survives (s t : FsState SectorDisk) (c : Credentials) (ssidMax passMax : Nat) : Prop where
  loaded : afterReboot t ssidMax passMax = some (c.ssid.bytes, c.pass.bytes)
  others : ∀ name, name ≠ wifiConf →
    contents (fsInit sectorDriver t t.partitionLba).2 name = contents s name

theorem Volume.toMounted {s : FsState SectorDisk} (h : Volume s) : Mounted s := by
  refine ⟨h.mounted, h.flushed, fun fd f hf => ?_⟩
  obtain ⟨name, e, hat, -⟩ := h.fds fd f hf
  obtain ⟨pre, post, -, -, -, hlive, -⟩ := id hat
  exact ⟨e, hat.getElem?, hlive⟩

section Save

variable {s t : FsState SectorDisk}

theorem fsWrite_sectors (s : FsState SectorDisk) (fd : Int) (buf : Option (List UInt8))
    (off size : UInt64) :
    (fsWrite sectorDriver s fd buf off size).2.dev.sectors = s.dev.sectors := by
  have hframe : Frame sectorDriver fun s t : FsState SectorDisk =>
      t.dev.sectors = s.dev.sectors := by
    constructor
    · exact fun s => rfl
    · exact fun h h' => h'.trans h
    · intro s lba n
      simp only [fsReadSectors, sectorDriver, SectorDisk.read]
      split <;> rfl
    · intro s buf lba n
      simp only [fsWriteSectors, sectorDriver, SectorDisk.write]
      split <;> rfl
  exact hframe.fsWrite (fun _ _ _ => rfl) s fd buf off size

def saveTail (t : FsState SectorDisk) (buf : List UInt8) : FsState SectorDisk :=
  (fsSync sectorDriver (fsClose
    (fsWrite sectorDriver (t.withDev (flushedDisk t)) 0 (some buf) 0 (UInt64.ofNat buf.length)).2
    0)).2

theorem save_refused (hp : createPending sectorDriver s wifiConf 1 = none) (ssid pass : CStr) :
    shellSaveWifiCredentials sectorDriver s (some ssid) (some pass) = s := by
  have hcreate := DirCall.exec_eq sectorDriver s (.create (some wifiConf) 1)
  simp only [DirCall.exec, DirCall.pending, hp] at hcreate
  simp [shellSaveWifiCredentials, hcreate]

theorem save_created (hdisk : DirOnDisk s) (hp : createPending sectorDriver s wifiConf 1 = some t)
    (ssid pass : CStr) :
    shellSaveWifiCredentials sectorDriver s (some ssid) (some pass) =
      saveTail t (wifiText ssid pass) := by
  have hcreate := DirCall.exec_eq sectorDriver s (.create (some wifiConf) 1)
  have hdisk' : DirOnDisk t := by
    obtain ⟨slot, -, rfl⟩ := createPending_eq_some hp
    exact hdisk
  simp only [DirCall.exec, DirCall.pending, hp, flush_disk hdisk'] at hcreate
  simp only [shellSaveWifiCredentials, hcreate]
  rfl

variable {slot : Nat} {fd : Int}

theorem Mounted.dirIndex_ne (h : Mounted s) (hfree : dirFindFree s.dir = some slot) {f : FsFd}
    (hopen : openFd s fd = some f) : f.dirIndex ≠ slot := by
  obtain ⟨pre, x, post, hdir, rfl, -, -, hx⟩ := dirFindFree_cut hfree
  obtain ⟨e, hget, hlive⟩ := h.live fd f hopen
  intro heq
  rw [hdir, heq] at hget
  simp only [getElem?_append_right (Nat.le_refl _), Nat.sub_self, getElem?_cons_zero,
    Option.some.injEq] at hget
  exact hx (hget ▸ hlive)

theorem At.fsWrite_other {name : CStr} {e : BmfsEntry} (hat : At s.dir name slot e)
    (hne : ∀ f, openFd s fd = some f → f.dirIndex ≠ slot) (buf : Option (List UInt8))
    (off size : UInt64) : At (fsWrite sectorDriver s fd buf off size).2.dir name slot e := by
  rcases fsWrite_dir sectorDriver s fd buf off size with heq | ⟨f, n, hopen, heq⟩
  · rw [heq]
    exact hat
  · rw [heq]
    obtain ⟨e', hat'⟩ := at_of_dirFind ((dirFind_withSize s.dir f.dirIndex n).trans hat.dirFind)
    have hget := hat'.getElem?
    rw [Table.slots_modify, getElem?_modify, hat.getElem?] at hget
    obtain rfl : e = e' := by simpa [hne f hopen] using hget
    exact hat'

theorem saveTail_spec (h : Mounted s) (hp : createPending sectorDriver s wifiConf 1 = some t)
    (buf : List UInt8) :
    DirOnDisk (saveTail t buf) ∧
    (saveTail t buf).dev.slice (dirAddr (saveTail t buf)) 4096 = dirBytes (saveTail t buf).dir ∧
    ∃ slot e, At (saveTail t buf).dir wifiConf slot e ∧ e.fileSize = 0 := by
  obtain ⟨slot, hslot, rfl⟩ := createPending_eq_some hp
  obtain ⟨hlen, ⟨c, cs, hcs, hc0, hc1⟩, hnone, hfree⟩ := fsCreateSlot_eq_some _ hslot
  set e := newEntry wifiConf (findFreeBlocks s.dir (atLeastOne 1)) (atLeastOne 1) with he
  set t : FsState SectorDisk := { s with dir := placeEntry s.dir slot e } with ht
  have hat : At t.dir wifiConf slot e :=
    at_placeEntry_self hfree hnone (newEntry_live hcs hlen hc0 hc1 _ _)
      ((nameMatch_newEntry hlen _ _).mpr rfl)
  set w := (fsWrite sectorDriver (t.withDev (flushedDisk t)) 0 (some buf) 0
    (UInt64.ofNat buf.length)).2 with hw
  have hat' : At (t.withDev (flushedDisk t)).dir wifiConf slot e := hat
  have hwat : At w.dir wifiConf slot e :=
    hat'.fsWrite_other (fun f hf => h.dirIndex_ne hfree hf) _ _ _
  obtain ⟨hlba, hinit⟩ := fsWrite_mount sectorDriver (t.withDev (flushedDisk t)) 0 (some buf) 0
    (UInt64.ofNat buf.length)
  have hsectors := fsWrite_sectors (t.withDev (flushedDisk t)) 0 (some buf) 0
    (UInt64.ofNat buf.length)
  have hdisk : DirOnDisk (fsClose w 0) := by
    change w.partitionLba.toNat + 16 ≤ w.dev.sectors
    rw [hlba, hsectors]
    exact h.flushed.onDisk
  have htail : saveTail t buf = (fsClose w 0).withDev (flushedDisk (fsClose w 0)) := by
    have hmounted : (fsClose w 0).initialized = true := hinit.trans h.initialized
    simp only [saveTail, fsSync, ← hw, hmounted, not_true_eq_false, if_false, dirWrite_disk hdisk]
  rw [htail]
  refine ⟨hdisk, ?_, slot, e, hwat, rfl⟩
  have hput := slice_put_same (fsClose w 0).dev (dirAddr (fsClose w 0)) (dirBytes (fsClose w 0).dir)
  rw [length_dirBytes] at hput
  exact hput

/-- On every mounted filesystem and for all credentials: saved and remounted, they are loaded if and
only if they would be without the save. -/
theorem wifi_survives_iff (s : FsState SectorDisk) (h : Mounted s) (c : Credentials)
    (ssidMax passMax : Nat) :
    Survives s (shellSaveWifiCredentials sectorDriver s (some c.ssid) (some c.pass)) c
        ssidMax passMax ↔
      afterReboot s ssidMax passMax = some (c.ssid.bytes, c.pass.bytes) := by
  have hbefore : afterReboot s ssidMax passMax =
      (shellLoadWifiCredentials sectorDriver s.closeAll ssidMax passMax).1 := by
    simp [afterReboot, fsInit_flushed h.flushed]
  cases hp : createPending sectorDriver s wifiConf 1 with
  | none =>
    rw [save_refused hp]
    refine ⟨Survives.loaded, fun hload => ⟨hload, fun name _ => ?_⟩⟩
    rw [fsInit_flushed h.flushed]
    rfl
  | some t =>
    rw [save_created h.flushed.onDisk hp]
    constructor
    · -- what is on the disk now is an empty file
      intro hs
      obtain ⟨hdisk, hdir, slot, e, hat, hsize⟩ := saveTail_spec h hp (wifiText c.ssid c.pass)
      have hload := hs.loaded
      rw [afterReboot, fsInit_disk hdisk hdir] at hload
      split at hload
      · rw [load_empty hat hsize] at hload
        cases hload
      · simp [shellLoadWifiCredentials, fsOpen, FsState.reset] at hload
    · -- and what was there before was no file
      intro hload
      obtain ⟨slot, hslot, -⟩ := createPending_eq_some hp
      obtain ⟨-, -, hnone, -⟩ := fsCreateSlot_eq_some _ hslot
      rw [hbefore, load_absent hnone] at hload
      cases hload

end Save

/-! ## Two disks -/

theorem openFd_closeAll {σ : Type} (s : FsState σ) (fd : Int) : openFd s.closeAll fd = none := by
  cases hf : openFd s.closeAll fd with
  | none => rfl
  | some f =>
    obtain ⟨-, -, hget, huse⟩ := openFd_eq_some hf
    obtain ⟨g, -, rfl⟩ := mem_map.mp (mem_of_getElem? hget)
    cases huse

def shortCredentials : Credentials where
  ssid := ⟨[0x61], by decide⟩
  pass := ⟨[0x62], by decide⟩
  ssid_pos := by decide
  ssid_le := by decide
  pass_pos := by decide
  pass_le := by decide
  ssid_line := by simp [isNewline]
  pass_line := by simp [isNewline]

def shortText : List UInt8 := wifiText shortCredentials.ssid shortCredentials.pass
def shortEntry : BmfsEntry := (newEntry wifiConf 1 1).withSize 20

def savedMount : FsState SectorDisk :=
  let dir := placeEntry emptyDir 0 shortEntry
  { freshMount.solid with
    dir := dir
    dev := (formatted.put 4096 4096 (dirBytes dir)).put 2097152 20 shortText }.closeAll

theorem flushed_savedMount : Flushed savedMount := by
  have hlba : savedMount.partitionLba.toNat = 0 := rfl
  have hfile : ∀ x, x < 8192 → savedMount.dev.byte x =
      (formatted.put 4096 4096 (dirBytes savedMount.dir)).byte x := by
    intro x hx
    exact if_neg (by omega)
  constructor
  · unfold DirOnDisk
    decide
  · have hput := slice_put_same formatted 4096 (dirBytes savedMount.dir)
    rw [length_dirBytes] at hput
    rw [dirAddr, hlba, slice_congr fun x _ hx => hfile x (by omega)]
    exact hput
  · rw [hlba, slice_congr fun x _ hx => hfile x (by omega), ← formatted_tag]
    exact slice_congr fun x _ hx => if_neg (by omega)

theorem mounted_savedMount : Mounted savedMount := by
  refine ⟨rfl, flushed_savedMount, fun fd f hf => ?_⟩
  rw [savedMount, openFd_closeAll] at hf
  cases hf

theorem afterReboot_savedMount : afterReboot savedMount 64 96 =
      some (shortCredentials.ssid.bytes, shortCredentials.pass.bytes) := by
  have hfree : dirFindFree emptyDir = some 0 := by decide +kernel
  have hat : At savedMount.dir wifiConf 0 shortEntry :=
    at_placeEntry_self hfree (by decide +kernel) (by decide +kernel) (by decide +kernel)
  have haddr : fileAddr savedMount shortEntry = 2097152 := by decide +kernel
  have htext : savedMount.dev.slice 2097152 20 = shortText := by
    exact slice_put_same _ 2097152 shortText
  have hmin : min shortEntry.fileSize.toNat 255 = 20 := by decide
  rw [afterReboot, fsInit_flushed flushed_savedMount,
    load_present flushed_savedMount.onDisk hat (by decide) (by rw [haddr]; decide), haddr, hmin,
    htext]
  exact wifiParse_wifiText shortCredentials (by decide) (by decide)

theorem wifi_survives_again :
    Mounted savedMount ∧
    Survives savedMount (shellSaveWifiCredentials sectorDriver savedMount
      (some shortCredentials.ssid) (some shortCredentials.pass)) shortCredentials 64 96 :=
  ⟨mounted_savedMount,
    (wifi_survives_iff savedMount mounted_savedMount shortCredentials 64 96).mpr
      afterReboot_savedMount⟩

def oneFileOpen : FsState SectorDisk :=
  run (step sectorDriver) freshMount.solid
    [.create (some oneByteName) 1, .open (some oneByteName), .write 0 (some [7]) 0 1]

/-- The first save is lost with the reboot, or lands in the file open as descriptor 0. -/
theorem wifi_first_save_lost :
    Mounted freshMount.solid ∧
    afterReboot (shellSaveWifiCredentials sectorDriver freshMount.solid
      (some shortCredentials.ssid) (some shortCredentials.pass)) 64 96 = none ∧
    contents oneFileOpen oneByteName = some [7] ∧
    contents (shellSaveWifiCredentials sectorDriver oneFileOpen
      (some shortCredentials.ssid) (some shortCredentials.pass)) oneByteName = some shortText ∧
    afterReboot (shellSaveWifiCredentials sectorDriver oneFileOpen
      (some shortCredentials.ssid) (some shortCredentials.pass)) 64 96 = none := by
  refine ⟨volume_freshMount.toMounted, ?_, ?_, ?_, ?_⟩ <;> decide +kernel

end AlJefra.Kernel.Fs
