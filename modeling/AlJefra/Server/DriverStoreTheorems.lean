/-
Which recommendations can be downloaded. The catalogue is what any list of uploads leaves of the
empty store, refused ones included. A recommendation is downloaded as the package its row was made
from exactly if the row is not one of architecture "any", its name and version can be sent as
headers and no later upload that the database refused has left another file in its place.
-/
import AlJefra.Server.DriverStore

namespace AlJefra.Server

open AlJefra.Lib Option

variable {env : ServerEnv}

/-! ## Identifiers and architectures -/

def HexId (s : PyStr) : Prop :=
  s.length = 4 ∧ ∀ c ∈ s, (0x30 ≤ c.val ∧ c.val ≤ 0x39) ∨ (0x61 ≤ c.val ∧ c.val ≤ 0x66)

theorem hexDigit_range {d : Nat} (h : d < 16) :
    (0x30 ≤ (hexDigit d).val ∧ (hexDigit d).val ≤ 0x39) ∨
      (0x61 ≤ (hexDigit d).val ∧ (hexDigit d).val ≤ 0x66) := by
  by_cases hd : d < 10
  · have hval : (hexDigit d).val = 0x30 + d := by rw [hexDigit, dif_pos hd]
    omega
  · have hval : (hexDigit d).val = 0x57 + d := by rw [hexDigit, dif_neg hd, dif_pos h]
    omega

theorem hexId_hex04 (n : Nat) : HexId (hex04 n) := by
  refine ⟨rfl, ?_⟩
  intro c hc
  simp only [hex04, List.mem_cons, List.not_mem_nil, or_false] at hc
  rcases hc with rfl | rfl | rfl | rfl
  all_goals exact hexDigit_range (Nat.mod_lt _ (by decide))

def isPlain (c : CodePoint) : Bool :=
  (0x30 ≤ c.val && c.val ≤ 0x39) || (0x61 ≤ c.val && c.val ≤ 0x7A) || c.val == 0x5F

variable {s vendorId deviceId arch : PyStr} {binary : List UInt8} {added : DriverMeta × List UInt8}
  {upload : Upload} {reply : UploadReply} {uploads : List Upload} {row : DriverRow}

theorem lower_of_plain (h : s.all isPlain = true) : env.lower s = s := by
  have hplain : ∀ c ∈ s, c.val < 0x80 ∧ ¬ (0x41 ≤ c.val ∧ c.val ≤ 0x5A) := by
    intro c hc
    have := List.all_eq_true.mp h c hc
    simp only [isPlain, Bool.or_eq_true, Bool.and_eq_true, decide_eq_true_eq, beq_iff_eq] at this
    omega
  rw [env.lower_ascii s (fun c hc => (hplain c hc).1)]
  conv => rhs; rw [← List.map_id s]
  apply List.map_congr_left
  intro c hc
  rw [asciiLower, dif_neg (hplain c hc).2, id]

theorem slash_not_mem_of_plain (h : s.all isPlain = true) : slash ∉ s := by
  intro hc
  exact absurd (List.all_eq_true.mp h slash hc) (by decide)

theorem HexId.plain (h : HexId s) : s.all isPlain = true := by
  refine List.all_eq_true.mpr ?_
  intro c hc
  have := h.2 c hc
  simp only [isPlain, Bool.or_eq_true, Bool.and_eq_true, decide_eq_true_eq, beq_iff_eq]
  omega

theorem HexId.lower_eq (h : HexId s) : env.lower s = s := lower_of_plain h.plain

theorem HexId.ne_nil (h : HexId s) : s ≠ [] := by
  intro hnil
  have := h.1
  simp [hnil] at this

def archs : List PyStr := [archX86, archAarch64, archRiscv64, archAny]

theorem archStr_mem_archs (code : Nat) : archStr code ∈ archs := by
  unfold archStr
  split <;> simp [archs]

theorem plain_of_mem_archs (h : arch ∈ archs) : arch.all isPlain = true := by
  simp only [archs, List.mem_cons, List.not_mem_nil, or_false] at h
  rcases h with rfl | rfl | rfl | rfl
  all_goals decide

theorem ne_nil_of_mem_archs (h : arch ∈ archs) : arch ≠ [] := by
  rintro rfl
  revert h
  decide

theorem lower_arch (h : arch ∈ archs) : env.lower arch = arch :=
  lower_of_plain (plain_of_mem_archs h)

theorem served_iff (h : arch ∈ archs) :
    (arch ≠ archX86 ∧ arch ≠ archAarch64 ∧ arch ≠ archRiscv64) ↔ arch = archAny := by
  simp only [archs, List.mem_cons, List.not_mem_nil, or_false] at h
  rcases h with rfl | rfl | rfl | rfl
  all_goals decide

/-! ## The accepted uploads -/

variable (env) in
def accepted (uploads : List Upload) : List (DriverMeta × List UInt8) :=
  uploads.filterMap fun upload => (parseUpload env upload).toOption

def metaKey (added : DriverMeta × List UInt8) : PyStr × PyStr × PyStr :=
  (added.1.vendorId, added.1.deviceId, added.1.arch)

def CatalogKey (vendorId deviceId arch : PyStr) : Prop :=
  HexId vendorId ∧ HexId deviceId ∧ arch ∈ archs

theorem parsePackage_ok {extra : Extra} (h : parsePackage env binary extra = .ok added) :
    ∃ version, added = (packageMeta env binary version, binary) := by
  simp only [parsePackage] at h
  split at h
  · cases h
  · split at h
    · cases h
    · split at h
      · cases h
      · next version _ => exact ⟨version, (Except.ok.inj h).symm⟩

theorem parseUpload_ok (h : parseUpload env upload = .ok added) :
    ∃ binary version, added = (packageMeta env binary version, binary) := by
  cases upload with
  | multipart file metadata => exact ⟨file, parsePackage_ok h⟩
  | octetStream data => exact ⟨data, @parsePackage_ok env data added .noVersion h⟩
  | other => cases h

theorem accepted_cons (upload : Upload) (uploads : List Upload) :
    accepted env (upload :: uploads) = accepted env [upload] ++ accepted env uploads :=
  List.filterMap_append (l := [upload])

theorem accepted_of_ok (h : parseUpload env upload = .ok added) :
    accepted env [upload] = [added] := by
  simp [accepted, h, Except.toOption]

theorem accepted_of_error (h : parseUpload env upload = .error reply) :
    accepted env [upload] = [] := by
  simp [accepted, h, Except.toOption]

theorem catalogKey_of_accepted (h : added ∈ accepted env uploads) :
    CatalogKey added.1.vendorId added.1.deviceId added.1.arch := by
  simp only [accepted, List.mem_filterMap] at h
  obtain ⟨upload, -, hok⟩ := h
  cases hparse : parseUpload env upload with
  | error reply => simp [hparse, Except.toOption] at hok
  | ok parsed =>
    obtain rfl : parsed = added := by simpa [hparse, Except.toOption] using hok
    obtain ⟨binary, version, rfl⟩ := parseUpload_ok hparse
    exact ⟨hexId_hex04 _, hexId_hex04 _, archStr_mem_archs _⟩

variable (env) in
def writtenFile (added : DriverMeta × List UInt8) : PyStr × List UInt8 :=
  (driverPath env added.1.vendorId added.1.deviceId added.1.arch, added.2)

def versioned (added : DriverMeta × List UInt8) : Bool := added.1.version.isSome

variable (env) in
def writtenRow (added : DriverMeta × List UInt8) : DriverRow :=
  driverRow env (completed env added.1 added.2) (added.1.version.getD [])

variable (env) in
/-- The store after these packages were added. -/
def Store.written (s : Store) (added : List (DriverMeta × List UInt8)) : Store where
  drivers := run (upsert DriverRow.key) s.drivers ((added.filter versioned).map (writtenRow env))
  files := run (upsert Prod.fst) s.files (added.map (writtenFile env))

theorem addDriver_eq (s : Store) (m : DriverMeta) (binary : List UInt8) :
    (addDriver env s m binary).1 = s.written env [(m, binary)] := by
  cases hversion : m.version with
  | none =>
    simp [addDriver, upsertDriver, completed, DriverMeta.fillDownloadUrl, Store.written, versioned,
      writtenFile, hversion]
  | some version =>
    simp [addDriver, upsertDriver, completed, DriverMeta.fillDownloadUrl, Store.written, versioned,
      writtenRow, writtenFile, hversion]

theorem uploadDriver_of_ok (s : Store) (h : parseUpload env upload = .ok added) :
    (uploadDriver env s upload).1 = (addDriver env s added.1 added.2).1 := by
  simp only [uploadDriver, h]
  split <;> simp_all

theorem uploadDriver_of_error (s : Store) (h : parseUpload env upload = .error reply) :
    (uploadDriver env s upload).1 = s := by
  simp only [uploadDriver, h]

theorem uploadDriver_eq (s : Store) (upload : Upload) :
    (uploadDriver env s upload).1 = s.written env (accepted env [upload]) := by
  cases h : parseUpload env upload with
  | error reply => rw [uploadDriver_of_error s h, accepted_of_error h]; rfl
  | ok added => rw [uploadDriver_of_ok s h, accepted_of_ok h, addDriver_eq]

theorem serve_eq (uploads : List Upload) (s : Store) :
    serve env s uploads = s.written env (accepted env uploads) := by
  induction uploads generalizing s with
  | nil => rfl
  | cons upload uploads ih =>
    rw [serve, run_cons, ← serve, ih, uploadDriver_eq, accepted_cons upload uploads]
    simp only [Store.written, List.filter_append, List.map_append, run_append]

/-! ## Paths and URLs -/

theorem driverPath_inj {v d a v' d' a' : PyStr} (hk : CatalogKey v d a)
    (hk' : CatalogKey v' d' a') :
    driverPath env v d a = driverPath env v' d' a' ↔ (v, d, a) = (v', d', a') := by
  obtain ⟨hv, hd, -⟩ := hk
  obtain ⟨hv', hd', -⟩ := hk'
  constructor
  · intro h
    simp only [driverPath, hv.lower_eq, hd.lower_eq, hv'.lower_eq, hd'.lower_eq] at h
    obtain ⟨ha, htail⟩ := List.append_inj' h (by simp [hv.1, hd.1, hv'.1, hd'.1])
    simp only [List.append_assoc, List.append_cancel_left_eq] at htail
    obtain ⟨hvv, htail⟩ := List.append_inj htail (by rw [hv.1, hv'.1])
    rw [List.append_cancel_left_eq] at htail
    obtain ⟨hdd, -⟩ := List.append_inj htail (by rw [hd.1, hd'.1])
    rw [ha, hvv, hdd]
  · intro h
    obtain ⟨rfl, rfl, rfl⟩ := h
    rfl

theorem get_downloadUrl (s : Store) (m : DriverMeta)
    (hk : CatalogKey m.vendorId m.deviceId m.arch) :
    get env s m.fillDownloadUrl.downloadUrl = getDriver env s m.vendorId m.deviceId m.arch := by
  obtain ⟨hv, hd, ha⟩ := hk
  have hsplit : m.fillDownloadUrl.downloadUrl.splitOn slash
      = [[], PyStr.ofString "v1", PyStr.ofString "drivers", m.vendorId, m.deviceId, m.arch] := by
    have hurl : m.fillDownloadUrl.downloadUrl = [slash].intercalate
        [[], PyStr.ofString "v1", PyStr.ofString "drivers", m.vendorId, m.deviceId, m.arch] := by
      have hroot : PyStr.ofString "/v1/drivers/"
          = [slash] ++ PyStr.ofString "v1" ++ [slash] ++ PyStr.ofString "drivers" ++ [slash] := by
        decide
      simp [DriverMeta.fillDownloadUrl, hroot, List.intercalate]
    rw [hurl]
    refine List.splitOn_intercalate slash ?_ (by simp)
    intro segment hsegment
    simp only [List.mem_cons, List.not_mem_nil, or_false] at hsegment
    rcases hsegment with rfl | rfl | rfl | rfl | rfl | rfl
    · simp
    · decide
    · decide
    · exact slash_not_mem_of_plain hv.plain
    · exact slash_not_mem_of_plain hd.plain
    · exact slash_not_mem_of_plain (plain_of_mem_archs ha)
  simp only [get, hsplit, true_and]
  rw [if_pos ⟨hv.ne_nil, hd.ne_nil, ne_nil_of_mem_archs ha⟩]

/-! ## What the store holds -/

variable (env) in
/-- The upload that the row with this key was made from. -/
def stored (uploads : List Upload) (k : PyStr × PyStr × PyStr) : Option (DriverMeta × List UInt8) :=
  latest metaKey k ((accepted env uploads).filter versioned)

variable (env) in
/-- The file of this key; an upload whose version the database refuses leaves one too. -/
def onDisk (uploads : List Upload) (k : PyStr × PyStr × PyStr) : Option (List UInt8) :=
  (latest metaKey k (accepted env uploads)).map Prod.snd

theorem key_writtenRow (hadded : added ∈ accepted env uploads) :
    (writtenRow env added).key = metaKey added := by
  obtain ⟨hv, hd, -⟩ := catalogKey_of_accepted hadded
  simp only [writtenRow, DriverRow.key, driverRow, completed, DriverMeta.fillDownloadUrl, metaKey,
    hv.lower_eq, hd.lower_eq]

theorem findDriver_serve : findDriver env (serve env {} uploads).drivers vendorId deviceId arch
    = (stored env uploads (env.lower vendorId, env.lower deviceId, arch)).map (writtenRow env) := by
  have hsame : ∀ added ∈ (accepted env uploads).filter versioned,
      (writtenRow env added).key = (env.lower vendorId, env.lower deviceId, arch)
        ↔ metaKey added = (env.lower vendorId, env.lower deviceId, arch) :=
    fun added hadded => by rw [key_writtenRow (List.mem_of_mem_filter hadded)]
  rw [findDriver, serve_eq, Store.written, lookup_run_upsert, stored, latest_map hsame]
  exact or_none

theorem findDriver_key {drivers : List DriverRow}
    (h : findDriver env drivers vendorId deviceId arch = some row) :
    row.key = (env.lower vendorId, env.lower deviceId, arch) := by
  simpa using List.find?_some h

theorem getDriverBinary_serve (hk : CatalogKey vendorId deviceId arch) :
    getDriverBinary env (serve env {} uploads) vendorId deviceId arch
      = onDisk env uploads (vendorId, deviceId, arch) := by
  rw [getDriverBinary, serve_eq, Store.written, lookup_run_upsert, onDisk]
  simp only [lookup, List.find?_nil, or_none]
  have hsame : ∀ added ∈ accepted env uploads,
      (writtenFile env added).1 = driverPath env vendorId deviceId arch
        ↔ metaKey added = (vendorId, deviceId, arch) :=
    fun added hadded => driverPath_inj (catalogKey_of_accepted hadded) hk
  rw [latest_map hsame, map_map]
  rfl

theorem stored_eq_some {k : PyStr × PyStr × PyStr} (h : stored env uploads k = some added) :
    metaKey added = k ∧ added ∈ accepted env uploads ∧ added.1.version.isSome := by
  have hkey : metaKey added = k := by simpa using List.find?_some h
  have hmem := List.mem_filter.mp (List.mem_reverse.mp (List.mem_of_find?_eq_some h))
  exact ⟨hkey, hmem⟩

theorem catalogKey_of_stored (h : stored env uploads (vendorId, deviceId, arch) = some added) :
    CatalogKey vendorId deviceId arch := by
  obtain ⟨hkey, hmem, -⟩ := stored_eq_some h
  obtain ⟨rfl, rfl, rfl⟩ := hkey
  exact catalogKey_of_accepted hmem

/-! ## Downloads -/

theorem getDriver_any (s : Store) (vendorId deviceId : PyStr) :
    getDriver env s vendorId deviceId archAny
      = .error 400 (PyStr.ofString "Unknown architecture: " ++ archAny) [] := by
  have hmem : archAny ∈ archs := by decide
  simp only [getDriver, lower_arch hmem]
  rw [if_pos ((served_iff hmem).mpr rfl)]

theorem getDriver_package_iff (h : stored env uploads (vendorId, deviceId, arch) = some added)
    (hany : arch ≠ archAny) :
    (∃ filename name version sha256, getDriver env (serve env {} uploads) vendorId deviceId arch
      = .package added.2 filename name version sha256) ↔
    onDisk env uploads (vendorId, deviceId, arch) = some added.2 ∧
      env.headersOk added.1.name added.1.version = true := by
  have hk := catalogKey_of_stored h
  obtain ⟨hkey, hmem, hversion⟩ := stored_eq_some h
  obtain ⟨version, hversion⟩ := isSome_iff_exists.mp hversion
  obtain ⟨last, hlast⟩ := isSome_iff_exists.mp (latest_isSome_iff.mpr ⟨added, hmem, hkey⟩)
  have hdisk : onDisk env uploads (vendorId, deviceId, arch) = some last.2 := by
    rw [onDisk, hlast, map_some]
  have hrow := @findDriver_serve env vendorId deviceId arch uploads
  rw [hk.1.lower_eq, hk.2.1.lower_eq, h, map_some] at hrow
  simp only [getDriver, hk.1.lower_eq, hk.2.1.lower_eq, lower_arch hk.2.2, find, hrow,
    (getDriverBinary_serve hk).trans hdisk, map_some, driverRowToMeta, writtenRow, driverRow,
    completed,
    DriverMeta.fillDownloadUrl, hversion, getD_some, hdisk]
  rw [if_neg (fun hnone => hany ((served_iff hk.2.2).mp hnone))]
  cases env.headersOk added.1.name (some version) with
  | true | false => simp

/-! ## Recommendations -/

theorem findForDevice_serve : findForDevice env (serve env {} uploads) vendorId deviceId arch
    = ((stored env uploads (env.lower vendorId, env.lower deviceId, arch)).or
        (stored env uploads (env.lower vendorId, env.lower deviceId, archAny))).map
      fun added => driverRowToMeta (writtenRow env added) := by
  simp only [findForDevice, findDriverWithFallback, findDriver_serve]
  cases stored env uploads (env.lower vendorId, env.lower deviceId, arch) <;>
    simp [Function.comp_def]

theorem key_recommended (h : stored env uploads (vendorId, deviceId, arch) = some added) :
    ((driverRowToMeta (writtenRow env added)).vendorId,
      (driverRowToMeta (writtenRow env added)).deviceId,
      (driverRowToMeta (writtenRow env added)).arch) = (vendorId, deviceId, arch) := by
  obtain ⟨hkey, hmem, -⟩ := stored_eq_some h
  exact (key_writtenRow hmem).trans hkey

theorem get_recommended (s : Store)
    (h : stored env uploads (vendorId, deviceId, arch) = some added) :
    get env s (driverRowToMeta (writtenRow env added)).fillDownloadUrl.downloadUrl
      = getDriver env s vendorId deviceId arch := by
  have hkey := key_recommended h
  have hk := catalogKey_of_stored h
  simp only [Prod.mk.injEq] at hkey
  obtain ⟨rfl, rfl, rfl⟩ := hkey
  exact get_downloadUrl s _ hk

variable (env) in
/-- The recommended row is downloaded as the package it was made from. -/
def Downloadable (uploads : List Upload) (manifest : HardwareManifest) (dev : ManifestDevice)
    (rec : Recommendation) : Prop :=
  ∃ m added filename name version sha256,
    findForDevice env (serve env {} uploads) dev.vendor dev.device manifest.arch = some m ∧
    stored env uploads (m.vendorId, m.deviceId, m.arch) = some added ∧
    get env (serve env {} uploads) rec.downloadUrl = .package added.2 filename name version sha256

variable (env) in
/-- Every recommendation for the device can be downloaded. -/
def AllDownloadable (uploads : List Upload) (manifest : HardwareManifest) (dev : ManifestDevice) :
    Prop :=
  ∀ rec, recommend env (serve env {} uploads) dev.vendor dev.device manifest.arch dev.hasDriver
    = some rec → Downloadable env uploads manifest dev rec

theorem allDownloadable_iff_get {manifest : HardwareManifest} {dev : ManifestDevice}
    (h : (stored env uploads (env.lower dev.vendor, env.lower dev.device, manifest.arch)).or
      (stored env uploads (env.lower dev.vendor, env.lower dev.device, archAny)) = some added)
    (hadded : stored env uploads (vendorId, deviceId, arch) = some added) :
    AllDownloadable env uploads manifest dev ↔ ∃ filename name version sha256,
      getDriver env (serve env {} uploads) vendorId deviceId arch
        = .package added.2 filename name version sha256 := by
  have hfind := @findForDevice_serve env dev.vendor dev.device manifest.arch uploads
  rw [h, map_some] at hfind
  simp only [AllDownloadable, Downloadable, recommend, hfind, bind_eq_bind, bind_some, pure_def,
    Option.some.injEq, forall_eq', exists_and_left, exists_eq_left', key_recommended hadded, hadded,
    get_recommended _ hadded]

/-- Everything recommended can be downloaded exactly if every device with a driver for "any" has
one for the client's architecture, whose file was not replaced and whose name and version can be
sent. -/
theorem recommend_downloadable_iff (env : ServerEnv) (uploads : List Upload)
    (manifest : HardwareManifest) :
    (∀ dev ∈ manifest.devices, AllDownloadable env uploads manifest dev) ↔
    ∀ dev ∈ manifest.devices,
      ((stored env uploads (env.lower dev.vendor, env.lower dev.device, archAny)).isSome →
        manifest.arch ≠ archAny ∧
          (stored env uploads (env.lower dev.vendor, env.lower dev.device, manifest.arch)).isSome) ∧
      ∀ added, stored env uploads (env.lower dev.vendor, env.lower dev.device, manifest.arch)
          = some added →
        onDisk env uploads (env.lower dev.vendor, env.lower dev.device, manifest.arch)
          = some added.2 ∧ env.headersOk added.1.name added.1.version = true := by
  refine forall₂_congr fun dev _ => ?_
  cases hexact : stored env uploads (env.lower dev.vendor, env.lower dev.device, manifest.arch) with
  | some added =>
    rw [allDownloadable_iff_get (by rw [hexact]; rfl) hexact]
    by_cases hany : manifest.arch = archAny
    · rw [hany] at hexact ⊢
      simp [hexact, getDriver_any]
    · simp [getDriver_package_iff hexact hany, hany]
  | none =>
    cases hany : stored env uploads (env.lower dev.vendor, env.lower dev.device, archAny) with
    | some added =>
      rw [allDownloadable_iff_get (by rw [hexact, hany]; rfl) hany]
      simp [getDriver_any]
    | none =>
      have hnone := @findForDevice_serve env dev.vendor dev.device manifest.arch uploads
      rw [hexact, hany] at hnone
      simp [AllDownloadable, recommend, hnone]

def asciiEnv : ServerEnv where
  lower s := s.map asciiLower
  lower_ascii _ _ := rfl
  decode _ := []
  sha256Hex _ := []
  headersOk _ _ := true

def anyPackage : List UInt8 :=
  [0x41, 0x4A, 0x44, 0x56, 1, 0, 0, 0, 0xFF, 0, 0, 0] ++ List.replicate 116 0

theorem parseUpload_anyPackage : parseUpload asciiEnv (.octetStream anyPackage)
    = .ok (packageMeta asciiEnv anyPackage (some (PyStr.ofString "1.0.0")), anyPackage) := by
  have hlength : ¬ anyPackage.length < 64 + 64 := by simp [anyPackage]
  have hmagic : ¬ (headerField anyPackage 0 4 : Int) ≠ ajdrvMagic := by decide
  simp only [parseUpload, parsePackage, Extra.getVersion]
  rw [if_neg hlength, if_neg hmagic]

theorem recommend_any_refused :
    ∃ rec, recommend asciiEnv (serve asciiEnv {} [.octetStream anyPackage]) (hex04 0) (hex04 0)
        archX86 false = some rec ∧
      get asciiEnv (serve asciiEnv {} [.octetStream anyPackage]) rec.downloadUrl
        = .error 400 (PyStr.ofString "Unknown architecture: " ++ archAny) [] := by
  have hx86 : stored asciiEnv [.octetStream anyPackage] (hex04 0, hex04 0, archX86) = none := by
    rw [stored, accepted_of_ok parseUpload_anyPackage]
    rfl
  have hany : stored asciiEnv [.octetStream anyPackage] (hex04 0, hex04 0, archAny)
      = some (packageMeta asciiEnv anyPackage (some (PyStr.ofString "1.0.0")), anyPackage) := by
    rw [stored, accepted_of_ok parseUpload_anyPackage]
    rfl
  have hfind := @findForDevice_serve asciiEnv (hex04 0) (hex04 0) archX86 [.octetStream anyPackage]
  rw [(hexId_hex04 0).lower_eq, hx86, hany] at hfind
  refine ⟨_, by rw [recommend, hfind]; rfl, ?_⟩
  exact (get_recommended _ hany).trans (getDriver_any _ _ _)

end AlJefra.Server
