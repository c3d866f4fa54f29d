/- When `hal_mmu_map` and `hal_mmu_unmap` meet their contracts on aarch64. -/
import AlJefra.Arch.Aarch64LoopTheorems

namespace AlJefra.Arch.Aarch64

open AlJefra.Lib AlJefra.Hal List UInt64 Option
open AlJefra.Arch.X86 (HalMemType)

/-! ## Only the identity -/

variable {s t : MmuState} {a desc size virt : UInt64} {tr : Translation} {τ : Type} {j : Fin 512}

theorem isBlock_cell (hwf : WellFormed s) {k : Key} (h : bit (cell s k) 0 = true) :
    IsBlock k (cell s k) := by
  obtain ⟨i, j, l⟩ := k
  by_cases hmiss : Missing s [i, j]
  · rw [cell_missing hmiss, bit_zero] at h
    cases h
  · obtain ⟨p, hp⟩ := ne_none_iff_exists'.mp hmiss
    have hp' : s.Table [i, j] p := hp
    rw [cell_table hp'] at h ⊢
    exact hwf.blocks i j l p hp' h

theorem phys_throughBlock (h : IsBlock (key a) desc) (ha : a.toNat < 2 ^ 48)
    (htr : throughBlock [] desc 21 a = some tr) : tr.phys = a.toNat := by
  unfold throughBlock at htr
  split at htr
  · unfold through at htr
    rw [if_neg (by simp [h.af])] at htr
    obtain rfl := some.inj htr
    have hout := h.output
    rw [number_key] at hout
    simp only [hout]
    omega
  · cases htr

theorem throughBlock_ne_none (h : IsBlock (key a) desc) (h0 : bit desc 0 = true) :
    ∃ tr, throughBlock [] desc 21 a = some tr := by
  unfold throughBlock through
  rw [if_pos ⟨h0, by simp [h.block]⟩, if_neg (by simp [h.af])]
  exact ⟨_, rfl⟩

theorem translate_identity (hwf : WellFormed s) (h : translate s a = some tr) :
    a.toNat < 2 ^ 48 ∧ tr.phys = a.toNat := by
  rw [translate_eq hwf] at h
  split at h
  · rename_i ha
    have h0 : bit (cell s (key a)) 0 = true := by
      by_contra hno
      rw [throughBlock, if_neg fun hb => hno hb.1] at h
      cases h
    exact ⟨ha, phys_throughBlock (isBlock_cell hwf h0) ha h⟩
  · cases h

/-! ## Mapping -/

section Map

variable {τ : Type} (view : Translation → τ)

structure MapContract (s t : MmuState) (virt phys size : UInt64) : Prop where
  inside : ∀ a, InSpan virt size a →
    (translate t a).map Translation.phys = some (phys.toNat + (a - virt).toNat)
  outside : ∀ a, ¬ InSpan virt size a → (translate t a).map view = (translate s a).map view

def blockAt (attr a : UInt64) : Option Translation := throughBlock [] (blockDesc a attr) 21 a
def visited (virt phys size : UInt64) : List UInt64 := visits (virt + size) (2 ^ 52) virt phys

structure Mappable (s : MmuState) (virt phys size attr : UInt64) : Prop where
  identity : virt = phys
  below : virt.toNat + size.toNat ≤ 2 ^ 48
  edges : ∀ a b, InSpan virt size b → ¬ InSpan virt size a →
    a.toNat / 2097152 = b.toNat / 2097152 →
    (translate s a).map view = (blockAt attr a).map view
  room : Room s ((visited virt phys size).flatMap tables)

def MapOk (s : MmuState) (virt phys size : UInt64) (perms : UInt32) (type : HalMemType) : Prop :=
  size ≠ 0 → Mappable view s virt phys size (attrBits perms type)

end Map

theorem blockDesc_congr {b : UInt64} (attr : UInt64) (h : a.toNat / 2097152 = b.toNat / 2097152) :
    blockDesc a attr = blockDesc b attr := by
  have hround : a &&& ~~~0x1FFFFF = b &&& ~~~0x1FFFFF := by
    refine UInt64.toNat_inj.mp ?_
    rw [toNat_and_high (n := 21) (by decide), toNat_and_high (n := 21) (by decide)]
    omega
  unfold blockDesc
  rw [hround]

theorem phys_blockAt {attr : UInt64} (hattr : AttrOk attr) (ha : a.toNat < 2 ^ 48) :
    (blockAt attr a).map Translation.phys = some a.toNat := by
  have hblock := isBlock_blockDesc a hattr
  obtain ⟨tr, htr⟩ := throughBlock_ne_none hblock (bit_blockDesc_zero a attr)
  rw [blockAt, htr, map_some, phys_throughBlock hblock ha htr]

section Range

variable {virt phys size : UInt64} (hv : virt.toNat % 4096 = 0) (hs : size.toNat % 4096 = 0)
  {a b : UInt64}

theorem inSpan_iff_of_le (hle : virt.toNat + size.toNat ≤ 2 ^ 48) :
    InSpan virt size a ↔ virt.toNat ≤ a.toNat ∧ a.toNat < virt.toNat + size.toNat := by
  rw [inSpan_iff, toNat_offset]
  split <;> omega

include hv hs

theorem halMmuMap_eq (s : MmuState) (hp : phys.toNat % 4096 = 0) (perms : UInt32)
    (type : HalMemType) : halMmuMap s virt phys size perms type =
      some (.ok, mapAll (attrBits perms type) s (visited virt phys size)) := by
  have hlt := (virt + size).toNat_lt
  have hstop : (virt + size).toNat % 4096 = 0 := by
    rw [UInt64.toNat_add]
    omega
  rw [halMmuMap, mapLoop_eq hstop _ _ _ _ hv hp (by omega)]
  rfl

variable (hle : virt.toNat + size.toNat ≤ 2 ^ 48)

include hle

theorem mem_visited {p : UInt64} (hp : p ∈ visited virt virt size) : InSpan virt size p := by
  have hsum : (virt + size).toNat = virt.toNat + size.toNat := by
    rw [UInt64.toNat_add]
    omega
  obtain ⟨o, ho, heq⟩ := mem_visits (by rw [hsum]; omega) _ _ _ hv hv p hp
  rw [inSpan_iff_of_le hle]
  omega

theorem visited_cover (hb : InSpan virt size b) :
    ∃ p ∈ visited virt virt size, p.toNat / 2097152 = b.toNat / 2097152 := by
  have hsum : (virt + size).toNat = virt.toNat + size.toNat := by
    rw [UInt64.toNat_add]
    omega
  rw [inSpan_iff_of_le hle] at hb
  obtain ⟨p, hp, heq⟩ := visits_cover (by rw [hsum]; omega) (2 ^ 52) virt virt hv hv (by omega)
    (b.toNat - virt.toNat) (by omega)
  exact ⟨p, hp, by omega⟩

variable {s : MmuState} (hwf : WellFormed s) {attr : UInt64} (hattr : AttrOk attr)
  (hroom : Room s ((visited virt virt size).flatMap tables))

include hwf hattr hroom

theorem translate_touched (hb : InSpan virt size b) (hab : a.toNat / 2097152 = b.toNat / 2097152) :
    translate (mapAll attr s (visited virt virt size)) a = blockAt attr a := by
  have hlt : b.toNat < 2 ^ 48 := by
    rw [inSpan_iff_of_le hle] at hb
    omega
  rw [translate_eq (mapAll_keeps hattr _ s hwf), if_pos (by omega),
    mapAll_cells hattr _ s hwf hroom,
    store_of_mem (v := blockDesc a attr)]
  · rfl
  · obtain ⟨p, hp, heq⟩ := visited_cover hv hs hle hb
    exact ⟨_, mem_map.mpr ⟨p, hp, rfl⟩, key_eq_iff.mpr (by rw [heq, hab])⟩
  · intro w hw hkey
    obtain ⟨p, hp, rfl⟩ := mem_map.mp hw
    have hpin := (inSpan_iff_of_le hle).mp (mem_visited hv hs hle hp)
    refine blockDesc_congr attr ?_
    have hnum := key_eq_iff.mp hkey
    omega

theorem translate_untouched (ha : ∀ b, InSpan virt size b → a.toNat / 2097152 ≠ b.toNat / 2097152) :
    translate (mapAll attr s (visited virt virt size)) a = translate s a := by
  rw [translate_eq (mapAll_keeps hattr _ s hwf), translate_eq hwf]
  by_cases hlt : a.toNat < 2 ^ 48
  · rw [if_pos hlt, if_pos hlt, mapAll_cells hattr _ s hwf hroom, store_of_not_mem]
    intro w hw hkey
    obtain ⟨p, hp, rfl⟩ := mem_map.mp hw
    have hpin := mem_visited hv hs hle hp
    have hbound := (inSpan_iff_of_le hle).mp hpin
    have hnum := key_eq_iff.mp hkey
    exact ha p hpin (by omega)
  · rw [if_neg hlt, if_neg hlt]

end Range

theorem mapContract_iff (view : Translation → τ) (hwf : WellFormed s) {phys : UInt64}
    (hv : virt.toNat % 4096 = 0) (hs : size.toNat % 4096 = 0) (perms : UInt32) (type : HalMemType) :
    MapContract view s (mapAll (attrBits perms type) s (visited virt phys size)) virt phys size ↔
      MapOk view s virt phys size perms type := by
  have hattr := attrOk_attrBits perms type
  have hwf' := mapAll_keeps hattr (visited virt phys size) s hwf
  constructor
  · intro h hsize
    have hpos : 0 < size.toNat := by
      refine Nat.pos_of_ne_zero fun h0 => hsize (UInt64.toNat_inj.mp ?_)
      rw [h0]
      rfl
    -- an address of the range translates to itself
    have hid : ∀ a, InSpan virt size a →
        a.toNat < 2 ^ 48 ∧ phys.toNat + (a - virt).toNat = a.toNat := by
      intro a ha
      obtain ⟨tr, htr, hphys⟩ := map_eq_some_iff.mp (h.inside a ha)
      obtain ⟨hlt, heq⟩ := translate_identity hwf' htr
      exact ⟨hlt, by rw [← hphys, heq]⟩
    have hfirst : InSpan virt size virt := by
      rw [inSpan_iff, UInt64.sub_self]
      exact hpos
    obtain ⟨hlow, heq⟩ := hid virt hfirst
    rw [UInt64.sub_self] at heq
    obtain rfl : phys = virt := UInt64.toNat_inj.mp heq
    have hle : phys.toNat + size.toNat ≤ 2 ^ 48 := by
      by_contra hover
      have hval : (0x1000000000000 : UInt64).toNat = 2 ^ 48 := rfl
      have hbad := (hid 0x1000000000000 (by
        rw [inSpan_iff, toNat_offset, hval, if_pos (by omega)]
        omega)).1
      exact absurd hbad (Nat.lt_irrefl _)
    have hroom : Room s ((visited phys phys size).flatMap tables) := by
      by_contra hno
      obtain ⟨p, hp, hmiss⟩ := mapAll_no_room hattr _ s hwf hno
      have hin := h.inside p (mem_visited hv hs hle hp)
      rw [translate_eq hwf', key, cell_missing hmiss] at hin
      split at hin <;> cases hin
    refine ⟨rfl, hle, fun a b hb ha hab => ?_, hroom⟩
    rw [← h.outside a ha, translate_touched hv hs hle hwf hattr hroom hb hab]
  · intro h
    by_cases hsize : size = 0
    · -- an empty range: the loop does not run
      subst hsize
      have hempty : visited virt phys 0 = [] := by
        unfold visited
        rw [UInt64.add_zero]
        exact visits_of_not_lt (UInt64.lt_irrefl _) _ _
      rw [hempty]
      refine ⟨fun a ha => absurd ha (UInt64.not_lt_zero), fun a _ => rfl⟩
    · obtain ⟨rfl, hle, hedges, hroom⟩ := h hsize
      refine ⟨fun a ha => ?_, fun a ha => ?_⟩
      · have hbound := (inSpan_iff_of_le hle).mp ha
        rw [translate_touched hv hs hle hwf hattr hroom ha rfl, phys_blockAt hattr (by omega),
          toNat_offset, if_pos hbound.1]
        congr 1
        omega
      · by_cases htouched : ∃ b, InSpan virt size b ∧ a.toNat / 2097152 = b.toNat / 2097152
        · obtain ⟨b, hb, hab⟩ := htouched
          rw [translate_touched hv hs hle hwf hattr hroom hb hab, hedges a b hb ha hab]
        · rw [translate_untouched hv hs hle hwf hattr hroom fun b hb hab => htouched ⟨b, hb, hab⟩]

/-! ## Unmapping -/

structure UnmapContract {τ : Type} (view : Translation → τ) (s t : MmuState)
    (virt size : UInt64) : Prop where
  inside : ∀ a, InSpan virt size a → translate t a = none
  outside : ∀ a, ¬ InSpan virt size a → (translate t a).map view = (translate s a).map view

def Cleared (s : MmuState) (virt size a : UInt64) : Prop :=
  ¬ Missing s [l0Index virt, l1Index virt] ∧ l0Index a = l0Index virt ∧
    l1Index a = l1Index virt ∧ l2Index a ∈ strides (strideCount virt size) virt

def UnmapOk (s : MmuState) (virt size : UInt64) : Prop :=
  ∀ a, translate s a ≠ none → (InSpan virt size a ↔ Cleared s virt size a)

theorem halMmuUnmap_eq (hwf : WellFormed s) (virt size : UInt64) :
    (Missing s [l0Index virt, l1Index virt] ∧ halMmuUnmap s virt size = some (.ok, s)) ∨
      ∃ l2, s.Table [l0Index virt, l1Index virt] l2 ∧ halMmuUnmap s virt size =
        (unmapLoop l2 (virt + size) (2 ^ 52) s virt).map fun s => (.ok, s) := by
  have hvalid : ∀ q, ¬ pointerDesc q &&& pteValid = 0 := by
    intro q
    rw [and_pteValid, bit_pointerDesc]
    simp
  unfold halMmuUnmap
  rcases hwf.entry (π := []) (p := s.ptPool) rfl (by simp) (l0Index virt) with
    ⟨h0, hmiss⟩ | ⟨l1, hl1, hdesc, ht⟩
  · exact .inl ⟨missing_below hmiss _, if_neg (not_not.mpr (and_pteValid.mpr h0))⟩
  · rw [hdesc, if_pos (hvalid l1), and_pointerDesc hl1]
    simp only
    rcases hwf.entry ht (by simp) (l1Index virt) with ⟨h0, hmiss⟩ | ⟨l2, hl2, hdesc', ht'⟩
    · exact .inl ⟨hmiss, if_neg (not_not.mpr (and_pteValid.mpr h0))⟩
    · rw [hdesc', if_pos (hvalid l2), and_pointerDesc hl2]
      exact .inr ⟨l2, ht', rfl⟩

theorem halMmuUnmap_spec {st : HalStatus} (hwf : WellFormed s)
    (h : halMmuUnmap s virt size = some (st, t)) :
    st = .ok ∧ WellFormed t ∧ ∀ a, (Cleared s virt size a → cell t (key a) = 0) ∧
      (¬ Cleared s virt size a → cell t (key a) = cell s (key a)) := by
  rcases halMmuUnmap_eq hwf virt size with ⟨hmiss, heq⟩ | ⟨l2, ht, heq⟩
  · rw [heq] at h
    obtain ⟨rfl, rfl⟩ := Prod.mk.inj (some.inj h)
    exact ⟨rfl, hwf, fun a => ⟨fun hc => absurd hmiss hc.1, fun _ => rfl⟩⟩
  · rw [heq, unmapLoop_range] at h
    split at h
    · cases h
    · obtain ⟨rfl, rfl⟩ := Prod.mk.inj (some.inj h)
      obtain ⟨hwf', hcell⟩ := clearAll_spec (strides (strideCount virt size) virt) s hwf ht
      refine ⟨rfl, hwf', fun a => ⟨fun hc => ?_, fun hc => ?_⟩⟩
      · obtain ⟨-, h0, h1, h2⟩ := hc
        rw [hcell]
        refine store_of_mem _ _ ⟨_, mem_map.mpr ⟨l2Index a, h2, rfl⟩, ?_⟩ ?_
        · rw [key, h0, h1]
        · intro w hw _
          obtain ⟨k, -, rfl⟩ := mem_map.mp hw
          rfl
      · rw [hcell]
        refine store_of_not_mem _ _ fun w hw hkey => hc ?_
        obtain ⟨k, hk, rfl⟩ := mem_map.mp hw
        obtain ⟨h0, h12⟩ := Prod.mk.inj hkey
        obtain ⟨h1, rfl⟩ := Prod.mk.inj h12
        exact ⟨fun hmiss => missing_iff.mp hmiss l2 ht, h0.symm, h1.symm, hk⟩

theorem halMmuUnmap_eq_none_iff (hwf : WellFormed s) (virt size : UInt64) :
    halMmuUnmap s virt size = none ↔
      ¬ Missing s [l0Index virt, l1Index virt] ∧ Endless virt size := by
  rcases halMmuUnmap_eq hwf virt size with ⟨hmiss, heq⟩ | ⟨l2, ht, heq⟩
  · simp [heq, hmiss]
  · have hthere : ¬ Missing s [l0Index virt, l1Index virt] := fun h => missing_iff.mp h l2 ht
    rw [heq, unmapLoop_range]
    by_cases hend : Endless virt size
    · simp [hend, hthere]
    · simp [hend]

theorem unmapContract_iff (view : Translation → τ) (hwf : WellFormed s) (hwf' : WellFormed t)
    (ht : ∀ a, (Cleared s virt size a → cell t (key a) = 0) ∧
      (¬ Cleared s virt size a → cell t (key a) = cell s (key a))) :
    UnmapContract view s t virt size ↔ UnmapOk s virt size := by
  have hcleared : ∀ a, Cleared s virt size a → translate t a = none := by
    intro a ha
    rw [translate_eq hwf', (ht a).1 ha]
    split <;> rfl
  have hkept : ∀ a, ¬ Cleared s virt size a → translate t a = translate s a := by
    intro a ha
    rw [translate_eq hwf', translate_eq hwf, (ht a).2 ha]
  have herases := erases_iff (InSpan virt size) view hcleared hkept
  exact ⟨fun h => herases.mp ⟨h.inside, h.outside⟩, fun h => ⟨(herases.mpr h).1, (herases.mpr h).2⟩⟩

/-! ## The tables of hal_mmu_init -/

structure PoolPlaced (s : MmuState) : Prop where
  aligned : s.ptPool.toNat % 4096 = 0
  inMemory : s.ptPool.toNat + 262144 ≤ 2 ^ 48

theorem wellFormed_cleared (h : PoolPlaced s) :
    WellFormed { s with mem := setPage s.mem s.ptPool fun _ => 0, ptPoolNext := 1 } := by
  have hroot : ∀ π p, Reaches nextTable (setPage s.mem s.ptPool fun _ => 0) s.ptPool π p →
      π = [] ∧ p = s.ptPool := by
    intro π p hp
    cases π with
    | nil => exact ⟨rfl, (some.inj hp).symm⟩
    | cons i π =>
      unfold Reaches follow at hp
      rw [setPage_self, nextTable_invalid (bit_zero 0)] at hp
      cases hp
  refine ⟨h.aligned, h.inMemory, by simp, ?_, ?_, ?_, ?_⟩
  · intro π π' p hp hp'
    rw [(hroot π p hp).1, (hroot π' p hp').1]
  · intro π p hp
    obtain ⟨rfl, rfl⟩ := hroot π p hp
    refine ⟨by simp, 0, Nat.one_pos, ?_⟩
    simp [MmuState.poolPage]
  · intro π p i hp _ h0
    obtain ⟨rfl, rfl⟩ := hroot π p hp
    simp only [setPage_self, bit_zero] at h0
    cases h0
  · intro i j k p hp _
    exact absurd (hroot _ p hp).1 (by simp)

theorem wellFormed_halMmuInit (h : PoolPlaced s) : WellFormed (halMmuInit s) :=
  mapAll_keeps (by decide) _ _ (mapAll_keeps (by decide) _ _
    (mapAll_keeps (by decide) _ _ (wellFormed_cleared h)))

/-! ## Runs of calls -/

inductive MmuOp where
  | map (virt phys size : UInt64) (perms : UInt32) (type : HalMemType)
  | unmap (virt size : UInt64)

def mmuStep (s : MmuState) : MmuOp → MmuState
  | .map virt phys size perms type =>
    ((halMmuMap s virt phys size perms type).map Prod.snd).getD s
  | .unmap virt size => ((halMmuUnmap s virt size).map Prod.snd).getD s

theorem wellFormed_mmuStep (s : MmuState) (op : MmuOp) (hwf : WellFormed s) :
    WellFormed (mmuStep s op) := by
  cases op with
  | map virt phys size perms type =>
    rw [mmuStep, halMmuMap]
    cases h : mapLoop (virt + size) (attrBits perms type) (2 ^ 52) s virt phys with
    | none => exact hwf
    | some t => exact wellFormed_mapLoop (attrOk_attrBits perms type) _ s _ _ hwf h
  | unmap virt size =>
    rw [mmuStep]
    cases h : halMmuUnmap s virt size with
    | none => exact hwf
    | some r => exact (halMmuUnmap_spec hwf h).2.1

abbrev Pages := { a : UInt64 // a.toNat % 4096 = 0 }

/-! ## A machine after boot -/

def coldBoot : MmuState where
  mem := fun _ _ => 0
  ptPool := 0x40100000
  ptPoolNext := 0

theorem poolPlaced_coldBoot : PoolPlaced coldBoot := ⟨by decide, by decide⟩

theorem tables_low (h : a.toNat < 2 ^ 39) (hj : j.val = a.toNat / 2 ^ 30) :
    tables a = [[0], [0, j]] := by
  have h0 : l0Index a = 0 := Fin.ext (by
    rw [show (l0Index a).val = a.toNat / 2 ^ 39 % 512 from
      X86.tableIndex_val (show (39 : UInt64).toNat < 64 by decide) a]
    omega)
  have h1 : l1Index a = j := Fin.ext (by
    rw [show (l1Index a).val = a.toNat / 2 ^ 30 % 512 from
      X86.tableIndex_val (show (30 : UInt64).toNat < 64 by decide) a, hj]
    omega)
  rw [tables, h0, h1]

theorem tables_blockAddrs {start stop : Nat} (hlow : j.val * 2 ^ 30 ≤ start)
    (hhigh : stop ≤ (j.val + 1) * 2 ^ 30) {π : List (Fin 512)}
    (hπ : π ∈ (blockAddrs start stop).flatMap tables) : π = [0] ∨ π = [0, j] := by
  obtain ⟨a, ha, hπ⟩ := mem_flatMap.mp hπ
  obtain ⟨k, hk, rfl⟩ := mem_map.mp ha
  have hk' := mem_range.mp hk
  have hval : ((start + k * 2097152).toUInt64).toNat = start + k * 2097152 :=
    toNat_ofNat_of_lt' (Nat.lt_of_lt_of_le (m := 2 ^ 40) (by omega) (by decide))
  rw [tables_low (by omega) (j := j) (by omega)] at hπ
  simpa using hπ

theorem room_coldBoot {πs : List (List (Fin 512))} (h : ∀ π ∈ πs, π = [0] ∨ π = [0, 1]) :
    Room (halMmuInit coldBoot) πs := by
  have hwf := wellFormed_cleared poolPlaced_coldBoot
  have hdevice : AttrOk (pteAttrDevice ||| pteApRwEl1 ||| ptePxn ||| pteUxn) := by decide
  have hnormal : AttrOk (pteAttrNormal ||| pteApRwEl1) := by decide
  have hwf1 := mapAll_keeps hdevice (blockAddrs 0 0x40000000) _ hwf
  have hwf2 := mapAll_keeps hnormal (blockAddrs 0x40000000 0x50000000) _ hwf1
  refine room_mapAll hdevice πs _ _ hwf2 (room_mapAll hnormal _ _ _ hwf1
    (room_mapAll hdevice _ _ _ hwf ?_))
  refine room_of_subset {[0], [0, 0], [0, 1], [0, 256]} (by decide) fun π hπ => ?_
  simp only [mem_append] at hπ
  rcases hπ with hπ | hπ | hπ | hπ
  · rcases tables_blockAddrs (j := 0) (by decide) (by decide) hπ with rfl | rfl <;> decide
  · rcases tables_blockAddrs (j := 1) (by decide) (by decide) hπ with rfl | rfl <;> decide
  · rcases tables_blockAddrs (j := 256) (by decide) (by decide) hπ with rfl | rfl <;> decide
  · rcases h π hπ with rfl | rfl <;> decide

theorem mapOk_coldBoot : MapOk id (halMmuInit coldBoot) 0x50000000 0x50000000 0x200000 0x3
    .normal := by
  intro _
  have hle : (0x50000000 : UInt64).toNat + (0x200000 : UInt64).toNat ≤ 2 ^ 48 := by decide
  refine ⟨rfl, hle, fun a b hb ha hab => ?_, room_coldBoot fun π hπ => ?_⟩
  · rw [inSpan_iff_of_le hle] at hb ha
    simp only [show (0x50000000 : UInt64).toNat = 0x50000000 from rfl,
      show (0x200000 : UInt64).toNat = 0x200000 from rfl] at hb ha
    omega
  · obtain ⟨p, hp, hπ⟩ := mem_flatMap.mp hπ
    have hin := (inSpan_iff_of_le hle).mp (mem_visited (by decide) (by decide) hle hp)
    simp only [show (0x50000000 : UInt64).toNat = 0x50000000 from rfl,
      show (0x200000 : UInt64).toNat = 0x200000 from rfl] at hin
    rw [tables_low (by omega) (j := 1) (by change 1 = _; omega)] at hπ
    simpa using hπ

theorem unmap_page_block (hwf : WellFormed s) (hmapped : translate s 0x50001000 ≠ none) :
    ∃ t, halMmuUnmap s 0x50000000 0x1000 = some (.ok, t) ∧ translate t 0x50001000 = none := by
  have hreturns : halMmuUnmap s 0x50000000 0x1000 ≠ none := by
    rw [Ne, halMmuUnmap_eq_none_iff hwf]
    exact fun h => absurd h.2 (by decide)
  obtain ⟨⟨st, t⟩, heq⟩ := ne_none_iff_exists'.mp hreturns
  obtain ⟨rfl, hwf', hcells⟩ := halMmuUnmap_spec hwf heq
  have hkey : key 0x50001000 = (l0Index 0x50000000, l1Index 0x50000000, l2Index 0x50001000) := by
    decide
  have hcleared : Cleared s 0x50000000 0x1000 0x50001000 := by
    refine ⟨fun hmiss => hmapped ?_, by decide, by decide, by decide⟩
    rw [translate_eq hwf, hkey, cell_missing hmiss]
    decide
  refine ⟨t, heq, ?_⟩
  rw [translate_eq hwf', (hcells _).1 hcleared]
  decide

/-! ## The contracts -/

/-- After any calls the two functions meet their contracts exactly under `MapOk` and `UnmapOk`. -/
theorem halMmu_contracts_iff {τ : Type} (view : Translation → τ) (s : MmuState)
    (hs : PoolPlaced s) (ops : List MmuOp) (virt phys size : Pages) (perms : UInt32)
    (type : HalMemType) :
    (∃ t, halMmuMap (run mmuStep (halMmuInit s) ops) virt.1 phys.1 size.1 perms type =
        some (.ok, t) ∧
      (MapContract view (run mmuStep (halMmuInit s) ops) t virt.1 phys.1 size.1 ↔
        MapOk view (run mmuStep (halMmuInit s) ops) virt.1 phys.1 size.1 perms type)) ∧
    (∀ st t, halMmuUnmap (run mmuStep (halMmuInit s) ops) virt.1 size.1 = some (st, t) →
      st = .ok ∧ (UnmapContract view (run mmuStep (halMmuInit s) ops) t virt.1 size.1 ↔
        UnmapOk (run mmuStep (halMmuInit s) ops) virt.1 size.1)) := by
  have hwf : WellFormed (run mmuStep (halMmuInit s) ops) :=
    run_invariant wellFormed_mmuStep ops _ (wellFormed_halMmuInit hs)
  refine ⟨⟨_, halMmuMap_eq virt.2 size.2 _ phys.2 perms type, ?_⟩, fun st t h => ?_⟩
  · exact mapContract_iff view hwf virt.2 size.2 perms type
  · obtain ⟨hok, hwf', hcells⟩ := halMmuUnmap_spec hwf h
    exact ⟨hok, unmapContract_iff view hwf hwf' hcells⟩

theorem halMmu_contracts_block : PoolPlaced coldBoot ∧
    ∃ t, halMmuMap (halMmuInit coldBoot) 0x50000000 0x50000000 0x200000 0x3 .normal =
        some (.ok, t) ∧
      MapContract id (halMmuInit coldBoot) t 0x50000000 0x50000000 0x200000 := by
  refine ⟨poolPlaced_coldBoot, ?_⟩
  have h := (halMmu_contracts_iff id coldBoot poolPlaced_coldBoot [] ⟨0x50000000, by decide⟩
    ⟨0x50000000, by decide⟩ ⟨0x200000, by decide⟩ 0x3 .normal).1
  rw [run_nil] at h
  obtain ⟨t, heq, hiff⟩ := h
  exact ⟨t, heq, hiff.mpr mapOk_coldBoot⟩

/-- A range is not mapped to another one, and a page of a block cannot be
unmapped alone. -/
theorem halMmu_contracts_broken :
    (∃ t, halMmuMap (halMmuInit coldBoot) 0x60000000 0x50000000 0x200000 0x3 .normal =
        some (.ok, t) ∧
      (translate t 0x60000000).map Translation.phys ≠ some 0x50000000) ∧
    (∃ t t', halMmuMap (halMmuInit coldBoot) 0x50000000 0x50000000 0x200000 0x3 .normal =
        some (.ok, t) ∧
      halMmuUnmap t 0x50000000 0x1000 = some (.ok, t') ∧
      (translate t 0x50001000).map Translation.phys = some 0x50001000 ∧
      translate t' 0x50001000 = none) := by
  have hwf := wellFormed_halMmuInit poolPlaced_coldBoot
  have hattr := attrOk_attrBits 0x3 .normal
  constructor
  · refine ⟨_, halMmuMap_eq (by decide) (by decide) _ (by decide) 0x3 .normal, fun h => ?_⟩
    obtain ⟨tr, htr, hphys⟩ := map_eq_some_iff.mp h
    have hid := (translate_identity (mapAll_keeps hattr _ _ hwf) htr).2
    rw [hphys] at hid
    exact absurd hid (by decide)
  · have hmap := (mapContract_iff id hwf (by decide) (by decide) 0x3 .normal).mpr mapOk_coldBoot
    have hwf' := mapAll_keeps hattr (visited 0x50000000 0x50000000 0x200000) _ hwf
    have hmapped := hmap.inside 0x50001000 (by decide)
    obtain ⟨t', hunmap, hnone⟩ := unmap_page_block hwf' fun h => by
      rw [h] at hmapped
      cases hmapped
    exact ⟨_, t', halMmuMap_eq (by decide) (by decide) _ (by decide) 0x3 .normal, hunmap, hmapped,
      hnone⟩

end AlJefra.Arch.Aarch64
