/- Encoders that refuse what does not fit. -/
import AlJefra.Lib.LittleEndian

namespace AlJefra.Lib

open List Option

/-! ## Fields -/

def packField (w : Nat) (v : Int) : Option (List UInt8) :=
  if 0 ≤ v ∧ v.toNat < 256 ^ w then some (leBytes w v.toNat) else none

def pack : List (Nat × Int) → Option (List UInt8)
  | [] => some []
  | (w, v) :: fields => do
    let bs ← packField w v
    let rest ← pack fields
    return bs ++ rest

def fieldOffset : List (Nat × Int) → Nat → Nat
  | _, 0 => 0
  | [], _ + 1 => 0
  | (w, _) :: fields, i + 1 => w + fieldOffset fields i

variable {w : Nat} {v : Int} {bs : List UInt8} {fields : List (Nat × Int)} {c : CodePoint}
  {text : List CodePoint}

theorem packField_eq_some (h : packField w v = some bs) :
    0 ≤ v ∧ v.toNat < 256 ^ w ∧ bs = leBytes w v.toNat := by
  unfold packField at h
  split at h
  · next hv => exact ⟨hv.1, hv.2, (Option.some.inj h).symm⟩
  · cases h

theorem pack_cons_eq_some (h : pack ((w, v) :: fields) = some bs) :
    0 ≤ v ∧ v.toNat < 256 ^ w ∧ ∃ rest, pack fields = some rest ∧
      bs = leBytes w v.toNat ++ rest := by
  simp only [pack, bind_eq_bind, bind_eq_some_iff, Option.pure_def, Option.some.injEq] at h
  obtain ⟨head, hhead, rest, hrest, rfl⟩ := h
  obtain ⟨hnonneg, hlt, rfl⟩ := packField_eq_some hhead
  exact ⟨hnonneg, hlt, rest, hrest, rfl⟩

theorem pack_field (h : pack fields = some bs) {i : Nat} (hi : fields[i]? = some (w, v)) :
    0 ≤ v ∧ v.toNat < 256 ^ w ∧ ∃ pre post, bs = pre ++ (leBytes w v.toNat ++ post) ∧
      pre.length = fieldOffset fields i := by
  induction fields generalizing bs i with
  | nil => simp at hi
  | cons field fields ih =>
    obtain ⟨w₀, v₀⟩ := field
    obtain ⟨hnonneg, hlt, rest, hrest, rfl⟩ := pack_cons_eq_some h
    cases i with
    | zero =>
      obtain ⟨rfl, rfl⟩ := hi
      exact ⟨hnonneg, hlt, [], rest, rfl, rfl⟩
    | succ i =>
      obtain ⟨hv, hv', pre, post, rfl, hpre⟩ := ih hrest hi
      refine ⟨hv, hv', leBytes w₀ v₀.toNat ++ pre, post, ?_, ?_⟩
      · rw [append_assoc]
      · rw [length_append, length_leBytes, hpre, fieldOffset]

theorem length_pack (h : pack fields = some bs) : bs.length = fieldOffset fields fields.length := by
  induction fields generalizing bs with
  | nil => simp_all [pack, fieldOffset]
  | cons field fields ih =>
    obtain ⟨-, -, rest, hrest, rfl⟩ := pack_cons_eq_some h
    rw [length_append, length_leBytes, ih hrest, List.length_cons, fieldOffset]

/-! ## Text -/

abbrev CodePoint := Fin 0x110000

def utf8Char (c : CodePoint) : Option (List UInt8) :=
  let tail (k : Nat) : UInt8 := UInt8.ofNat (0x80 + c.val / 64 ^ k % 64)
  if c.val < 0x80 then some [UInt8.ofNat c.val]
  else if c.val < 0x800 then some [UInt8.ofNat (0xC0 + c.val / 64), tail 0]
  else if 0xD800 ≤ c.val ∧ c.val < 0xE000 then none
  else if c.val < 0x10000 then some [UInt8.ofNat (0xE0 + c.val / 64 ^ 2), tail 1, tail 0]
  else some [UInt8.ofNat (0xF0 + c.val / 64 ^ 3), tail 2, tail 1, tail 0]

def utf8 : List CodePoint → Option (List UInt8)
  | [] => some []
  | c :: text => do
    let bs ← utf8Char c
    let rest ← utf8 text
    return bs ++ rest

theorem utf8_cons_eq_some : utf8 (c :: text) = some bs ↔
      ∃ head rest, utf8Char c = some head ∧ utf8 text = some rest ∧ bs = head ++ rest := by
  simp only [utf8, bind_eq_bind, bind_eq_some_iff, Option.pure_def, Option.some.injEq]
  constructor
  · rintro ⟨head, hhead, rest, hrest, rfl⟩
    exact ⟨head, rest, hhead, hrest, rfl⟩
  · rintro ⟨head, rest, hhead, hrest, rfl⟩
    exact ⟨head, hhead, rest, hrest, rfl⟩

theorem utf8_append_eq_some {more : List CodePoint} (h : utf8 (text ++ more) = some bs) :
    ∃ front back, utf8 text = some front ∧ utf8 more = some back ∧ bs = front ++ back := by
  induction text generalizing bs with
  | nil => exact ⟨[], bs, rfl, h, rfl⟩
  | cons c text ih =>
    obtain ⟨head, rest, hhead, hrest, rfl⟩ := utf8_cons_eq_some.mp h
    obtain ⟨front, back, hfront, hback, rfl⟩ := ih hrest
    refine ⟨head ++ front, back, ?_, hback, by rw [append_assoc]⟩
    exact utf8_cons_eq_some.mpr ⟨head, front, hhead, hfront, rfl⟩

theorem ofNat_ne_zero {n : Nat} (hpos : 0 < n) (hlt : n < 256) : UInt8.ofNat n ≠ 0 := by
  intro h
  have hn : (UInt8.ofNat n).toNat = n := by rw [UInt8.toNat_ofNat', Nat.mod_eq_of_lt hlt]
  rw [h] at hn
  exact absurd hn.symm (Nat.ne_of_gt hpos)

theorem zero_not_mem_utf8Char (hc : c.val ≠ 0) (h : utf8Char c = some bs) : 0 ∉ bs := by
  have hbyte : ∀ k, UInt8.ofNat (0x80 + c.val / 64 ^ k % 64) ≠ 0 :=
    fun k => ofNat_ne_zero (by omega) (by omega)
  unfold utf8Char at h
  split at h
  · cases h
    simpa using (ofNat_ne_zero (by omega) (by omega) : UInt8.ofNat c.val ≠ 0).symm
  · split at h
    · cases h
      have hhead : UInt8.ofNat (0xC0 + c.val / 64) ≠ 0 := ofNat_ne_zero (by omega) (by omega)
      simp only [mem_cons, not_mem_nil, or_false, not_or]
      exact ⟨hhead.symm, (hbyte 0).symm⟩
    · split at h
      · cases h
      · split at h
        · cases h
          have hhead : UInt8.ofNat (0xE0 + c.val / 64 ^ 2) ≠ 0 :=
            ofNat_ne_zero (by omega) (by omega)
          simp only [mem_cons, not_mem_nil, or_false, not_or]
          exact ⟨hhead.symm, (hbyte 1).symm, (hbyte 0).symm⟩
        · cases h
          have hhead : UInt8.ofNat (0xF0 + c.val / 64 ^ 3) ≠ 0 :=
            ofNat_ne_zero (by omega) (by omega)
          simp only [mem_cons, not_mem_nil, or_false, not_or]
          exact ⟨hhead.symm, (hbyte 2).symm, (hbyte 1).symm, (hbyte 0).symm⟩

theorem zero_not_mem_utf8 (htext : ∀ c ∈ text, c.val ≠ 0) (h : utf8 text = some bs) : 0 ∉ bs := by
  induction text generalizing bs with
  | nil => cases h; exact not_mem_nil
  | cons c text ih =>
    obtain ⟨head, rest, hhead, hrest, rfl⟩ := utf8_cons_eq_some.mp h
    rw [mem_append, not_or]
    refine ⟨zero_not_mem_utf8Char (htext c List.mem_cons_self) hhead, ?_⟩
    exact ih (fun d hd => htext d (mem_cons_of_mem _ hd)) hrest

end AlJefra.Lib
