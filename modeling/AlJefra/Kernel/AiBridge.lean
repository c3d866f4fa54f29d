/-
Strings in the JSON of `kernel/ai_bridge.c`: `json_escape` and the lookup that undoes it. The lookup
gives the string back exactly if `json_escape` had room for its last character and no occurrence of
the key that begins in the text before it leads the lookup to a colon of the key.
-/
import Mathlib.Data.List.Infix

namespace AlJefra.Kernel.AiBridge

open List

def quote : UInt8 := 0x22
def backslash : UInt8 := 0x5C
def colon : UInt8 := 0x3A

def escapeByte (c : UInt8) : List UInt8 :=
  if c = quote ∨ c = backslash then [backslash, c]
  else if c = 0x0A then [backslash, 0x6E]
  else if c = 0x0D then [backslash, 0x72]
  else if c = 0x09 then [backslash, 0x74]
  else [c]

def jsonEscape (dstMax : Nat) (pos : Nat) : List UInt8 → List UInt8
  | [] => []
  | c :: src =>
    if pos + 2 < dstMax then escapeByte c ++ jsonEscape dstMax (pos + (escapeByte c).length) src
    else []

def unescape (esc : UInt8) : UInt8 :=
  if esc = 0x6E then 0x0A else if esc = 0x72 then 0x0D else if esc = 0x74 then 0x09 else esc

def copyString (outMax : Nat) (pos : Nat) : List UInt8 → List UInt8
  | [] => []
  | c :: rest =>
    if ¬ pos + 1 < outMax then []
    else if c = quote then []
    else if c = backslash then
      match rest with
      | [] => [c]
      | esc :: rest => unescape esc :: copyString outMax (pos + 1) rest
    else c :: copyString outMax (pos + 1) rest

def valueAfterKey (outMax : Nat) (rest : List UInt8) : Option (List UInt8) :=
  match rest.dropWhile (· ≠ colon) with
  | [] => none
  | _ :: rest =>
    match rest.dropWhile fun c => c = 0x20 ∨ c = 0x09 with
    | [] => none
    | c :: rest => if c = quote then some (copyString outMax 0 rest) else none

def extractJsonStringAfterKey (key : List UInt8) (outMax : Nat) : List UInt8 → Option (List UInt8)
  | [] => none
  | c :: body =>
    if outMax = 0 ∨ ¬ key.length + 3 < (c :: body).length then none
    else if (c :: body).take key.length ≠ key then extractJsonStringAfterKey key outMax body
    else valueAfterKey outMax ((c :: body).drop key.length)

/-! ## The escape -/

def escaped (s : List UInt8) : List UInt8 := s.flatMap escapeByte

theorem escapeByte_cases (c : UInt8) : (∃ e, escapeByte c = [backslash, e] ∧ unescape e = c) ∨
      escapeByte c = [c] ∧ c ≠ quote ∧ c ≠ backslash := by
  unfold escapeByte
  split
  · next h => exact .inl ⟨c, rfl, by rcases h with rfl | rfl <;> decide⟩
  next h =>
  repeat' split
  · next h => exact .inl ⟨_, rfl, by rw [h]; decide⟩
  · next h => exact .inl ⟨_, rfl, by rw [h]; decide⟩
  · next h => exact .inl ⟨_, rfl, by rw [h]; decide⟩
  · exact .inr ⟨rfl, not_or.mp h⟩

theorem length_escapeByte (c : UInt8) : (escapeByte c).length = 1 ∨ (escapeByte c).length = 2 := by
  rcases escapeByte_cases c with ⟨e, he, -⟩ | ⟨he, -⟩ <;> simp [he]

theorem jsonEscape_append {dstMax pos : Nat} {s : List UInt8} (rest : List UInt8)
    (h : pos + (escaped s).length + 1 < dstMax) :
    jsonEscape dstMax pos (s ++ rest)
      = escaped s ++ jsonEscape dstMax (pos + (escaped s).length) rest := by
  induction s generalizing pos with
  | nil => rfl
  | cons c s ih =>
    have hlen := length_escapeByte c
    simp only [escaped, flatMap_cons, length_append] at h ih ⊢
    rw [cons_append, jsonEscape, if_pos (by omega), ih (by omega), append_assoc, Nat.add_assoc]

theorem copyString_quote (outMax pos : Nat) (rest : List UInt8) :
    copyString outMax pos (quote :: rest) = [] := by
  unfold copyString
  simp

theorem copyString_escaped {outMax pos : Nat} {s : List UInt8} (tail : List UInt8)
    (h : pos + s.length < outMax) : copyString outMax pos (escaped s ++ quote :: tail) = s := by
  induction s generalizing pos with
  | nil => exact copyString_quote outMax pos tail
  | cons c s ih =>
    rw [length_cons] at h
    have hpos : ¬ ¬ pos + 1 < outMax := by omega
    have hrest := ih (show pos + 1 + s.length < outMax by omega)
    rw [escaped, flatMap_cons]
    rcases escapeByte_cases c with ⟨e, he, hc⟩ | ⟨he, hq, hb⟩
    · rw [he]
      change copyString outMax pos (backslash :: e :: (escaped s ++ quote :: tail)) = _
      unfold copyString
      rw [if_neg hpos, if_neg (by decide), if_pos rfl]
      dsimp only
      rw [hrest, hc]
    · rw [he]
      change copyString outMax pos (c :: (escaped s ++ quote :: tail)) = _
      unfold copyString
      rw [if_neg hpos, if_neg hq, if_neg hb, hrest]

/-! ## The lookup -/

section Lookup

variable {pre key rest : List UInt8} {outMax : Nat}

theorem valueAfterKey_lead {lead : List UInt8} (hlead : colon ∉ lead) (outMax : Nat)
    (rest : List UInt8) :
    valueAfterKey outMax (lead ++ colon :: rest) = valueAfterKey outMax (colon :: rest) := by
  have hdrop : (lead ++ colon :: rest).dropWhile (· ≠ colon) =
      (colon :: rest).dropWhile (· ≠ colon) :=
    dropWhile_append_of_pos fun c hc => decide_eq_true fun h => hlead (h ▸ hc)
  rw [valueAfterKey, valueAfterKey, hdrop]

theorem extract_eq {body : List UInt8} (hout : outMax ≠ 0) (hlen : key.length + 3 < body.length) :
    extractJsonStringAfterKey key outMax body =
      if body.take key.length ≠ key then extractJsonStringAfterKey key outMax body.tail
      else valueAfterKey outMax (body.drop key.length) := by
  cases body with
  | nil => simp at hlen
  | cons c body =>
    rw [extractJsonStringAfterKey, if_neg (by omega)]
    rfl

/-- What is left of the key behind its first occurrence that begins in the text before it. -/
def overlap (key : List UInt8) : List UInt8 → List UInt8
  | [] => []
  | c :: pre =>
    if key <+: c :: pre ++ key then key.drop (key.length - (c :: pre).length) else overlap key pre

theorem extract_of_key (hpre : ¬ key <:+: pre) (hout : outMax ≠ 0) (hrest : 2 ≤ rest.length) :
    extractJsonStringAfterKey key outMax (pre ++ (key ++ colon :: quote :: rest))
      = valueAfterKey outMax (overlap key pre ++ colon :: quote :: rest) := by
  induction pre with
  | nil =>
    rw [nil_append, extract_eq hout (by simp; omega), take_left, drop_left, if_neg (by simp)]
    rfl
  | cons c pre ih =>
    have hlong : key <+: c :: pre ++ (key ++ colon :: quote :: rest) →
        (c :: pre).length < key.length := by
      intro hkey
      by_contra hle
      exact hpre (prefix_of_prefix_length_le hkey (prefix_append ..) (by omega)).isInfix
    have hiff : key <+: c :: pre ++ (key ++ colon :: quote :: rest) ↔ key <+: c :: pre ++ key := by
      constructor
      · intro hkey
        exact prefix_of_prefix_length_le hkey ⟨colon :: quote :: rest, by simp⟩
          (by simp only [length_append]; omega)
      · rintro ⟨tail, htail⟩
        exact ⟨tail ++ colon :: quote :: rest, by rw [← append_assoc, htail, append_assoc]⟩
    rw [extract_eq hout (by simp; omega), overlap]
    by_cases hkey : key <+: c :: pre ++ (key ++ colon :: quote :: rest)
    · have hlt := hlong hkey
      rw [if_neg (not_not.mpr (prefix_iff_eq_take.mp hkey).symm), if_pos (hiff.mp hkey),
        drop_append,
        drop_of_length_le hlt.le, nil_append, drop_append_of_le_length (by omega)]
    · rw [if_pos fun h => hkey (prefix_iff_eq_take.mpr h.symm), if_neg fun h => hkey (hiff.mpr h)]
      exact ih fun h => hpre (h.trans (suffix_cons c pre).isInfix)

-- The colon and the quote behind the key end a string that begins inside the key.
theorem copyString_ends (outMax : Nat) (rest : List UInt8) : ∀ (v : List UInt8) (pos : Nat),
    copyString outMax pos (v ++ colon :: quote :: rest)
      = copyString outMax pos (v ++ [colon, quote])
  | [], pos => by simp [copyString, copyString_quote, show colon ≠ backslash by decide]
  | [c], pos => by simp [copyString, copyString_quote, show colon ≠ backslash by decide]
  | c :: e :: v, pos => by
    have hone := copyString_ends outMax rest (e :: v) (pos + 1)
    have htwo := copyString_ends outMax rest v (pos + 1)
    simp only [cons_append] at hone ⊢
    unfold copyString
    simp only [hone, htwo]

theorem valueAfterKey_inside {lead : List UInt8} (hlead : colon ∈ lead) (outMax : Nat)
    (rest : List UInt8) : valueAfterKey outMax (lead ++ colon :: quote :: rest)
      = valueAfterKey outMax (lead ++ [colon, quote]) := by
  obtain ⟨u, v, rfl, hu⟩ := eq_append_cons_of_mem hlead
  rw [append_assoc, append_assoc, cons_append, cons_append, valueAfterKey_lead hu,
    valueAfterKey_lead hu]
  have hcolon : ∀ rest, (colon :: rest).dropWhile (· ≠ colon) = colon :: rest := fun _ => by simp
  simp only [valueAfterKey, hcolon, dropWhile_append]
  cases v.dropWhile fun c => decide (c = 0x20 ∨ c = 0x09) with
  | nil => rfl
  | cons c v => simp [copyString_ends]

end Lookup

/-- The string comes back exactly when two bytes were free before its last character, or that one is
escaped; or when, after an occurrence of the key that begins before it, a string inside the key
reads the same. -/
theorem extract_jsonEscape_iff (pre key s tail : List UInt8) (dstMax outMax : Nat)
    (hfits : (escaped s).length < dstMax) (hout : s.length < outMax) (htail : tail ≠ [])
    (hpre : ¬ key <:+: pre) :
    extractJsonStringAfterKey key outMax
        (pre ++ (key ++ colon :: quote :: (jsonEscape dstMax 0 s ++ quote :: tail))) = some s ↔
      if colon ∈ overlap key pre then
        valueAfterKey outMax (overlap key pre ++ [colon, quote]) = some s
      else
        (escaped s).length + 1 < dstMax ∨ ∀ c, s.getLast? = some c → (escapeByte c).length = 2 := by
  have htail : 1 ≤ tail.length := length_pos_iff.mpr htail
  rw [extract_of_key hpre (by omega) (by simp; omega)]
  split
  · next hinside => rw [valueAfterKey_inside hinside]
  next hbehind =>
  rw [valueAfterKey_lead hbehind]
  change some (copyString outMax 0 _) = some s ↔ _
  rw [Option.some_inj]
  rcases s.eq_nil_or_concat' with rfl | ⟨t, c, rfl⟩
  · have hcopy : copyString outMax 0 (escaped [] ++ quote :: tail) = [] :=
      copyString_escaped tail (by omega)
    simpa [jsonEscape, escaped] using hcopy
  · have hlen := length_escapeByte c
    have hsplit : escaped (t ++ [c]) = escaped t ++ escapeByte c := by simp [escaped]
    rw [hsplit, length_append] at hfits ⊢
    rw [jsonEscape_append [c] (by omega), Nat.zero_add]
    simp only [jsonEscape, append_nil, getLast?_concat, Option.some.injEq, forall_eq']
    split
    · next hroom =>
      rw [← hsplit, copyString_escaped tail (by omega)]
      simp only [true_iff]
      omega
    · next hroom =>
      rw [append_nil, copyString_escaped tail (by simp at hout; omega)]
      simp
      omega

theorem extract_jsonEscape_newline : extractJsonStringAfterKey [0x6B] 2
    ([] ++ ([0x6B] ++ colon :: quote :: (jsonEscape 3 0 [0x0A] ++ quote :: [0x7D]))) =
      some [0x0A] :=
  (extract_jsonEscape_iff [] [0x6B] [0x0A] [0x7D] 3 2 (by decide) (by decide) (by decide)
    (by simp)).mpr (by
      rw [if_neg (by simp [overlap])]
      exact .inr fun c hc => by obtain rfl := Option.some.inj hc; rfl)

/-- The last character is dropped; and the key `:a:` is found across the end of the text `:a`. -/
theorem jsonEscape_drops_last : (escaped [0x61]).length < 2 ∧ jsonEscape 2 0 [0x61] = [] ∧
    extractJsonStringAfterKey [0x6B] 9
      ([0x6B, colon, quote] ++ jsonEscape 2 0 [0x61] ++ [quote, 0x7D]) = some [] ∧
    extractJsonStringAfterKey [colon, 0x61, colon] 9
      ([colon, 0x61, colon, 0x61, colon, colon, quote] ++ jsonEscape 9 0 [0x62] ++ [quote, 0x7D])
        = none := by
  decide

end AlJefra.Kernel.AiBridge
