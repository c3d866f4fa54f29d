/- HTTP responses as bytes. -/
import Mathlib.Data.List.Basic

namespace AlJefra.Lib.Http

open List

/-! ## Texts -/

def crlf : List UInt8 := [0x0D, 0x0A]
def OnLine (l : List UInt8) : Prop := ∀ c ∈ l, c ≠ 0x0D ∧ c ≠ 0x0A
def isDigit (c : UInt8) : Bool := 0x30 ≤ c ∧ c ≤ 0x39
def toLower (c : UInt8) : UInt8 := if 0x41 ≤ c ∧ c ≤ 0x5A then c + 32 else c

def decimal (digits : List UInt8) : Nat :=
  digits.foldl (fun n c => n * 10 + (c - 0x30).toNat) 0

def contentLengthName : List UInt8 :=
  [0x63, 0x6F, 0x6E, 0x74, 0x65, 0x6E, 0x74, 0x2D, 0x6C, 0x65, 0x6E, 0x67, 0x74, 0x68]

def SpellsLength (value : List UInt8) (n : Nat) : Prop :=
  ∃ before digits after, value = before ++ digits ++ after ∧
    (∀ c ∈ before ++ after, c = 0x20 ∨ c = 0x09) ∧ digits ≠ [] ∧
      (∀ c ∈ digits, isDigit c = true) ∧ decimal digits = n

def behind (needle l : List UInt8) : Option (List UInt8) :=
  (l.tails.find? fun t =>
    needle.length < t.length ∧ (t.take needle.length).map toLower = needle).map
    (·.drop needle.length)

theorem behind_cons (needle : List UInt8) (c : UInt8) (cs : List UInt8) : behind needle (c :: cs) =
      if needle.length < (c :: cs).length ∧ ((c :: cs).take needle.length).map toLower = needle then
        some ((c :: cs).drop needle.length)
      else behind needle cs := by
  rw [behind, tails, find?_cons]
  by_cases h : needle.length < (c :: cs).length ∧
      ((c :: cs).take needle.length).map toLower = needle
  · rw [if_pos h]
    simp only [h, and_self, decide_true, Option.map_some]
  · rw [if_neg h, behind]
    simp only [h, decide_false]

/-! ## Responses -/

structure HeaderField where
  name : List UInt8
  value : List UInt8
  name_ne : name ≠ []
  name_line : OnLine name
  value_line : OnLine value

def HeaderField.line (f : HeaderField) : List UInt8 := f.name ++ [0x3A] ++ f.value ++ crlf

structure Response where
  version : List UInt8
  reason : List UInt8
  fields : List HeaderField
  body : List UInt8
  version_line : OnLine version
  version_word : 0x20 ∉ version
  version_http : version.take 4 = [0x48, 0x54, 0x54, 0x50]
  reason_line : OnLine reason
  reason_apart : reason ≠ [] → reason.head? = some 0x20
  has_length : ∃ f ∈ fields, f.name.map toLower = contentLengthName
  length_eq : ∀ f ∈ fields, f.name.map toLower = contentLengthName →
    SpellsLength f.value body.length

namespace Response

def head (r : Response) : List UInt8 :=
  r.version ++ [0x20, 0x32, 0x30, 0x30] ++ r.reason ++ crlf ++
    r.fields.flatMap HeaderField.line ++ crlf

def bytes (r : Response) : List UInt8 := r.head ++ r.body

theorem length_bytes (r : Response) : r.bytes.length = r.head.length + r.body.length :=
  length_append

theorem bytes_eq (r : Response) : ∃ tail : List UInt8,
    r.bytes = r.version ++ 0x20 :: 0x32 :: 0x30 :: 0x30 :: tail ∧
      ∀ c ∈ tail.head?, isDigit c = false := by
  refine ⟨r.reason ++ (crlf ++ (r.fields.flatMap HeaderField.line ++ (crlf ++ r.body))), ?_, ?_⟩
  · simp [bytes, head]
  · intro c hc
    by_cases hempty : r.reason = []
    · rw [hempty] at hc
      obtain rfl : c = 0x0D := by simpa [crlf, eq_comm] using hc
      rfl
    · have hhead := r.reason_apart hempty
      rw [head?_append_of_ne_nil _ hempty, hhead] at hc
      obtain rfl : c = 0x20 := by simpa [eq_comm] using hc
      rfl

theorem length_head (r : Response) : r.version.length + 8 ≤ r.head.length := by
  simp only [head, crlf, length_append, length_cons, length_nil]
  omega

theorem length_version (r : Response) : 4 ≤ r.version.length := by
  have hlen := congrArg length r.version_http
  rw [length_take] at hlen
  simp only [length_cons, length_nil] at hlen
  omega

end Response

/-! ## The end of the headers -/

def emptyLineEnd : List UInt8 → Nat → Option Nat
  | [], _ => none
  | c :: cs, i =>
    if (c :: cs).take 4 = [0x0D, 0x0A, 0x0D, 0x0A] then some (i + 4)
    else emptyLineEnd cs (i + 1)

theorem emptyLineEnd_ge : ∀ (l : List UInt8) (i : Nat) {e : Nat}, emptyLineEnd l i = some e →
    i + 4 ≤ e := by
  intro l
  induction l with
  | nil => intro i e h; cases h
  | cons c cs ih =>
    intro i e h
    unfold emptyLineEnd at h
    split at h
    · cases h
      exact Nat.le_refl _
    · have := ih (i + 1) h
      omega

theorem emptyLineEnd_short : ∀ (l : List UInt8) (i : Nat), l.length < 4 →
    emptyLineEnd l i = none := by
  intro l
  induction l with
  | nil => intro i _; rfl
  | cons c cs ih =>
    intro i h
    rw [emptyLineEnd, if_neg, ih]
    · rw [length_cons] at h
      omega
    · intro heq
      have hlen := congrArg length heq
      simp only [length_take, length_cons, length_nil] at hlen h
      omega

theorem emptyLineEnd_take : ∀ (l : List UInt8) (i n : Nat) {e : Nat}, emptyLineEnd l i = some e →
    emptyLineEnd (l.take n) i = if e ≤ i + n then some e else none := by
  intro l
  induction l with
  | nil => intro i n e h; cases h
  | cons c cs ih =>
    intro i n e h
    cases n with
    | zero =>
      have := emptyLineEnd_ge _ _ h
      rw [if_neg (by omega)]
      rfl
    | succ n =>
      rw [emptyLineEnd] at h
      by_cases hfound : (c :: cs).take 4 = [0x0D, 0x0A, 0x0D, 0x0A]
      · rw [if_pos hfound] at h
        cases h
        by_cases hn : 4 ≤ n + 1
        · rw [if_pos (by omega), take_succ_cons, emptyLineEnd, if_pos]
          rw [← take_succ_cons, take_take, Nat.min_eq_left hn, hfound]
        · rw [if_neg (by omega)]
          exact emptyLineEnd_short _ _ (by rw [length_take]; omega)
      · rw [if_neg hfound] at h
        rw [take_succ_cons, emptyLineEnd, if_neg, ih (i + 1) n h, Nat.add_right_comm, Nat.add_assoc]
        intro hpart
        apply hfound
        have hlen := congrArg length hpart
        rw [← take_succ_cons, take_take] at hpart hlen
        simp only [length_take, length_cons, length_nil] at hlen
        rw [Nat.min_eq_left (by omega)] at hpart
        exact hpart

theorem emptyLineEnd_line : ∀ (l rest : List UInt8) (i : Nat), OnLine l →
    emptyLineEnd (l ++ rest) i = emptyLineEnd rest (i + l.length) := by
  intro l
  induction l with
  | nil => intro rest i _; rfl
  | cons c cs ih =>
    intro rest i h
    rw [cons_append, emptyLineEnd, if_neg, ih, length_cons, Nat.add_right_comm,
      Nat.add_assoc]
    · exact fun c' hc' => h c' (mem_cons_of_mem _ hc')
    · intro heq
      exact (h c mem_cons_self).1 (cons.inj heq).1

theorem emptyLineEnd_crlf {c : UInt8} (hc : c ≠ 0x0D) (cs : List UInt8) (i : Nat) :
    emptyLineEnd (crlf ++ c :: cs) i = emptyLineEnd (c :: cs) (i + 2) := by
  rw [crlf, cons_append, emptyLineEnd, if_neg, cons_append, emptyLineEnd, if_neg]
  · rfl
  · simp
  · simp [hc]

theorem emptyLineEnd_fields (body : List UInt8) : ∀ (fields : List HeaderField) (i : Nat),
    emptyLineEnd (crlf ++ (fields.flatMap HeaderField.line ++ (crlf ++ body))) i =
      some (i + (crlf ++ (fields.flatMap HeaderField.line ++ crlf)).length) := by
  intro fields
  induction fields with
  | nil => intro i; rfl
  | cons f fields ih =>
    intro i
    obtain ⟨c, cs, hname⟩ := exists_cons_of_ne_nil f.name_ne
    have hc : c ≠ 0x0D := (f.name_line c (by rw [hname]; exact mem_cons_self)).1
    have hline : OnLine (f.name ++ [0x3A] ++ f.value) := by
      intro b hb
      simp only [mem_append, mem_singleton] at hb
      obtain (hb | rfl) | hb := hb
      · exact f.name_line b hb
      · decide
      · exact f.value_line b hb
    have hsplit : (f :: fields).flatMap HeaderField.line ++ (crlf ++ body) =
        (f.name ++ [0x3A] ++ f.value) ++
          (crlf ++ (fields.flatMap HeaderField.line ++ (crlf ++ body))) := by
      simp [HeaderField.line]
    have hfirst : ∃ rest, (f :: fields).flatMap HeaderField.line ++ (crlf ++ body) = c :: rest :=
      ⟨_, by rw [hsplit, hname]; rfl⟩
    obtain ⟨rest, hrest⟩ := hfirst
    rw [hrest, emptyLineEnd_crlf hc, ← hrest, hsplit, emptyLineEnd_line _ _ _ hline, ih]
    simp [HeaderField.line, crlf]
    omega

theorem emptyLineEnd_bytes (r : Response) : emptyLineEnd r.bytes 0 = some r.head.length := by
  have hline : OnLine (r.version ++ [0x20, 0x32, 0x30, 0x30] ++ r.reason) := by
    intro b hb
    simp only [mem_append] at hb
    obtain (hb | hb) | hb := hb
    · exact r.version_line b hb
    · simp only [mem_cons, not_mem_nil, or_false] at hb
      obtain rfl | rfl | rfl | rfl := hb <;> decide
    · exact r.reason_line b hb
  have hsplit : r.bytes = (r.version ++ [0x20, 0x32, 0x30, 0x30] ++ r.reason) ++
      (crlf ++ (r.fields.flatMap HeaderField.line ++ (crlf ++ r.body))) := by
    simp [Response.bytes, Response.head]
  rw [hsplit, emptyLineEnd_line _ _ _ hline, emptyLineEnd_fields]
  simp [Response.head]
  omega

theorem emptyLineEnd_take_bytes (r : Response) (n : Nat) :
    emptyLineEnd (r.bytes.take n) 0 = if r.head.length ≤ n then some r.head.length else none := by
  rw [emptyLineEnd_take _ _ _ (emptyLineEnd_bytes r), Nat.zero_add]

end AlJefra.Lib.Http
