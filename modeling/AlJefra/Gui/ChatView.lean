/-
The height of a chat in `gui/widgets.c`. Widths are 32-bit and their products wrap; the lines of a
message of at most 255 bytes are counted in integers. The height computed for scrolling is the one
drawn for all messages exactly if the two bubble widths give the same columns or wrap nothing.
-/
import Mathlib.Order.Basic
import Mathlib.Data.List.Basic

namespace AlJefra.Gui

open List

def chatPadX : Int32 := 10
def chatPadY : Int := 6
def chatMsgGap : Int := 8
def scrollbarW : Int32 := 10

def measureLoop (cols : Int) : Int → Int → List UInt8 → Int
  | _, lines, [] => lines
  | cx, lines, c :: text =>
    if c = 0x0A then measureLoop cols 0 (lines + 1) text
    else if cx ≥ cols then measureLoop cols 1 (lines + 1) text
    else measureLoop cols (cx + 1) lines text

def guiMeasureTextWrap (maxW : Int32) (text : List UInt8) : Int :=
  if maxW ≤ 0 then 16
  else
    let cols := maxW / 8
    measureLoop (if cols ≤ 0 then 1 else cols).toInt 0 1 text * 16

def atLeast40 (n : Int32) : Int32 := if n < 40 then 40 else n

def bubbleH (bubbleMaxW : Int32) (text : List UInt8) : Int :=
  guiMeasureTextWrap (bubbleMaxW - chatPadX * 2) text + chatPadY * 2

def computedMaxW (w : Int32) : Int32 :=
  let contentW := atLeast40 (w - chatPadX * 2 - scrollbarW - 20)
  atLeast40 (contentW * 75 / 100)

def chatviewComputeHeight (w : Int32) (messages : List (List UInt8)) : Int :=
  messages.foldl
    (fun totalH text => totalH + (bubbleH (computedMaxW w) text + chatMsgGap)) chatMsgGap

def drawnMaxW (w : Int32) : Int32 :=
  let contentW := w - scrollbarW
  atLeast40 ((contentW - 20) * 75 / 100)

def drawChatview (w : Int32) (drawY : Int) (messages : List (List UInt8)) : Int :=
  messages.foldl (fun drawY text => drawY + (bubbleH (drawnMaxW w) text + chatMsgGap)) drawY

/-! ## Widths -/

theorem toInt_atLeast40 (n : Int32) :
    (atLeast40 (n / 100)).toInt = if n.toInt < 4000 then 40 else n.toInt / 100 := by
  have hdiv : (n / 100).toInt = n.toInt.tdiv 100 := Int32.toInt_div_of_ne_right _ _ (by decide)
  have hpos : 0 ≤ n.toInt → n.toInt.tdiv 100 = n.toInt / 100 := Int.tdiv_eq_ediv_of_nonneg
  have hneg : n.toInt ≤ 0 → n.toInt.tdiv 100 = -(-n.toInt / 100) := by
    intro h
    rw [← Int.tdiv_eq_ediv_of_nonneg (by omega), Int.neg_tdiv, Int.neg_neg]
  rw [atLeast40]
  split_ifs <;> simp only [Int32.lt_iff_toInt_lt, Int32.reduceToInt] at * <;> omega

def columns (n : Int32) : Int := if n.toInt < 4000 then 2 else (n.toInt / 100 - 20) / 8

theorem bubbleH_eq (n : Int32) (text : List UInt8) :
    bubbleH (atLeast40 (n / 100)) text = measureLoop (columns n) 0 1 text * 16 + 12 := by
  have hbubble := toInt_atLeast40 n
  have hmax := n.toInt_lt
  generalize atLeast40 (n / 100) = bubble at *
  have hwide : 40 ≤ bubble.toInt ∧ bubble.toInt < 2 ^ 31 := by
    split_ifs at hbubble <;> omega
  have hinner : (bubble - 20).toInt = bubble.toInt - 20 := by
    rw [Int32.toInt_sub]
    exact Int.bmod_eq_of_le (by simp; omega) (by simp; omega)
  have hcols : ((bubble - 20) / 8).toInt = columns n := by
    rw [Int32.toInt_div_of_ne_right _ _ (by decide), hinner, columns]
    simp only [Int32.reduceToInt]
    rw [Int.tdiv_eq_ediv_of_nonneg (by omega)]
    split_ifs at hbubble ⊢ <;> omega
  have hpos : 2 ≤ columns n := by
    unfold columns
    split_ifs at hbubble ⊢ <;> omega
  have hnot : ¬ bubble - 20 ≤ 0 ∧ ¬ (bubble - 20) / 8 ≤ 0 := by
    simp only [Int32.le_iff_toInt_le, hinner, hcols, Int32.reduceToInt]
    omega
  rw [bubbleH, guiMeasureTextWrap, show chatPadX * 2 = 20 from rfl, if_neg hnot.1]
  simp only [if_neg hnot.2, hcols, chatPadY]
  omega

/-! ## Lines -/

theorem measureLoop_short {cols cols' cx lines : Int} {text : List UInt8}
    (h : cx + text.length ≤ cols) (h' : cx + text.length ≤ cols') (hcx : 0 ≤ cx) :
    measureLoop cols cx lines text = measureLoop cols' cx lines text := by
  induction text generalizing cx lines with
  | nil => rfl
  | cons c text ih =>
    rw [length_cons] at h h'
    simp only [measureLoop]
    split
    · exact ih (by omega) (by omega) (by omega)
    · rw [if_neg (by omega), if_neg (by omega)]
      exact ih (by omega) (by omega) (by omega)

theorem measureLoop_letters {cols cx lines : Int} (k : Nat) (h : cx + k ≤ cols) :
    measureLoop cols cx lines (replicate k 0x61) = lines := by
  induction k generalizing cx with
  | zero => rfl
  | succ k ih =>
    rw [replicate_succ, measureLoop, if_neg (by decide), if_neg (by omega)]
    exact ih (by omega)

theorem measureLoop_overflow {cols cx lines : Int} (k : Nat) (h : cx + k = cols) :
    measureLoop cols cx lines (replicate (k + 1) 0x61) = lines + 1 := by
  induction k generalizing cx with
  | zero => rw [replicate_one, measureLoop, if_neg (by decide), if_pos (by omega), measureLoop]
  | succ k ih =>
    rw [replicate_succ, measureLoop, if_neg (by decide), if_neg (by omega)]
    exact ih (by omega)

theorem foldl_add {f g : List UInt8 → Int} {messages : List (List UInt8)}
    (h : ∀ text ∈ messages, f text = g text) (a b : Int) :
    messages.foldl (fun n text => n + f text) a - a
      = messages.foldl (fun n text => n + g text) b - b := by
  induction messages generalizing a b with
  | nil => simp
  | cons text messages ih =>
    have htext := h text mem_cons_self
    have hrest := ih (fun t ht => h t (mem_cons_of_mem _ ht)) (a + f text) (b + g text)
    rw [foldl_cons, foldl_cons]
    omega


theorem measureLoop_agree_iff {c d : Int} (hc : 0 ≤ c) (hd : 0 ≤ d) :
    (∀ text : List UInt8, text.length ≤ 255 → measureLoop c 0 1 text = measureLoop d 0 1 text) ↔
      c = d ∨ 255 ≤ c ∧ 255 ≤ d := by
  -- One letter more than the fewer columns.
  have hfewer : ∀ {c d : Int}, 0 ≤ c → c < d → c < 255 → ∃ text : List UInt8, text.length ≤ 255 ∧
      measureLoop c 0 1 text ≠ measureLoop d 0 1 text := by
    intro c d hc hlt hshort
    obtain ⟨k, rfl⟩ := Int.eq_ofNat_of_zero_le hc
    refine ⟨List.replicate (k + 1) 0x61, by simp; omega, ?_⟩
    rw [measureLoop_overflow k (by omega), measureLoop_letters (k + 1) (by omega)]
    omega
  constructor
  · intro h
    by_contra hne
    rcases Int.lt_or_gt_of_ne (fun heq => hne (.inl heq)) with hlt | hlt
    · obtain ⟨text, hlen, htext⟩ := hfewer hc hlt (by omega)
      exact htext (h text hlen)
    · obtain ⟨text, hlen, htext⟩ := hfewer hd hlt (by omega)
      exact htext (h text hlen).symm
  · rintro (rfl | ⟨hc, hd⟩) text hlen
    · rfl
    · exact measureLoop_short (by omega) (by omega) (by omega)

/-- Both bubbles have two columns, or both hold 255 letters in a line. The products are the ones of
`int`, which wrap. -/
def SameColumns (w : Int32) : Prop :=
  (atLeast40 (w - 50) * 75 < 4400 ∧ (w - 30) * 75 < 4400) ∨
    (206000 ≤ atLeast40 (w - 50) * 75 ∧ 206000 ≤ (w - 30) * 75)

theorem columns_agree_iff (w : Int32) :
    columns (atLeast40 (w - 50) * 75) = columns ((w - 30) * 75) ∨
      255 ≤ columns (atLeast40 (w - 50) * 75) ∧ 255 ≤ columns ((w - 30) * 75) ↔ SameColumns w := by
  -- The products differ by 1500, modulo `2^32`, unless the computed width is the least.
  have hrel : atLeast40 (w - 50) * 75 = 3000 ∨ (w - 30) * 75 = atLeast40 (w - 50) * 75 + 1500 := by
    unfold atLeast40
    split
    · exact .inl rfl
    · exact .inr (by grind)
  unfold SameColumns
  generalize atLeast40 (w - 50) * 75 = u at *
  generalize (w - 30) * 75 = v at *
  simp only [Int32.lt_iff_toInt_lt, Int32.le_iff_toInt_le, columns, Int32.reduceToInt]
  rcases hrel with rfl | rfl
  · simp only [Int32.reduceToInt]
    split_ifs <;> omega
  · have hwrap := Int.bmod_add_bdiv (u.toInt + 1500) (2 ^ 32)
    have hsum : (u + 1500).toInt = (u.toInt + 1500).bmod (2 ^ 32) := Int32.toInt_add u 1500
    rw [← hsum] at hwrap
    have hu := u.le_toInt
    have hu' := u.toInt_lt
    have hv := (u + 1500).le_toInt
    have hv' := (u + 1500).toInt_lt
    split_ifs <;> omega

theorem sameColumns_iff {w : Int32} (hmin : -28633085 ≤ w.toInt) (hmax : w.toInt ≤ 28633145) :
    SameColumns w ↔ w ≤ 88 ∨ 2797 ≤ w := by
  have hsub : ∀ k : Int32, 0 ≤ k.toInt → k.toInt ≤ 50 → (w - k).toInt = w.toInt - k.toInt := by
    intro k h0 h50
    rw [Int32.toInt_sub]
    exact Int.bmod_eq_of_le (by omega) (by omega)
  have hmul : ∀ n : Int32, -28633115 ≤ n.toInt → n.toInt ≤ 28633115 →
      (n * 75).toInt = n.toInt * 75 := by
    intro n hlo hhi
    rw [Int32.toInt_mul]
    exact Int.bmod_eq_of_le (by simp; omega) (by simp; omega)
  have h50 : (w - 50).toInt = w.toInt - 50 := hsub 50 (by decide) (by decide)
  have h30 : (w - 30).toInt = w.toInt - 30 := hsub 30 (by decide) (by decide)
  have hcontent : (atLeast40 (w - 50)).toInt = max 40 (w.toInt - 50) := by
    rw [← h50, atLeast40]
    split <;> simp only [Int32.lt_iff_toInt_lt, Int32.reduceToInt] at * <;> omega
  unfold SameColumns
  simp only [Int32.lt_iff_toInt_lt, Int32.le_iff_toInt_le, Int32.reduceToInt]
  rw [hmul _ (by omega) (by omega), hmul _ (by omega) (by omega), hcontent, h30]
  omega

/-- Computed and drawn height agree exactly if the view gives two columns, or wraps no text. Where
no product leaves the range of `int`, these are the widths up to 88 and those from 2797 on. -/
theorem chatviewComputeHeight_iff (w : Int32) :
    ((∀ messages, (∀ text ∈ messages, text.length ≤ 255) → ∀ drawY,
      chatviewComputeHeight w messages = chatMsgGap + (drawChatview w drawY messages - drawY)) ↔
      SameColumns w) ∧
    (-28633085 ≤ w.toInt → w.toInt ≤ 28633145 → (SameColumns w ↔ w ≤ 88 ∨ 2797 ≤ w)) := by
  refine ⟨?_, sameColumns_iff⟩
  have hcomputed : computedMaxW w = atLeast40 (atLeast40 (w - 50) * 75 / 100) := by
    rw [computedMaxW,
      show w - chatPadX * 2 - scrollbarW - 20 = w - 50 by grind [chatPadX, scrollbarW]]
  have hdrawn : drawnMaxW w = atLeast40 ((w - 30) * 75 / 100) := by
    rw [drawnMaxW, show w - scrollbarW - 20 = w - 30 by grind [scrollbarW]]
  have hpos : ∀ n, 0 ≤ columns n := by
    intro n
    unfold columns
    split_ifs <;> omega
  rw [← columns_agree_iff, ← measureLoop_agree_iff (hpos _) (hpos _)]
  constructor
  · intro h text hlen
    have hheights := h [text] (by simpa using hlen) 0
    simp only [chatviewComputeHeight, drawChatview, hcomputed, hdrawn, List.foldl_cons,
      List.foldl_nil, bubbleH_eq] at hheights
    omega
  · intro h messages hmessages drawY
    have hsame : ∀ text ∈ messages, bubbleH (computedMaxW w) text + chatMsgGap
        = bubbleH (drawnMaxW w) text + chatMsgGap := by
      intro text htext
      rw [hcomputed, hdrawn, bubbleH_eq, bubbleH_eq, h text (hmessages text htext)]
    have hfold := foldl_add hsame chatMsgGap drawY
    rw [chatviewComputeHeight, drawChatview]
    omega

/-- A view of 400 pixels and a message of 31 letters. -/
theorem chatviewComputeHeight_too_high :
    chatviewComputeHeight 400 [List.replicate 31 0x61] = 60 ∧
      chatMsgGap + (drawChatview 400 0 [List.replicate 31 0x61] - 0) = 44 := by
  decide

end AlJefra.Gui
