/-
What a dialogue with the chat engine executes. A confirmation is looked for in the very text that
the action is read from, so destructive actions are confirmed only in dialogues that ask first.
-/
import AlJefra.Kernel.AiChat

namespace AlJefra.Kernel.AiChat

open AlJefra.Lib List
open AlJefra.Kernel.Fs (CStr)

/-! ## What a call reads -/

def ActionType.destructive : ActionType → Bool
  | .fsDelete | .sysReboot | .sysShutdown | .driverInstall => true
  | _ => false

def Turn.heard (t : Turn) : Option (List UInt8) :=
  t.userInput.bind fun input =>
    if !t.response || t.responseSize ≤ 0 then none else some (skipWs input.bytes)

def Choice.action? : Choice → Option AiAction
  | .freeText _ => none
  | .act _ action => some action

def Turn.reads (t : Turn) : Option AiAction :=
  t.heard.bind fun trimmed => if trimmed = [] then none else (choose trimmed t.llm).action?

def Turn.confirms (t : Turn) : Bool := t.heard.any isConfirmation
def Turn.forwarded (t : Turn) : Bool := t.heard.any unread
def Turn.unflagged (t : Turn) (a : AiAction) : Bool := t.forwarded && a.type == .driverInstall

theorem patterns_flag :
    (patterns.all fun pat => pat.needsConfirm == pat.action.destructive) = true := by
  decide +kernel

theorem llmFlags_eq (type : ActionType) :
    llmFlags type = (type.destructive && !(type == .driverInstall)) := by
  cases type <;> rfl

theorem best_mem (input : List UInt8) : ∀ (pats : List NlpPattern) (best : Best) (pat : NlpPattern),
    (pats.foldl (Best.step input) best).pat = some pat → pat ∈ pats ∨ best.pat = some pat
  | [], _, _, h => .inr h
  | p :: pats, best, pat, h => by
    rcases best_mem input pats (best.step input p) pat h with hmem | hbest
    · exact .inl (mem_cons_of_mem p hmem)
    · rw [Best.step] at hbest
      split at hbest
      · cases hbest
        exact .inl mem_cons_self
      · exact .inr hbest

theorem aiParseLocal_needsConfirm (input : List UInt8) :
    (aiParseLocal input).2.needsConfirm = (aiParseLocal input).2.type.destructive := by
  simp only [aiParseLocal]
  split
  · rfl
  · cases hbest : (patterns.foldl (Best.step (skipWs input)) ⟨none, 0, 0⟩).pat with
    | none => rfl
    | some best =>
      rcases best_mem _ _ _ _ hbest with hmem | hnone
      · simpa using all_eq_true.mp patterns_flag best hmem
      · cases hnone

variable {a : AiAction} {trimmed : List UInt8} {s : Session} {posted : List ChatMessage}
  {t u : Turn} {d : Dialogue}

theorem parseLlmAction_eq {text : List UInt8} (h : parseLlmAction text = some a) :
    a.type ≠ .none ∧ a.needsConfirm = llmFlags a.type := by
  rw [parseLlmAction] at h
  split at h
  · cases h
  · simp only at h
    split at h
    · cases h
    · rename_i hsome
      rw [Option.some.injEq] at h
      subst h
      exact ⟨hsome, rfl⟩

theorem aiParseLocal_type (input : List UInt8) (h : (aiParseLocal input).1 = false) :
    (aiParseLocal input).2.type = .none := by
  simp only [aiParseLocal] at h ⊢
  split
  · rfl
  · cases hbest : (patterns.foldl (Best.step (skipWs input)) ⟨none, 0, 0⟩).pat with
    | none => rfl
    | some best => simp [*] at h

theorem unread_type (h : unread trimmed = true) : (aiParseLocal trimmed).2.type = .none := by
  rw [unread, Bool.or_eq_true] at h
  rcases h with hparsed | htype
  · exact aiParseLocal_type trimmed (by simpa using hparsed)
  · simpa using htype

section Choose

variable {trimmed : List UInt8} {llm : Option LlmReply} {parsed : Bool} {a : AiAction}

theorem choose_read (hread : unread trimmed = false) :
    choose trimmed llm = .act true (aiParseLocal trimmed).2 := by
  have hparsed : (aiParseLocal trimmed).1 = true := by
    simp only [unread, Bool.or_eq_false_iff, Bool.not_eq_false'] at hread
    exact hread.1
  simp only [choose, hread, Bool.false_eq_true, if_false, hparsed]

theorem choose_unread (hunread : unread trimmed = true) (h : choose trimmed llm = .act parsed a) :
    a = (aiParseLocal trimmed).2 ∨
      (parsed = true ∧ ∃ r, llm = some r ∧ 0 < r.len ∧ parseLlmAction r.text = some a) := by
  simp only [choose, hunread, if_true] at h
  cases llm with
  | none =>
    cases h
    exact .inl rfl
  | some r =>
    simp only at h
    split at h
    · rename_i hlen
      cases hllm : parseLlmAction r.text with
      | none => simp [hllm] at h
      | some b =>
        simp only [hllm, if_neg (parseLlmAction_eq hllm).1] at h
        cases h
        exact .inr ⟨rfl, r, rfl, hlen, hllm⟩
    · cases h
      exact .inl rfl

theorem choose_of_llm {r : LlmReply} (hunread : unread trimmed = true) (hlen : 0 < r.len)
    (hllm : parseLlmAction r.text = some a) : choose trimmed (some r) = .act true a := by
  simp only [choose, hunread, if_true, hlen, hllm, if_neg (parseLlmAction_eq hllm).1]

theorem choose_flags (h : choose trimmed llm = .act parsed a) : (parsed && a.needsConfirm) =
      (a.type.destructive && !(unread trimmed && a.type == .driverInstall)) := by
  cases hunread : unread trimmed with
  | false =>
    rw [choose_read hunread] at h
    cases h
    simpa using aiParseLocal_needsConfirm trimmed
  | true =>
    rcases choose_unread hunread h with rfl | ⟨rfl, r, -, -, hllm⟩
    · rw [aiParseLocal_needsConfirm, unread_type hunread]
      exact Bool.and_false parsed
    · rw [Bool.true_and, Bool.true_and, (parseLlmAction_eq hllm).2, llmFlags_eq]

end Choose

/-! ## What a call does -/

def Choice.outcome (trimmed : List UInt8) : Choice → Outcome
  | .freeText _ => .freeText
  | .act parsed action =>
    if parsed && action.needsConfirm && !isConfirmation trimmed then .prompt action
    else .executed action

def Turn.outcome (t : Turn) : Outcome :=
  match t.heard with
  | none => .refused
  | some trimmed => if trimmed = [] then .hint else (choose trimmed t.llm).outcome trimmed

theorem converse_outcome (s : Session) (t : Turn) (trimmed : List UInt8) :
    (converse s t trimmed).1.outcome = (choose trimmed t.llm).outcome trimmed := by
  simp only [converse]
  cases choose trimmed t.llm with
  | freeText text => rfl
  | act parsed action =>
    simp only [answer, Choice.outcome]
    split <;> rfl

theorem aiChatProcess_outcome (s : Session) (t : Turn) :
    (aiChatProcess s t).1.outcome = if s.initialized then t.outcome else .refused := by
  simp only [aiChatProcess, Turn.outcome, Turn.heard]
  cases t.userInput with
  | none => simp
  | some input =>
    simp only [Option.bind_some]
    split
    · simp
    · cases s.initialized with
      | false => simp
      | true =>
        simp only [Bool.not_true, Bool.false_eq_true, if_false, if_true]
        split
        · rfl
        · exact converse_outcome s t _

theorem aiChatProcess_cases (s : Session) (t : Turn) : ((aiChatProcess s t).2 = s ∧
      ((aiChatProcess s t).1.outcome = .refused ∨ (aiChatProcess s t).1.outcome = .hint)) ∨
    ∃ trimmed, t.heard = some trimmed ∧ aiChatProcess s t = converse s t trimmed := by
  simp only [aiChatProcess, Turn.heard]
  cases t.userInput with
  | none => exact .inl ⟨rfl, .inl rfl⟩
  | some input =>
    simp only [Option.bind_some]
    split
    · exact .inl ⟨rfl, .inl rfl⟩
    · split
      · exact .inl ⟨rfl, .inl rfl⟩
      · split
        · exact .inl ⟨rfl, .inr rfl⟩
        · exact .inr ⟨_, rfl, rfl⟩

theorem converse_session (s : Session) (t : Turn) (trimmed : List UInt8) :
    ∃ s' response, (converse s t trimmed).1.response = some response ∧
      (converse s t trimmed).2 = historyAdd s' false response ∧
      s'.initialized = s.initialized ∧ s'.history = (historyAdd s true trimmed).history ∧
      s'.historyHead = (historyAdd s true trimmed).historyHead ∧
      s'.historyCount = (historyAdd s true trimmed).historyCount := by
  have hcalls : ∀ (c : Bool), ∃ calls language,
      (if c then { historyAdd (detectLanguage s trimmed) true trimmed with
          llmCalls := (historyAdd (detectLanguage s trimmed) true trimmed).llmCalls + 1 }
        else historyAdd (detectLanguage s trimmed) true trimmed) =
      { historyAdd s true trimmed with llmCalls := calls, language := language } := by
    intro c
    cases c <;> exact ⟨_, _, rfl⟩
  obtain ⟨calls, language, hcalls⟩ := hcalls (unread trimmed && t.llm.isSome)
  simp only [converse, hcalls]
  cases choose trimmed t.llm with
  | freeText text => exact ⟨_, _, rfl, rfl, rfl, rfl, rfl, rfl⟩
  | act parsed action =>
    simp only [answer]
    split <;> exact ⟨_, _, rfl, rfl, rfl, rfl, rfl, rfl⟩

theorem aiChatProcess_initialized (s : Session) (t : Turn) :
    (aiChatProcess s t).2.initialized = s.initialized := by
  rcases aiChatProcess_cases s t with ⟨hsame, -⟩ | ⟨trimmed, -, hconverse⟩
  · rw [hsame]
  · obtain ⟨s', response, -, hsession, hinit, -⟩ := converse_session s t trimmed
    rw [hconverse, hsession]
    exact hinit

section Outcome

variable {t : Turn} {a : AiAction}

theorem outcome_of_reads (h : t.reads = some a) : t.outcome =
      if (a.type.destructive && !t.unflagged a) && !t.confirms then .prompt a else .executed a := by
  rw [Turn.reads, Option.bind_eq_some_iff] at h
  obtain ⟨trimmed, hheard, h⟩ := h
  split at h
  · cases h
  · rename_i hne
    cases hchoose : choose trimmed t.llm with
    | freeText text =>
      rw [hchoose] at h
      cases h
    | act parsed action =>
      rw [hchoose] at h
      cases h
      simp only [Turn.outcome, hheard, if_neg hne, hchoose, Choice.outcome,
        choose_flags hchoose, Turn.unflagged, Turn.forwarded, Turn.confirms, Option.any_some]

theorem outcome_of_reads_none (h : t.reads = none) :
    t.outcome ≠ .prompt a ∧ t.outcome ≠ .executed a := by
  rw [Turn.outcome]
  cases hheard : t.heard with
  | none => simp
  | some trimmed =>
    simp only [Turn.reads, hheard, Option.bind_some] at h ⊢
    split
    · simp
    · rename_i hne
      rw [if_neg hne] at h
      cases hchoose : choose trimmed t.llm with
      | freeText text => simp [Choice.outcome]
      | act parsed action =>
        rw [hchoose] at h
        cases h

theorem outcome_prompt_iff : t.outcome = .prompt a ↔
    t.reads = some a ∧ a.type.destructive = true ∧ t.unflagged a = false ∧ t.confirms = false := by
  cases hreads : t.reads with
  | none => simp [(outcome_of_reads_none hreads).1]
  | some b =>
    rw [outcome_of_reads hreads, Option.some.injEq]
    split
    · rename_i hflag
      rw [Outcome.prompt.injEq]
      constructor
      · rintro rfl
        simpa [and_assoc] using hflag
      · exact fun h => h.1
    · rename_i hflag
      constructor
      · intro h
        cases h
      · rintro ⟨rfl, hdestr, hflagged, hconf⟩
        simp [hdestr, hflagged, hconf] at hflag

theorem outcome_executed_iff : t.outcome = .executed a ↔ t.reads = some a ∧
      (a.type.destructive = true → t.unflagged a = true ∨ t.confirms = true) := by
  cases hreads : t.reads with
  | none => simp [(outcome_of_reads_none hreads).2]
  | some b =>
    rw [outcome_of_reads hreads, Option.some.injEq]
    split
    · rename_i hflag
      constructor
      · intro h
        cases h
      · rintro ⟨rfl, h⟩
        simp only [Bool.and_eq_true, Bool.not_eq_true'] at hflag
        rcases h hflag.1.1 with h | h <;> simp [h] at hflag
    · rename_i hflag
      rw [Outcome.executed.injEq]
      constructor
      · rintro rfl
        refine ⟨rfl, fun hdestr => ?_⟩
        cases hun : t.unflagged b with
        | true => exact .inl rfl
        | false => simpa [hdestr, hun] using hflag
      · exact fun h => h.1

end Outcome

/-! ## The history -/

def said (t : Turn) (r : Reply) : List ChatMessage :=
  if r.outcome = .refused ∨ r.outcome = .hint then []
  else [⟨true, safeCopy (t.heard.getD []) 512⟩, ⟨false, safeCopy (r.response.getD []) 512⟩]

def transcript : Session → List Turn → List ChatMessage
  | _, [] => []
  | s, t :: turns => said t (aiChatProcess s t).1 ++ transcript (aiChatProcess s t).2 turns

structure Remembers (s : Session) (posted : List ChatMessage) : Prop where
  head : s.historyHead = posted.length % aiChatHistoryMax
  count : s.historyCount = min posted.length aiChatHistoryMax
  ring : Recent aiChatHistoryMax s.history posted

theorem Remembers.add (h : Remembers s posted) (isUser : Bool) (text : List UInt8) :
    Remembers (historyAdd s isUser text) (posted ++ [⟨isUser, safeCopy text 512⟩]) where
  head := by
    rw [length_append, length_singleton, historyAdd, h.head, Nat.mod_add_mod]
  count := by
    have hcount := h.count
    simp only [historyAdd, length_append, length_singleton]
    split <;> omega
  ring := by
    rw [historyAdd, h.head]
    exact Recent.push h.ring _

theorem said_converse {response : List UInt8} (hheard : t.heard = some trimmed)
    (hresponse : (converse s t trimmed).1.response = some response) :
    said t (converse s t trimmed).1 =
      [⟨true, safeCopy trimmed 512⟩, ⟨false, safeCopy response 512⟩] := by
  have hne : ¬ ((converse s t trimmed).1.outcome = .refused ∨
      (converse s t trimmed).1.outcome = .hint) := by
    rw [converse_outcome]
    cases choose trimmed t.llm with
    | freeText text => simp [Choice.outcome]
    | act parsed action =>
      simp only [Choice.outcome]
      split <;> simp
  rw [said, if_neg hne, hheard, hresponse, Option.getD_some, Option.getD_some]

theorem Remembers.process (h : Remembers s posted) (t : Turn) :
    Remembers (aiChatProcess s t).2 (posted ++ said t (aiChatProcess s t).1) := by
  rcases aiChatProcess_cases s t with ⟨hsame, houtcome⟩ | ⟨trimmed, hheard, hconverse⟩
  · rw [hsame, said, if_pos houtcome, append_nil]
    exact h
  · obtain ⟨s', response, hresponse, hsession, -, hring, hhead, hcount⟩ :=
      converse_session s t trimmed
    rw [hconverse, said_converse hheard hresponse, hsession]
    have huser := h.add true trimmed
    have hs' : Remembers s' (posted ++ [⟨true, safeCopy trimmed 512⟩]) :=
      ⟨hhead.trans huser.head, hcount.trans huser.count, hring ▸ huser.ring⟩
    simpa using hs'.add false response

theorem Remembers.dialogue : ∀ (turns : List Turn) {s : Session} {posted : List ChatMessage},
    Remembers s posted →
    Remembers (run (fun s t => (aiChatProcess s t).2) s turns) (posted ++ transcript s turns)
  | [], _, _, h => by simpa [transcript] using h
  | t :: turns, _, _, h => by
    rw [transcript, ← append_assoc]
    exact Remembers.dialogue turns (h.process t)

/-- After any dialogue the history holds the last messages, sixteen or all there are, and
`history_get` reads them with the oldest first. -/
theorem history_oldestFirst (turns : List Turn) :
    let s := run (fun s t => (aiChatProcess s t).2) aiChatInit turns
    let messages := transcript aiChatInit turns
    s.historyCount = min messages.length aiChatHistoryMax ∧
      (List.range s.historyCount).map (historyGet s) =
        (messages.drop (messages.length - s.historyCount)).map some := by
  intro s messages
  have hinit : Remembers aiChatInit [] := ⟨rfl, rfl, Recent.nil⟩
  have h : Remembers s messages := by simpa using hinit.dialogue turns
  refine ⟨h.count, ?_⟩
  rw [← h.ring.oldestFirst h.count h.head, map_map]
  refine map_congr_left fun i hi => ?_
  rw [historyGet, if_neg (by simpa using hi)]
  rfl

/-! ## Dialogues -/

structure Dialogue where
  session : Session
  last : Option (Turn × Outcome)

def Dialogue.step (d : Dialogue) (t : Turn) : Dialogue :=
  let r := aiChatProcess d.session t
  ⟨r.2, if r.1.outcome = .refused then d.last else some (t, r.1.outcome)⟩

def Dialogue.Justified (d : Dialogue) (t : Turn) : Prop :=
  ∀ a, (aiChatProcess d.session t).1.outcome = .executed a → a.type.destructive = true →
    t.confirms = true ∧
      ∃ b, d.last.map Prod.snd = some (.prompt b) ∧ b.type = a.type ∧ b.args = a.args

def Dialogue.AskedBefore (d : Dialogue) (t : Turn) : Prop :=
  ∀ a, t.reads = some a → a.type.destructive = true →
    (t.unflagged a = true ∨ t.confirms = true) →
    t.confirms = true ∧
      ∃ u b, d.last.map Prod.fst = some u ∧ u.reads = some b ∧ b.type = a.type ∧
        b.args = a.args ∧ u.unflagged b = false ∧ u.confirms = false

structure Dialogue.Follows (d : Dialogue) : Prop where
  initialized : d.session.initialized = true
  last : d.last.map Prod.snd = (d.last.map Prod.fst).map Turn.outcome

theorem Dialogue.Follows.step (h : d.Follows) (t : Turn) : (d.step t).Follows where
  initialized := (aiChatProcess_initialized d.session t).trans h.initialized
  last := by
    simp only [Dialogue.step, aiChatProcess_outcome, h.initialized, if_true]
    split
    · exact h.last
    · rfl

theorem Dialogue.Follows.justified_iff (h : d.Follows) (t : Turn) :
    d.Justified t ↔ d.AskedBefore t := by
  have hasked : ∀ a : AiAction, a.type.destructive = true →
      ((∃ b, d.last.map Prod.snd = some (.prompt b) ∧ b.type = a.type ∧ b.args = a.args) ↔
        ∃ u b, d.last.map Prod.fst = some u ∧ u.reads = some b ∧ b.type = a.type ∧
          b.args = a.args ∧ u.unflagged b = false ∧ u.confirms = false) := by
    intro a hdestr
    rw [h.last]
    constructor
    · rintro ⟨b, hlast, htype, hargs⟩
      obtain ⟨u, hu, hprompt⟩ := Option.map_eq_some_iff.mp hlast
      obtain ⟨hreads, -, hflag, hconf⟩ := outcome_prompt_iff.mp hprompt
      exact ⟨u, b, hu, hreads, htype, hargs, hflag, hconf⟩
    · rintro ⟨u, b, hu, hreads, htype, hargs, hflag, hconf⟩
      refine ⟨b, ?_, htype, hargs⟩
      rw [hu, Option.map_some, Option.some.injEq]
      exact outcome_prompt_iff.mpr ⟨hreads, htype ▸ hdestr, hflag, hconf⟩
  simp only [Dialogue.Justified, aiChatProcess_outcome, h.initialized, if_true,
    outcome_executed_iff]
  constructor
  · intro hjust a hreads hdestr hunasked
    obtain ⟨hconf, hb⟩ := hjust a ⟨hreads, fun _ => hunasked⟩ hdestr
    exact ⟨hconf, (hasked a hdestr).mp hb⟩
  · rintro hbefore a ⟨hreads, hunasked⟩ hdestr
    obtain ⟨hconf, hu⟩ := hbefore a hreads hdestr (hunasked hdestr)
    exact ⟨hconf, (hasked a hdestr).mpr hu⟩

theorem justified_of_uninitialized : ∀ (turns : List Turn) (d : Dialogue),
    d.session.initialized = false → Steps Dialogue.step Dialogue.Justified d turns
  | [], _, _ => trivial
  | t :: turns, d, h => by
    refine ⟨?_, justified_of_uninitialized turns (d.step t) ?_⟩
    · intro a hexecuted
      rw [aiChatProcess_outcome, h] at hexecuted
      cases hexecuted
    · exact (aiChatProcess_initialized d.session t).trans h

/-- In every dialogue, destructive actions run on confirmation only exactly if each input that would
run one confirms it and follows an input that asked for it. -/
theorem destructive_confirmed_iff (s : Session) (turns : List Turn) :
    Steps Dialogue.step Dialogue.Justified ⟨s, none⟩ turns ↔
      (s.initialized = true → Steps Dialogue.step Dialogue.AskedBefore ⟨s, none⟩ turns) := by
  cases hinit : s.initialized with
  | false =>
    have hall := justified_of_uninitialized turns ⟨s, none⟩ hinit
    simp [hall]
  | true =>
    have hcongr := steps_congr_of_invariant (P := Dialogue.Follows)
      (fun _ t h => Dialogue.Follows.step h t) (fun _ t h => h.justified_iff t) turns ⟨s, none⟩
      ⟨hinit, rfl⟩
    simpa using hcongr

def turn (input : CStr) (llm : Option LlmReply) : Turn := ⟨some input, true, 4096, llm, []⟩
def yes : CStr := ⟨lit "yes", by decide +kernel⟩
def deleteYesTxt : CStr := ⟨lit "delete yes.txt", by decide +kernel⟩
def tellMeAJoke : CStr := ⟨lit "tell me a joke", by decide +kernel⟩
def suggestDriver : LlmReply := ⟨31, lit "ACTION: driver_install ARG: e1k"⟩

theorem not_justified (hlast : d.last = none)
    (hexecuted : (aiChatProcess d.session t).1.outcome = .executed a)
    (hdestr : a.type.destructive = true) : ¬ d.Justified t := by
  intro h
  obtain ⟨-, b, hb, -⟩ := h a hexecuted hdestr
  rw [hlast] at hb
  cases hb

/-- A file name holds "yes"; and a joke installs the driver that the language model names. -/
theorem first_message_executes :
    ¬ Steps Dialogue.step Dialogue.Justified ⟨aiChatInit, none⟩ [turn deleteYesTxt none] ∧
    ¬ Steps Dialogue.step Dialogue.Justified ⟨aiChatInit, none⟩
      [turn tellMeAJoke (some suggestDriver)] := by
  have hdelete : (aiChatProcess aiChatInit (turn deleteYesTxt none)).1.outcome =
      .executed ⟨.fsDelete, lit "yes.txt", true, 90⟩ := by decide +kernel
  have hinstall : (aiChatProcess aiChatInit (turn tellMeAJoke (some suggestDriver))).1.outcome =
      .executed ⟨.driverInstall, lit "e1k", false, 60⟩ := by decide +kernel
  exact ⟨fun h => not_justified rfl hdelete rfl h.1, fun h => not_justified rfl hinstall rfl h.1⟩

/-! ## The answer to a request -/

theorem forwarded_executed_iff (hheard : u.heard = some trimmed) (hne : trimmed ≠ [])
    (hunread : unread trimmed = true) (hconfirm : isConfirmation trimmed = true)
    (htype : a.type ≠ .none) :
    u.outcome = .executed a ↔ ∃ r, u.llm = some r ∧ 0 < r.len ∧ parseLlmAction r.text = some a := by
  have hconf : u.confirms = true := by
    rw [Turn.confirms, hheard]
    exact hconfirm
  have hreads : u.reads = (choose trimmed u.llm).action? := by
    rw [Turn.reads, hheard, Option.bind_some, if_neg hne]
  rw [outcome_executed_iff, hreads]
  constructor
  · rintro ⟨hact, -⟩
    cases hchoose : choose trimmed u.llm with
    | freeText text =>
      rw [hchoose] at hact
      cases hact
    | act parsed b =>
      rw [hchoose] at hact
      cases hact
      rcases choose_unread hunread hchoose with rfl | ⟨-, h⟩
      · exact absurd (unread_type hunread) htype
      · exact h
  · rintro ⟨r, hllm, hlen, hparse⟩
    rw [hllm, choose_of_llm hunread hlen hparse]
    exact ⟨rfl, fun _ => .inr hconf⟩

theorem yes_executed_iff (hinput : u.userInput = some yes) (hresponse : u.response = true)
    (hsize : 0 < u.responseSize) (htype : a.type ≠ .none) : u.outcome = .executed a ↔
      ∃ r, u.llm = some r ∧ 0 < r.len ∧ parseLlmAction r.text = some a := by
  have hskip : skipWs yes.bytes = lit "yes" := by decide +kernel
  have hheard : u.heard = some (lit "yes") := by
    simp [Turn.heard, hinput, hresponse, hskip, hsize]
  exact forwarded_executed_iff hheard (by decide +kernel) (by decide +kernel) (by decide +kernel)
    htype

/-- "yes" executes the action asked for exactly if the language model names it again. -/
theorem yes_completes_iff (s : Session) (t u : Turn) (a : AiAction)
    (hprompt : (aiChatProcess s t).1.outcome = .prompt a) (hinput : u.userInput = some yes)
    (hresponse : u.response = true) (hsize : 0 < u.responseSize) :
    (∃ b, (aiChatProcess (aiChatProcess s t).2 u).1.outcome = .executed b ∧ b.type = a.type ∧
      b.args = a.args) ↔
    ∃ r b, u.llm = some r ∧ 0 < r.len ∧ parseLlmAction r.text = some b ∧ b.type = a.type ∧
      b.args = a.args := by
  rw [aiChatProcess_outcome] at hprompt
  split at hprompt
  · rename_i hinit
    have htype : a.type ≠ .none := by
      intro hnone
      have hdestr := (outcome_prompt_iff.mp hprompt).2.1
      rw [hnone] at hdestr
      cases hdestr
    have hexec := fun {b : AiAction} (hb : b.type = a.type) =>
      yes_executed_iff hinput hresponse hsize (a := b) (hb ▸ htype)
    simp only [aiChatProcess_outcome, aiChatProcess_initialized, hinit, if_true]
    constructor
    · rintro ⟨b, hexecuted, hb, hargs⟩
      obtain ⟨r, hllm, hlen, hparse⟩ := (hexec hb).mp hexecuted
      exact ⟨r, b, hllm, hlen, hparse, hb, hargs⟩
    · rintro ⟨r, b, hllm, hlen, hparse, hb, hargs⟩
      exact ⟨b, (hexec hb).mpr ⟨r, hllm, hlen, hparse⟩, hb, hargs⟩
  · cases hprompt

def deleteNotesTxt : CStr := ⟨lit "delete notes.txt", by decide +kernel⟩
def deleteNotes : AiAction := ⟨.fsDelete, lit "notes.txt", true, 90⟩
def repeatDelete : LlmReply := ⟨32, lit "ACTION: fs_delete ARG: notes.txt"⟩

theorem deleteNotes_prompt :
    (aiChatProcess aiChatInit (turn deleteNotesTxt none)).1.outcome = .prompt deleteNotes := by
  decide +kernel

theorem yes_completes_repeated :
    ∃ b, (aiChatProcess (aiChatProcess aiChatInit (turn deleteNotesTxt none)).2
      (turn yes (some repeatDelete))).1.outcome = .executed b ∧ b.type = .fsDelete ∧
      b.args = lit "notes.txt" := by
  have hparse : parseLlmAction repeatDelete.text =
      some ⟨.fsDelete, lit "notes.txt", true, 60⟩ := by decide +kernel
  exact (yes_completes_iff aiChatInit (turn deleteNotesTxt none) (turn yes (some repeatDelete))
    deleteNotes deleteNotes_prompt rfl rfl (by decide)).mpr
    ⟨repeatDelete, _, rfl, by decide, hparse, rfl, rfl⟩

theorem yes_executes_none :
    (aiChatProcess aiChatInit (turn deleteNotesTxt none)).1.outcome = .prompt deleteNotes ∧
    (aiChatProcess (aiChatProcess aiChatInit (turn deleteNotesTxt none)).2
      (turn yes none)).1.outcome = .executed .unrecognized := by
  refine ⟨deleteNotes_prompt, ?_⟩
  decide +kernel

end AlJefra.Kernel.AiChat
