/- How a line becomes a command, in `kernel/shell.c`. -/
import AlJefra.Kernel.AiChat

namespace AlJefra.Kernel.Shell

open List

open AlJefra.Kernel.Fs (CStr)
open AlJefra.Kernel.AiChat (lit)

/-! ## The line -/

def space : UInt8 := 0x20
def skipSpaces (s : List UInt8) : List UInt8 := s.dropWhile (· == space)
def skipWord (s : List UInt8) : List UInt8 := s.dropWhile (· != space)
def trimTrailingSpaces (s : List UInt8) : List UInt8 := s.rdropWhile (· == space)
def stringAt (buf : List UInt8) (off : Nat) : List UInt8 := (buf.drop off).takeWhile (· != 0)

def splitTokens : Nat → Nat → List UInt8 → List Nat × List UInt8
  | 0, _, buf => ([], buf)
  | maxArgs + 1, pos, buf =>
    let spaces := buf.takeWhile (· == space)
    let word := (skipSpaces buf).takeWhile (· != space)
    let start := pos + spaces.length
    if skipSpaces buf = [] then ([], buf)
    else match skipWord (skipSpaces buf) with
      | [] => ([start], buf)
      | _ :: tail =>
        let rest := splitTokens maxArgs (start + word.length + 1) tail
        (start :: rest.1, spaces ++ (word ++ 0 :: rest.2))

def findWritePayload (line : List UInt8) : List UInt8 :=
  skipSpaces (skipWord (skipSpaces (skipWord (skipSpaces line))))

/-! ## Commands -/

inductive ShellCall where
  | help | info | pci | mem | clear | drivers | uptime | reboot | ver | net | status | registry
  | setup | diagnostics | ls | df | log | sync
  | wifi (arg : List UInt8)
  | cat (name : List UInt8)
  | touch (name : List UInt8)
  | rm (name : List UInt8)
  | write (name text : List UInt8)
  | puts (text : String)
  | aiChatProcess (message : List UInt8)
  deriving DecidableEq

def withName (argv : List (List UInt8)) (usage : String) (call : List UInt8 → ShellCall) :
    ShellCall :=
  if argv.length < 2 then .puts usage else call (argv.getD 1 [])

def writeCommand (argv : List (List UInt8)) (line : List UInt8) : ShellCall :=
  let payload := findWritePayload line
  if argv.length < 3 ∨ payload = [] then .puts "Usage: write <file> <text>\n"
  else .write (argv.getD 1 []) payload

def commands : List (List String × (List (List UInt8) → List UInt8 → ShellCall)) :=
  [(["help", "?"], fun _ _ => .help), (["info", "uname"], fun _ _ => .info),
   (["pci", "lspci"], fun _ _ => .pci), (["mem", "free"], fun _ _ => .mem),
   (["clear", "cls"], fun _ _ => .clear), (["drivers", "lsmod"], fun _ _ => .drivers),
   (["uptime"], fun _ _ => .uptime), (["reboot"], fun _ _ => .reboot),
   (["version", "ver"], fun _ _ => .ver), (["net", "network", "ip"], fun _ _ => .net),
   (["status"], fun _ _ => .status),
   (["registry", "sync-status", "assistant"], fun _ _ => .registry),
   (["wifi"], fun argv _ => .wifi (argv.getD 1 [])), (["setup", "wizard"], fun _ _ => .setup),
   (["diagnostics", "diag"], fun _ _ => .diagnostics), (["ls", "dir"], fun _ _ => .ls),
   (["cat", "read"], fun argv _ => withName argv "Usage: cat <file>\n" .cat),
   (["touch", "create"], fun argv _ => withName argv "Usage: touch <file>\n" .touch),
   (["rm", "delete"], fun argv _ => withName argv "Usage: rm <file>\n" .rm),
   (["write"], writeCommand),
   (["df", "files"], fun _ _ => .df), (["log", "dmesg"], fun _ _ => .log),
   (["sync"], fun _ _ => .sync)]

abbrev shellArgMax : Nat := 4

def dispatch (argv : List (List UInt8)) (line : List UInt8) : ShellCall :=
  match commands.find? fun c => c.1.any fun name => lit name = argv.getD 0 [] with
  | some c => c.2 argv line
  | none => .aiChatProcess line

def shellExec (cmdline : CStr) : Option ShellCall :=
  let line := trimTrailingSpaces (skipSpaces cmdline.bytes)
  if line = [] then none
  else
    let tokens := splitTokens shellArgMax 0 line
    if tokens.1 = [] then none
    else some (dispatch (tokens.1.map (stringAt tokens.2)) (stringAt tokens.2 0))

/-! ## What it should do -/

def fromWord : Nat → List UInt8 → List UInt8
  | 0, line => skipSpaces line
  | n + 1, line => fromWord n (skipWord (skipSpaces line))

def wordOf (n : Nat) (line : CStr) : List UInt8 := (fromWord n line.bytes).takeWhile (· != space)
def textFrom (n : Nat) (line : CStr) : List UInt8 := trimTrailingSpaces (fromWord n line.bytes)
def builtins : List (List UInt8) := commands.flatMap fun c => c.1.map lit

structure Faithful (line : CStr) : Prop where
  write : wordOf 0 line = lit "write" → wordOf 2 line ≠ [] →
    shellExec line = some (.write (wordOf 1 line) (textFrom 2 line))
  chat : wordOf 0 line ≠ [] → wordOf 0 line ∉ builtins →
    shellExec line = some (.aiChatProcess (textFrom 0 line))

/-! ## What it does -/

variable {word rest : List UInt8}

section

variable (h : ∀ c ∈ word, c ≠ space)
include h

theorem dropWhile_word : word.dropWhile (· == space) = word := by
  cases word with
  | nil => rfl
  | cons c word => simp [h c]

theorem skipWord_append : skipWord (word ++ rest) = skipWord rest :=
  dropWhile_append_of_pos fun c hc => by simpa using h c hc

theorem takeWhile_append :
    (word ++ rest).takeWhile (· != space) = word ++ rest.takeWhile (· != space) :=
  takeWhile_append_of_pos fun c hc => by simpa using h c hc

theorem trim_append :
    trimTrailingSpaces (word ++ rest) = word ++ trimTrailingSpaces rest := by
  have hword : word.reverse.dropWhile (· == space) = word.reverse :=
    dropWhile_word fun c hc => h c (mem_reverse.mp hc)
  simp only [trimTrailingSpaces, rdropWhile, reverse_append, dropWhile_append]
  split
  · next hempty => simp [hword, isEmpty_iff.mp hempty]
  · simp

end

theorem skipWord_of_prefix (hrest : skipWord rest = rest) (h : word <+: rest) :
    skipWord word = word := by
  cases word with
  | nil => rfl
  | cons c word =>
    obtain ⟨tail, rfl⟩ := h
    by_cases hc : c = space
    · simp [skipWord, hc]
    · -- a word at the front of `rest` would be dropped
      have hlen := (dropWhile_sublist (l := word ++ tail) (· != space)).length_le
      have hdrop := congrArg length hrest
      simp only [skipWord, cons_append, dropWhile_cons, bne_iff_ne, ne_eq, hc,
        not_false_eq_true, if_true, length_cons] at hdrop
      omega

theorem trim_eq_nil_iff (s : List UInt8) :
    trimTrailingSpaces s = [] ↔ (skipSpaces s).takeWhile (· != space) = [] := by
  have hblank : trimTrailingSpaces s = [] ↔ skipSpaces s = [] :=
    rdropWhile_eq_nil_iff.trans dropWhile_eq_nil_iff.symm
  rw [hblank]
  cases hs : skipSpaces s with
  | nil => simp
  | cons c tail =>
    have hc := head?_dropWhile_not (· == space) s
    rw [show s.dropWhile (· == space) = c :: tail from hs] at hc
    simp only [head?_cons] at hc
    simp [bne, hc]

theorem splitTokens_first (hne : word ≠ []) (hword : ∀ c ∈ word, c ≠ space) (hnul : 0 ∉ word)
    (hrest : skipWord rest = rest) :
    ∃ offsets buf, splitTokens shellArgMax 0 (word ++ rest) = (0 :: offsets, buf) ∧
      stringAt buf 0 = word := by
  have hchars : ∀ c ∈ word, (c != 0) = true := by
    intro c hc
    have hc0 : c ≠ 0 := fun h0 => hnul (h0 ▸ hc)
    simpa using hc0
  have hspaces : (word ++ rest).takeWhile (· == space) = [] ∧
      skipSpaces (word ++ rest) = word ++ rest := by
    obtain ⟨c, tail, rfl⟩ := exists_cons_of_ne_nil hne
    have hc := hword c mem_cons_self
    simp [skipSpaces, hc]
  have hnone : rest.takeWhile (· != space) = [] := by
    have happend := takeWhile_append_dropWhile (p := (· != space)) (l := rest)
    rw [show rest.dropWhile (· != space) = rest from hrest] at happend
    exact append_left_eq_self.mp happend
  rw [splitTokens, hspaces.1, hspaces.2, skipWord_append hword, takeWhile_append hword, hrest,
    hnone, if_neg (append_ne_nil_of_left_ne_nil hne _), append_nil]
  cases rest with
  | nil =>
    refine ⟨[], word, by rw [append_nil]; rfl, ?_⟩
    exact takeWhile_eq_self_iff.mpr hchars
  | cons d rest =>
    refine ⟨_, _, rfl, ?_⟩
    rw [nil_append, stringAt, drop_zero, takeWhile_append_of_pos hchars]
    simp

theorem dispatch_write (argv : List (List UInt8)) (h : argv.getD 0 [] = lit "write")
    (line : List UInt8) : dispatch argv line = writeCommand argv line := by
  have hfind : commands.find? (fun c => c.1.any fun name => lit name = lit "write")
      = some (["write"], writeCommand) := rfl
  rw [dispatch, h, hfind]

theorem dispatch_chat (argv : List (List UInt8)) (h : argv.getD 0 [] ∉ builtins)
    (line : List UInt8) : dispatch argv line = .aiChatProcess line := by
  have hfind : commands.find? (fun c => c.1.any fun name => lit name = argv.getD 0 []) = none := by
    refine find?_eq_none.mpr fun c hc hany => h ?_
    obtain ⟨name, hname, heq⟩ := any_eq_true.mp hany
    rw [← of_decide_eq_true heq]
    exact mem_flatMap.mpr ⟨c, hc, mem_map_of_mem hname⟩
  rw [dispatch, hfind]

theorem shellExec_eq (line : CStr) (hne : wordOf 0 line ≠ []) :
    (∃ argv, argv.getD 0 [] = wordOf 0 line ∧
      shellExec line = some (dispatch argv (wordOf 0 line))) ∧
      (textFrom 0 line = wordOf 0 line ↔ wordOf 1 line = []) := by
  have hword : ∀ c ∈ wordOf 0 line, c ≠ space := by
    intro c hc
    simpa using mem_takeWhile_imp hc
  have hnul : 0 ∉ wordOf 0 line := fun h0 =>
    line.noNul ((dropWhile_sublist _).subset ((takeWhile_sublist _).subset h0))
  -- the line without its blanks: the first word and what follows it
  have hsplit : skipSpaces line.bytes = wordOf 0 line ++ skipWord (skipSpaces line.bytes) :=
    takeWhile_append_dropWhile.symm
  have htext : textFrom 0 line
      = wordOf 0 line ++ trimTrailingSpaces (skipWord (skipSpaces line.bytes)) :=
    (congrArg trimTrailingSpaces hsplit).trans (trim_append hword)
  constructor
  · have hrest : skipWord (trimTrailingSpaces (skipWord (skipSpaces line.bytes)))
        = trimTrailingSpaces (skipWord (skipSpaces line.bytes)) :=
      skipWord_of_prefix (dropWhile_idempotent _ _) ( rdropWhile_prefix _ _)
    obtain ⟨offsets, buf, htokens, hstring⟩ := splitTokens_first hne hword hnul hrest
    refine ⟨(0 :: offsets).map (stringAt buf), hstring, ?_⟩
    have htrim : trimTrailingSpaces (skipSpaces line.bytes) = _ := htext
    rw [shellExec, htrim]
    dsimp only
    rw [if_neg (append_ne_nil_of_left_ne_nil hne _), htokens, if_neg (cons_ne_nil _ _),
      hstring]
  · rw [htext, append_right_eq_self]
    exact trim_eq_nil_iff _

/-- The line is passed on as it was typed exactly if it is no `write` with
a text, and no message of more than one word. -/
theorem faithful_iff (line : CStr) :
    Faithful line ↔ ¬ (wordOf 0 line = lit "write" ∧ wordOf 2 line ≠ []) ∧
      (wordOf 0 line ≠ [] → wordOf 0 line ∉ builtins → wordOf 1 line = []) := by
  by_cases hne : wordOf 0 line = []
  · have hblank : wordOf 0 line ≠ lit "write" := by
      rw [hne]
      decide +kernel
    exact ⟨fun _ => ⟨fun h => hblank h.1, fun h => absurd hne h⟩,
      fun _ => ⟨fun h => absurd h hblank, fun h => absurd hne h⟩⟩
  obtain ⟨⟨argv, hargv, hexec⟩, htext⟩ := shellExec_eq line hne
  constructor
  · intro h
    constructor
    · rintro ⟨hwrite, hthird⟩
      -- nothing follows the word that is left of the line
      have hpayload : findWritePayload (lit "write") = [] := by decide +kernel
      have hcall := h.write hwrite hthird
      rw [hexec, dispatch_write argv (hargv.trans hwrite), hwrite, writeCommand, hpayload,
        if_pos (.inr rfl)] at hcall
      cases hcall
    · intro _ hchat
      have hcall := h.chat hne hchat
      rw [hexec, dispatch_chat argv (hargv ▸ hchat)] at hcall
      exact htext.mp (ShellCall.aiChatProcess.inj (Option.some.inj hcall)).symm
  · rintro ⟨hwrite, hchat⟩
    constructor
    · intro hfirst hthird
      exact absurd ⟨hfirst, hthird⟩ hwrite
    · intro _ hother
      rw [hexec, dispatch_chat argv (hargv ▸ hother), htext.mpr (hchat hne hother)]

theorem shellExec_loses_text :
    shellExec ⟨lit "write a b", by decide +kernel⟩ = some (.puts "Usage: write <file> <text>\n") ∧
      shellExec ⟨lit "open the door", by decide +kernel⟩ =
        some (.aiChatProcess (lit "open")) := by
  decide +kernel

end AlJefra.Kernel.Shell
