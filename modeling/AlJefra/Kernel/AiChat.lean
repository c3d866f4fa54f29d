/- The chat engine of `kernel/ai_chat.c`: how one user message becomes an action. -/
import AlJefra.Kernel.Fs
import AlJefra.Lib.Ring
import Mathlib.Data.List.DropRight

namespace AlJefra.Kernel.AiChat

open AlJefra.Lib
open AlJefra.Kernel.Fs (CStr)

/-! ## Bytes of text -/

/-- The bytes of a string literal of the source. -/
def lit (s : String) : List UInt8 := s.toUTF8.data.toList
def isUpper (c : UInt8) : Bool := 0x41 ≤ c && c ≤ 0x5A
def isSpace (c : UInt8) : Bool := c == 0x20 || c == 0x09 || c == 0x0A || c == 0x0D
def toLower (c : UInt8) : UInt8 := if isUpper c then c + 32 else c
def ciEq (a b : List UInt8) : Bool := a.map toLower == b.map toLower

def startsWith (fold : UInt8 → UInt8) : List UInt8 → List UInt8 → Bool
  | [], _ => true
  | _ :: _, [] => false
  | n :: needle, c :: text => fold c == fold n && startsWith fold needle text

def strstr (fold : UInt8 → UInt8) (needle : List UInt8) : List UInt8 → Option (List UInt8)
  | [] => if needle = [] then some [] else none
  | c :: rest =>
    if startsWith fold needle (c :: rest) then some (c :: rest) else strstr fold needle rest

def ciStrstr (haystack needle : List UInt8) : Option (List UInt8) := strstr toLower needle haystack
def byteStrstr (haystack needle : List UInt8) : Option (List UInt8) := strstr id needle haystack
def safeCopy (src : List UInt8) (max : Nat) : List UInt8 := src.take (max - 1)

def safeAppend (dst src : List UInt8) (max : Nat) : List UInt8 :=
  if max - 1 ≤ dst.length then dst else dst ++ safeCopy src (max - dst.length)

def skipWs (s : List UInt8) : List UInt8 := s.dropWhile isSpace

def extractArg (after : List UInt8) (max : Nat) : List UInt8 :=
  ((skipWs after).takeWhile fun c => !isSpace c).take (max - 1)

def extractRest (after : List UInt8) (max : Nat) : List UInt8 :=
  (safeCopy (skipWs after) max).rdropWhile isSpace

/-! ## Actions -/

inductive ActionType where
  | fsList | fsRead | fsWrite | fsDelete | fsCreate | netStatus | netConnect | driverList |
  driverSearch | driverInstall | sysInfo | sysReboot | sysShutdown | sysUpdate | sysUptime |
  displaySet | taskList | memoryInfo | help | none
  deriving DecidableEq, Repr

structure AiAction where
  type : ActionType
  args : List UInt8
  needsConfirm : Bool
  confidence : Nat
  deriving DecidableEq, Repr

def argsMax : Nat := 256

def actionNames : List (ActionType × List UInt8) :=
  [(.fsList, lit "fs_list"), (.fsRead, lit "fs_read"), (.fsWrite, lit "fs_write"),
   (.fsDelete, lit "fs_delete"), (.fsCreate, lit "fs_create"),
   (.netStatus, lit "net_status"), (.netConnect, lit "net_connect"),
   (.driverList, lit "driver_list"), (.driverSearch, lit "driver_search"),
   (.driverInstall, lit "driver_install"), (.sysInfo, lit "sys_info"),
   (.sysReboot, lit "sys_reboot"), (.sysShutdown, lit "sys_shutdown"),
   (.sysUpdate, lit "sys_update"), (.sysUptime, lit "sys_uptime"),
   (.displaySet, lit "display_set"), (.taskList, lit "task_list"),
   (.memoryInfo, lit "memory_info"), (.help, lit "help"), (.none, lit "none")]

def aiActionName (type : ActionType) : List UInt8 :=
  ((actionNames.find? fun e => e.1 == type).map Prod.snd).getD (lit "none")

def aiActionFromName (name : List UInt8) : ActionType :=
  ((actionNames.find? fun e => ciEq name e.2).map Prod.fst).getD .none

/-! ## The language of a text -/

inductive Language where
  | en | ar
  deriving DecidableEq, Repr

def arabicKeywords : List (List UInt8) :=
  ["اعرض", "افتح", "احذف", "حالة", "اتصل", "معلومات", "أعد", "السائقين",
   "الشاشة", "مساعدة", "الذاكرة", "انشئ", "اقرأ", "الملفات", "اغلاق", "تحديث"].map lit

def detectArabic (input : List UInt8) : Bool :=
  (input.any fun b => 0xD8 ≤ b && b ≤ 0xDB) ||
    arabicKeywords.any fun keyword => (byteStrstr input keyword).isSome

/-! ## The local parser -/

structure NlpPattern where
  pattern : List UInt8
  action : ActionType
  hasArg : Bool
  needsConfirm : Bool
  confidence : Nat
  isArabic : Bool
  deriving DecidableEq, Repr

def en (pattern : String) (action : ActionType) (hasArg needsConfirm : Bool) (confidence : Nat) :
    NlpPattern :=
  ⟨lit pattern, action, hasArg, needsConfirm, confidence, false⟩

def ar (pattern : String) (action : ActionType) (hasArg needsConfirm : Bool) (confidence : Nat) :
    NlpPattern :=
  ⟨lit pattern, action, hasArg, needsConfirm, confidence, true⟩

def patterns : List NlpPattern :=
  [en "show files" .fsList false false 90,
   en "list files" .fsList false false 90,
   en "ls" .fsList false false 90,
   en "dir" .fsList false false 70,
   en "open " .fsRead true false 90,
   en "read " .fsRead true false 90,
   en "cat " .fsRead true false 90,
   en "show " .fsRead true false 70,
   en "create file " .fsCreate true false 90,
   en "create " .fsCreate true false 70,
   en "new file " .fsCreate true false 90,
   en "touch " .fsCreate true false 90,
   en "delete " .fsDelete true true 90,
   en "remove " .fsDelete true true 90,
   en "rm " .fsDelete true true 90,
   en "write " .fsWrite true false 70,
   en "network status" .netStatus false false 90,
   en "net status" .netStatus false false 90,
   en "show network" .netStatus false false 90,
   en "wifi status" .netStatus false false 90,
   en "wifi" .netStatus false false 70,
   en "connect internet" .netConnect false false 95,
   en "fix network" .netConnect false false 90,
   en "setup" .netConnect false false 75,
   en "connect" .netConnect false false 90,
   en "dhcp" .netConnect false false 90,
   en "system info" .sysInfo false false 90,
   en "sysinfo" .sysInfo false false 90,
   en "system status" .sysInfo false false 90,
   en "about" .sysInfo false false 70,
   en "reboot" .sysReboot false true 90,
   en "restart" .sysReboot false true 90,
   en "shutdown" .sysShutdown false true 90,
   en "power off" .sysShutdown false true 90,
   en "halt" .sysShutdown false true 70,
   en "uptime" .sysUptime false false 90,
   en "update" .sysUpdate false false 90,
   en "check updates" .sysUpdate false false 90,
   en "list drivers" .driverList false false 90,
   en "show drivers" .driverList false false 90,
   en "drivers" .driverList false false 70,
   en "install driver " .driverInstall true true 90,
   en "search driver " .driverSearch true false 90,
   en "find driver " .driverSearch true false 90,
   en "change resolution" .displaySet false false 90,
   en "set resolution" .displaySet false false 90,
   en "brightness" .displaySet false false 70,
   en "display settings" .displaySet false false 90,
   en "memory info" .memoryInfo false false 90,
   en "memory usage" .memoryInfo false false 90,
   en "memory" .memoryInfo false false 70,
   en "ram" .memoryInfo false false 70,
   en "free memory" .memoryInfo false false 90,
   en "list tasks" .taskList false false 90,
   en "show tasks" .taskList false false 90,
   en "processes" .taskList false false 70,
   en "help" .help false false 90,
   en "what can you do" .help false false 90,
   en "commands" .help false false 70,
   en "usage" .help false false 70,
   ar "اعرض الملفات" .fsList false false 90,
   ar "اعرض" .fsList false false 70,
   ar "افتح " .fsRead true false 90,
   ar "اقرأ " .fsRead true false 90,
   ar "انشئ " .fsCreate true false 90,
   ar "احذف " .fsDelete true true 90,
   ar "حالة الشبكة" .netStatus false false 90,
   ar "اتصل" .netConnect false false 90,
   ar "معلومات النظام" .sysInfo false false 90,
   ar "أعد التشغيل" .sysReboot false true 90,
   ar "اغلاق" .sysShutdown false true 90,
   ar "تحديث" .sysUpdate false false 90,
   ar "السائقين" .driverList false false 90,
   ar "الشاشة" .displaySet false false 70,
   ar "الذاكرة" .memoryInfo false false 90,
   ar "مساعدة" .help false false 90]

def NlpPattern.find (pat : NlpPattern) (input : List UInt8) : Option (List UInt8) :=
  if pat.isArabic then byteStrstr input pat.pattern else ciStrstr input pat.pattern

structure Best where
  pat : Option NlpPattern
  len : Nat
  conf : Nat

def Best.step (input : List UInt8) (best : Best) (pat : NlpPattern) : Best :=
  if (pat.find input).isSome &&
      (best.len < pat.pattern.length ||
        (pat.pattern.length == best.len && best.conf < pat.confidence)) then
    ⟨some pat, pat.pattern.length, pat.confidence⟩
  else best

def AiAction.unrecognized : AiAction := ⟨.none, [], false, 0⟩

def aiParseLocal (input : List UInt8) : Bool × AiAction :=
  let input := skipWs input
  if input = [] then (false, .unrecognized)
  else
    match (patterns.foldl (Best.step input) ⟨none, 0, 0⟩).pat with
    | none => (false, .unrecognized)
    | some best =>
      let args :=
        if best.hasArg then
          match best.find input with
          | none => []
          | some found => extractRest (found.drop best.pattern.length) argsMax
        else []
      (true, ⟨best.action, args, best.needsConfirm, best.confidence⟩)

/-! ## The language model -/

def aiChatResponseMax : Nat := 4096

structure LlmReply where
  len : Int
  buffer : List UInt8
  deriving DecidableEq, Repr

def LlmReply.text (r : LlmReply) : List UInt8 :=
  (r.buffer.take (min r.len.toNat (aiChatResponseMax - 1))).takeWhile fun b => b != 0

def llmFlags (type : ActionType) : Bool :=
  type == .fsDelete || type == .sysReboot || type == .sysShutdown

def parseLlmAction (llmText : List UInt8) : Option AiAction :=
  match (ciStrstr llmText (lit "action:")).or (ciStrstr llmText (lit "action :")) with
  | none => none
  | some pos =>
    let pos := (pos.drop 7).dropWhile fun c => c == 0x20 || c == 0x3A
    let type := aiActionFromName (extractArg pos 32)
    if type = .none then none
    else
      let args :=
        match ciStrstr llmText (lit "arg:") with
        | some argPos => extractRest (argPos.drop 4) argsMax
        | none =>
          match ciStrstr llmText (lit "argument:") with
          | some argPos => extractRest (argPos.drop 9) argsMax
          | none => []
      some ⟨type, args, llmFlags type, 60⟩

/-! ## The session -/

structure ChatMessage where
  isUser : Bool
  text : List UInt8
  deriving DecidableEq, Repr

def aiChatHistoryMax : Nat := 16

structure Session where
  initialized : Bool
  history : Nat → ChatMessage
  historyCount : Nat
  historyHead : Nat
  commandsExecuted : UInt32
  llmCalls : UInt32
  language : Language

def aiChatInit : Session where
  initialized := true
  history := fun _ => ⟨false, []⟩
  historyCount := 0
  historyHead := 0
  commandsExecuted := 0
  llmCalls := 0
  language := .en

def detectLanguage (s : Session) (input : List UInt8) : Session :=
  { s with language := if detectArabic input then .ar else .en }

def historyAdd (s : Session) (isUser : Bool) (text : List UInt8) : Session :=
  { s with
    history := setCell s.history s.historyHead ⟨isUser, safeCopy text 512⟩
    historyHead := (s.historyHead + 1) % aiChatHistoryMax
    historyCount :=
      if s.historyCount < aiChatHistoryMax then s.historyCount + 1 else s.historyCount }

def historyGet (s : Session) (i : Nat) : Option ChatMessage :=
  if s.historyCount ≤ i then none
  else
    let start := oldestCell aiChatHistoryMax s.historyCount s.historyHead
    some (s.history ((start + i) % aiChatHistoryMax))

/-! ## One call -/

structure Turn where
  userInput : Option CStr
  response : Bool
  responseSize : Int
  llm : Option LlmReply
  formatted : List UInt8
  deriving DecidableEq

inductive Outcome where
  /-- It returned -1. -/
  | refused
  /-- The input was blank. -/
  | hint
  /-- The language model's answer was passed on. -/
  | freeText
  /-- The user was asked to confirm. -/
  | prompt (action : AiAction)
  /-- `ai_execute_action` was called. -/
  | executed (action : AiAction)
  deriving DecidableEq, Repr

structure Reply where
  outcome : Outcome
  response : Option (List UInt8)
  deriving DecidableEq, Repr

def Reply.ret (r : Reply) : Int :=
  if r.outcome = .refused then -1 else (r.response.getD []).length

inductive Choice where
  | freeText (text : List UInt8)
  | act (parsed : Bool) (action : AiAction)
  deriving DecidableEq, Repr

def unread (trimmed : List UInt8) : Bool :=
  !(aiParseLocal trimmed).1 || (aiParseLocal trimmed).2.type == .none

def choose (trimmed : List UInt8) (llm : Option LlmReply) : Choice :=
  let (parsed, action) := aiParseLocal trimmed
  if unread trimmed then
    match llm with
    | none => .act parsed action
    | some reply =>
      if 0 < reply.len then
        match parseLlmAction reply.text with
        | some llmAction =>
          if llmAction.type = .none then .freeText reply.text else .act true llmAction
        | none => .freeText reply.text
      else .act parsed action
  else .act parsed action

def isConfirmation (trimmed : List UInt8) : Bool :=
  (ciStrstr trimmed (lit "yes")).isSome || (ciStrstr trimmed (lit "confirm")).isSome ||
    (byteStrstr trimmed (lit "نعم")).isSome

def confirmPrompt (language : Language) (action : AiAction) (max : Nat) : List UInt8 :=
  let isAr := language = .ar
  let r := safeCopy
    (if isAr then lit "هل أنت متأكد؟ هذا الإجراء لا يمكن التراجع عنه.\n"
      else lit "Are you sure? This action cannot be undone.\n") max
  let r := safeAppend r (lit "Action: ") max
  let r := safeAppend r (aiActionName action.type) max
  let r :=
    if action.args = [] then r
    else safeAppend (safeAppend (safeAppend r (lit " (") max) action.args max) (lit ")") max
  let r := safeAppend r (lit "\n") max
  safeAppend r (if isAr then lit "اكتب \"نعم\" للتأكيد." else lit "Type 'yes' to confirm.") max

def notInitialized : List UInt8 :=
  lit "Error: AI chat engine not initialized. Call ai_chat_init() first."

def blankInput : List UInt8 := lit "Please enter a command or question."

def answer (s : Session) (t : Turn) (trimmed : List UInt8) (parsed : Bool) (action : AiAction) :
    Reply × Session :=
  if parsed && action.needsConfirm && !isConfirmation trimmed then
    let response := confirmPrompt s.language action t.responseSize.toNat
    (⟨.prompt action, some response⟩, historyAdd s false response)
  else
    let s := { s with commandsExecuted := s.commandsExecuted + 1 }
    let response := safeCopy t.formatted t.responseSize.toNat
    (⟨.executed action, some response⟩, historyAdd s false response)

def converse (s : Session) (t : Turn) (trimmed : List UInt8) : Reply × Session :=
  let s := historyAdd (detectLanguage s trimmed) true trimmed
  let s :=
    if unread trimmed && t.llm.isSome then { s with llmCalls := s.llmCalls + 1 } else s
  match choose trimmed t.llm with
  | .freeText text =>
    let response := safeCopy text t.responseSize.toNat
    (⟨.freeText, some response⟩, historyAdd s false response)
  | .act parsed action => answer s t trimmed parsed action

def aiChatProcess (s : Session) (t : Turn) : Reply × Session :=
  match t.userInput with
  | none => (⟨.refused, none⟩, s)
  | some userInput =>
    if !t.response || t.responseSize ≤ 0 then (⟨.refused, none⟩, s)
    else if !s.initialized then
      (⟨.refused, some (safeCopy notInitialized t.responseSize.toNat)⟩, s)
    else
      let trimmed := skipWs userInput.bytes
      if trimmed = [] then
        (⟨.hint, some (safeCopy blankInput t.responseSize.toNat)⟩, s)
      else converse s t trimmed

end AlJefra.Kernel.AiChat
