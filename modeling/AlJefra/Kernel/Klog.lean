/- The kernel log of `kernel/klog.c`. -/
import AlJefra.Kernel.Fs
import AlJefra.Lib.Ring

namespace AlJefra.Kernel.Klog

open AlJefra.Lib
open AlJefra.Kernel.Fs (CStr)

abbrev klogMaxEntries : Nat := 128
abbrev klogMsgSize : Nat := 256
def klogMagic : UInt32 := 0x4B4C4F47
def klogFlushThreshold : Nat := klogMaxEntries * 3 / 4

structure KlogEntry where
  timestampNs : UInt64
  level : UInt32
  msg : Table UInt8 klogMsgSize
  deriving DecidableEq

/-! ## Formatting -/

structure VaList where
  word : Nat → UInt64
  text : UInt64 → CStr

def bufPutc (max : Nat) (out : List UInt8) (c : UInt8) : List UInt8 :=
  if out.length < max - 1 then out ++ [c] else out

def bufPutAll (max : Nat) (out bytes : List UInt8) : List UInt8 := bytes.foldl (bufPutc max) out
def nullText : List UInt8 := [0x28, 0x6E, 0x75, 0x6C, 0x6C, 0x29]

def bufPuts (max : Nat) (va : VaList) (out : List UInt8) (p : UInt64) : List UInt8 :=
  bufPutAll max out (if p = 0 then nullText else (va.text p).bytes)

def decimalDigits : Nat → Nat → List UInt8
  | 0, _ => []
  | fuel + 1, n =>
    if n = 0 then [] else UInt8.ofNat (0x30 + n % 10) :: decimalDigits fuel (n / 10)

def bufPutu (max : Nat) (out : List UInt8) (val : UInt64) : List UInt8 :=
  if val = 0 then bufPutc max out 0x30
  else bufPutAll max out (decimalDigits 20 val.toNat).reverse

def bufPutd (max : Nat) (out : List UInt8) (val : Int32) : List UInt8 :=
  let out := if val < 0 then bufPutc max out 0x2D else out
  bufPutu max out (UInt64.ofNat val.toInt.natAbs)

def hexDigit (n : Nat) : UInt8 := UInt8.ofNat (if n < 10 then 0x30 + n else 0x57 + n)
def nibble (val : UInt64) (shift : Nat) : Nat := val.toNat / 2 ^ shift % 16

def bufPutx (max : Nat) (out : List UInt8) (val : UInt64) : List UInt8 :=
  if val = 0 then bufPutc max out 0x30
  else
    let shifts := (List.range 16).map (fun i => 60 - 4 * i)
    bufPutAll max out ((shifts.dropWhile
      (fun shift => decide (0 < shift ∧ nibble val shift = 0))).map
      (fun shift => hexDigit (nibble val shift)))

def formatSpec (max : Nat) (va : VaList) (spec : UInt8) (arg : Nat) (out : List UInt8) :
    Nat × List UInt8 :=
  let val := va.word arg
  if spec = 0x64 then (arg + 1, bufPutd max out (Int32.ofBitVec (val.toUInt32.toBitVec)))
  else if spec = 0x75 then (arg + 1, bufPutu max out val.toUInt32.toUInt64)
  else if spec = 0x78 then (arg + 1, bufPutx max out val.toUInt32.toUInt64)
  else if spec = 0x70 then (arg + 1, bufPutx max (bufPutAll max out [0x30, 0x78]) val)
  else if spec = 0x73 then (arg + 1, bufPuts max va out val)
  else if spec = 0x25 then (arg, bufPutc max out 0x25)
  else (arg, bufPutc max (bufPutc max out 0x25) spec)

def klogVformatLoop (max : Nat) (va : VaList) : List UInt8 → Nat → List UInt8 → List UInt8
  | [], _, out => out
  | [c], _, out =>
    -- a `%` at the end of the format is dropped
    if out.length < max - 1 ∧ c ≠ 0x25 then bufPutc max out c else out
  | c :: spec :: fmt, arg, out =>
    if ¬ out.length < max - 1 then out
    else if c ≠ 0x25 then klogVformatLoop max va (spec :: fmt) arg (bufPutc max out c)
    else
      let r := formatSpec max va spec arg out
      klogVformatLoop max va fmt r.1 r.2

def klogVformat (max : Nat) (fmt : CStr) (va : VaList) : List UInt8 :=
  klogVformatLoop max va fmt.bytes 0 []

/-! ## Printing -/

def levelName (level : UInt32) : String :=
  if level = 0 then "DEBUG"
  else if level = 1 then "INFO "
  else if level = 2 then "WARN "
  else if level = 3 then "ERROR"
  else if level = 4 then "FATAL"
  else "?????"

inductive ConsoleLine where
  | text (line : String)
  | entry (sec frac : UInt32) (level : String) (msg : List UInt8)
  deriving DecidableEq

def entryLine (timestampNs : UInt64) (level : UInt32) (msg : List UInt8) : ConsoleLine :=
  let ms := timestampNs / 1000000
  .entry (ms / 1000).toUInt32 (ms % 1000).toUInt32 (levelName level) msg

def printEntry (e : KlogEntry) : ConsoleLine :=
  entryLine e.timestampNs e.level (e.msg.slots.takeWhile (· != 0))

/-! ## The file -/

structure LogFile where
  size : Nat
  byte : Nat → UInt8

inductive WriteOutcome where
  | done
  | failed (left : Nat → UInt8)

def LogFile.write (f : LogFile) (outcome : WriteOutcome) (off : Nat) (buf : List UInt8) :
    Bool × LogFile :=
  match outcome with
  | .done =>
    (true, ⟨max f.size (off + buf.length), fun i =>
      if off ≤ i ∧ i < off + buf.length then buf.getD (i - off) 0 else f.byte i⟩)
  | .failed left =>
    (false, { f with byte := fun i => if off ≤ i ∧ i < off + buf.length then left i else f.byte i })

def LogFile.read (f : LogFile) (off n : Nat) : Option (List UInt8) :=
  if off + n ≤ f.size then some ((List.range n).map (fun i => f.byte (off + i))) else none

inductive CreateOutcome where
  | refused
  | unsaved (bytes : Nat → UInt8)
  | done (bytes : Nat → UInt8)

structure FlushEnv where
  /-- `fs_open` finds a free descriptor. -/
  opens : Bool
  create : CreateOutcome
  /-- The second `fs_open` finds a free descriptor. -/
  reopens : Bool
  header : WriteOutcome
  entry : Nat → WriteOutcome

def openLog (file : Option LogFile) (env : FlushEnv) : Option LogFile × Option LogFile :=
  match file with
  | some f => (if env.opens then some f else none, some f)
  | none =>
    match env.create with
    | .refused => (none, none)
    | .unsaved bytes => (none, some ⟨0, bytes⟩)
    | .done bytes => (if env.reopens then some ⟨0, bytes⟩ else none, some ⟨0, bytes⟩)

def encodeHeader (entryCount head : Nat) : List UInt8 :=
  leBytes 4 klogMagic.toNat ++ leBytes 4 entryCount ++ leBytes 4 head ++ leBytes 4 0

def KlogEntry.encode (e : KlogEntry) : List UInt8 :=
  leBytes 8 e.timestampNs.toNat ++ leBytes 4 e.level.toNat ++ e.msg.slots ++ List.replicate 4 0

def headerSize : Nat := 16
def entrySize : Nat := 272

def KlogEntry.decode (bytes : List UInt8) : KlogEntry where
  timestampNs := UInt64.ofNat (leNat (bytes.take 8))
  level := UInt32.ofNat (leNat ((bytes.drop 8).take 4))
  msg := Table.ofList 0 ((bytes.drop 12).take klogMsgSize)

/-! ## The log -/

structure KlogState where
  ring : Nat → KlogEntry
  head : Nat
  count : Nat
  minLevel : UInt32
  initialized : Bool
  flushing : Bool

def writeEntries (ring : Nat → KlogEntry) (start : Nat) (outcome : Nat → WriteOutcome) :
    Nat → Nat → Nat → LogFile → LogFile
  | 0, _, _, f => f
  | n + 1, i, offset, f =>
    let idx := (start + i) % klogMaxEntries
    let r := f.write (outcome i) offset (ring idx).encode
    if r.1 then writeEntries ring start outcome n (i + 1) (offset + entrySize) r.2
    else r.2

def klogFlush (s : KlogState) (file : Option LogFile) (env : FlushEnv) :
    Int × KlogState × Option LogFile :=
  if ¬ s.initialized ∨ s.count = 0 then (0, s, file)
  else
    -- `g_flushing` is set here and cleared on every way out
    let s := { s with flushing := false }
    match openLog file env with
    | (none, file) => (-1, s, file)
    | (some f, _) =>
      let wr := f.write env.header 0 (encodeHeader s.count s.head)
      if ¬ wr.1 then (-1, s, some wr.2)
      else
        let start := oldestCell klogMaxEntries s.count s.head
        (0, s, some (writeEntries s.ring start env.entry s.count 0 headerSize wr.2))

def dumpEmpty : ConsoleLine := .text "[klog] Log is empty\n"
def dumpBegin (count : Nat) : ConsoleLine :=
  .text ("[klog] Dumping " ++ toString count ++ " entries:\n")
def dumpEnd : ConsoleLine := .text "[klog] End of log dump\n"

def klogDump (s : KlogState) : List ConsoleLine :=
  if ¬ s.initialized ∨ s.count = 0 then [dumpEmpty]
  else
    let start := oldestCell klogMaxEntries s.count s.head
    dumpBegin s.count :: (List.range s.count).map (fun i =>
      printEntry (s.ring ((start + i) % klogMaxEntries))) ++ [dumpEnd]

structure KlogCall where
  level : UInt32
  fmt : CStr
  va : VaList
  now : UInt64
  env : FlushEnv

def KlogCall.fill (c : KlogCall) (e : KlogEntry) : KlogEntry where
  timestampNs := c.now
  level := c.level
  msg := e.msg.write 0 (klogVformat klogMsgSize c.fmt c.va ++ [0])

def KlogState.push (s : KlogState) (c : KlogCall) : KlogState :=
  { s with
    ring := setCell s.ring s.head (c.fill (s.ring s.head))
    head := (s.head + 1) % klogMaxEntries
    count := if s.count < klogMaxEntries then s.count + 1 else s.count }

def klog (s : KlogState) (file : Option LogFile) (c : KlogCall) : KlogState × Option LogFile :=
  if ¬ s.initialized then (s, file)
  else if c.level < s.minLevel then (s, file)
  else
    let s := s.push c
    if klogFlushThreshold ≤ s.count ∧ ¬ s.flushing then (klogFlush s file c.env).2 else (s, file)

def replayEntries (f : LogFile) : Nat → Nat → List ConsoleLine
  | 0, _ => []
  | n + 1, offset =>
    match f.read offset entrySize with
    | none => []
    | some bytes => printEntry (KlogEntry.decode bytes) :: replayEntries f n (offset + entrySize)

def replayBegin : ConsoleLine := .text "[klog] Previous boot log:\n"
def replayEnd : ConsoleLine := .text "[klog] End of previous boot log\n"

def replayFromDisk (file : Option LogFile) : List ConsoleLine :=
  match file with
  | none => []
  | some f =>
    if f.size < headerSize then []
    else match f.read 0 headerSize with
    | none => []
    | some hdr =>
      let magic := leNat (hdr.take 4)
      let entryCount := leNat ((hdr.drop 4).take 4)
      if magic ≠ klogMagic.toNat then []
      else if entryCount = 0 then []
      else
        let toRead := if klogMaxEntries < entryCount then klogMaxEntries else entryCount
        replayBegin :: replayEntries f toRead headerSize ++ [replayEnd]

def zeroEntry : KlogEntry := ⟨0, 0, Table.ofList 0 []⟩

def klogInit (s : KlogState) (file : Option LogFile) : KlogState × List ConsoleLine :=
  ({ s with ring := fun _ => zeroEntry, head := 0, count := 0, flushing := false,
            initialized := true }, replayFromDisk file)

/-! ## Runs -/

structure Logger where
  log : KlogState
  file : Option LogFile

inductive KlogOp where
  | log (c : KlogCall)
  | flush (env : FlushEnv)
  | setLevel (minLevel : UInt32)

def Logger.step (l : Logger) : KlogOp → Logger
  | .log c => ⟨(klog l.log l.file c).1, (klog l.log l.file c).2⟩
  | .flush env => ⟨(klogFlush l.log l.file env).2.1, (klogFlush l.log l.file env).2.2⟩
  | .setLevel minLevel => ⟨{ l.log with minLevel := minLevel }, l.file⟩

def Logger.boot (s : KlogState) (file : Option LogFile) : Logger := ⟨(klogInit s file).1, file⟩

end AlJefra.Kernel.Klog
