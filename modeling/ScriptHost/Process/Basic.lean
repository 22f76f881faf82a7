import ScriptHost.Console.Print
import ScriptHost.Console.Read
import ScriptHost.Files
import ScriptHost.Heap.Lists
import ScriptHost.LimitSetting
import ScriptHost.Log
import ScriptHost.Report

/-! A running program with its heap, console, log and report. The heap comes into being with the
first operation that needs it, and reads its limit from the environment then. -/
namespace ScriptHost

open Utf8 (Bytes)

structure Environment where
  maxObjects : Option String
  report : Option String
  log : Option String
  deriving Repr

/-- What a program's host is built on. -/
structure Platform where
  allocator : Allocator
  logging : Logging
  /-- Writes a JSON object with these members, if it can. -/
  writeObject : List Json.Member → Option String

def Platform.plain : Platform := ⟨.addressable, .byLevel, some ∘ Json.compact⟩

structure LiveHeap where
  heap : Heap
  maxObjects : Option Nat

structure Process where
  platform : Platform
  environment : Environment
  live : Option LiveHeap
  input : Input
  output : Output
  /-- The text on the error stream: log lines and reports. -/
  errors : String
  files : Files
  /-- Which events the log shows, once it is installed. -/
  logFilter : Option (LogEvent → Bool)
  /-- The setting of the report, once it was looked at. -/
  reportChoice : Option ReportChoice

namespace Process

def start (platform : Platform) (environment : Environment) (kindOf : String → PathKind)
    (input : Bytes) : Process where
  platform := platform
  environment := environment
  live := none
  input := [.data input]
  output := .empty none false
  errors := ""
  files := ⟨kindOf, []⟩
  logFilter := none
  reportChoice := none

/-- An event before the log is installed is lost. -/
def log (p : Process) (event : LogEvent) : Process :=
  match p.logFilter with
  | none => p
  | some shows =>
    if shows event then { p with errors := p.errors ++ p.platform.logging.line event } else p

def logAll (p : Process) (events : List LogEvent) : Process := events.foldl log p

/-- The log is installed once, and keeps its filter. -/
def installLog (p : Process) : Process :=
  match p.logFilter with
  | some _ => p
  | none => { p with logFilter := some (p.platform.logging.filter p.environment.log) }

def limitEvents : LimitSetting → List LogEvent
  | .rejected raw => [.limitRejected raw]
  | _ => []

def demandHeap (p : Process) : LiveHeap × Process :=
  match p.live with
  | some live => (live, p)
  | none =>
    let setting := LimitSetting.ofText? p.environment.maxObjects
    let live : LiveHeap := ⟨.empty p.platform.allocator setting.maxObjects, setting.maxObjects⟩
    let p := p.installLog.logAll (limitEvents setting ++ [.heapCreated setting.maxObjects])
    (live, { p with live := some live })

def setHeap (p : Process) (live : LiveHeap) (heap : Heap) : Process :=
  { p with live := some { live with heap } }

/-- Runs an operation on the heap; `events` tells what to log of it. -/
def withHeap {α : Type} (p : Process) (operation : Heap → Outcome α × Heap)
    (events : α → Heap → List LogEvent) : Outcome α × Process :=
  let (live, p) := p.demandHeap
  match operation live.heap with
  | (.error e, heap) => (.error e, p.setHeap live heap)
  | (.ok a, heap) => (.ok a, (p.setHeap live heap).logAll (events a heap))

def onHeap {α : Type} (p : Process) (operation : Heap → Outcome α) : Outcome α × Process :=
  let (live, p) := p.demandHeap
  (operation live.heap, p)

def demandReportChoice (p : Process) : ReportChoice × Process :=
  match p.reportChoice with
  | some choice => (choice, p)
  | none =>
    let choice := match p.environment.report with
      | none => .off
      | some raw => ReportChoice.parse raw
    let events := match choice with
      | .unrecognized raw => [LogEvent.reportUnrecognized raw]
      | _ => []
    (choice, { p with reportChoice := some choice }.logAll events)

/-- A report that finds no file goes to the error stream; one that cannot be written is lost. -/
def deliver (p : Process) (destination : ReportDestination) (text : String) : Process :=
  match destination with
  | .stderr => { p with errors := p.errors ++ text }
  | .file path =>
    match p.files.kindOf path with
    | .regular => { p with files := p.files.keep path text }
    | .nullDevice => p
    | .standardOutput =>
      let bytes := Utf8.ofString text
      let shown := { p with output := (p.output.write bytes).2 }
      match p.output.refusal? bytes with
      | none => shown
      | some reason => shown.log (.reportNotWritten path reason)
    | .standardError => { p with errors := p.errors ++ text }
    | .failing (.notCreated reason) =>
      let p := p.log (.reportNotCreated path reason)
      { p with errors := p.errors ++ text }
    | .failing (.notWritten reason) => p.log (.reportNotWritten path reason)

def giveReport (p : Process) (report : HeapReport) : Process :=
  let (choice, p) := p.demandReportChoice
  match choice.settings? with
  | none => p
  | some settings =>
    p.deliver settings.destination (report.render p.platform.writeObject settings.format)

/-- Reports, then releases all objects; the answer counts strings and lists. -/
def cleanUp (p : Process) : (Nat × Nat) × Process :=
  let (live, p) := p.demandHeap
  let p := p.giveReport ⟨live.heap.stats, live.maxObjects⟩
  let ((strings, lists), heap) := live.heap.releaseAll
  let events := [.stringsReleased strings, .listsReleased lists, .cleanedUp strings lists]
  ((strings, lists), (p.setHeap live heap).logAll events)

def stringEvents (h : StringHandle) (heap : Heap) : List LogEvent :=
  match heap.string h with
  | .ok s => [.stringPooled h.index s.length]
  | .error _ => []

/-- What is logged of the result of a read besides the rejected tokens. -/
def readEvents (heap : Heap) : Outcome Value → List LogEvent
  | .ok (.string h) => stringEvents h heap
  | _ => []

def read (p : Process) (prompt : Bytes) (tag : TypeTag) : Outcome Value × Process :=
  let (live, p) := p.demandHeap
  let reading := readTyped live.heap p.input p.output prompt tag
  let p := { p.setHeap live reading.heap with input := reading.input, output := reading.output }
  let events := reading.rejected.map (.inputRejected tag) ++ readEvents reading.heap reading.result
  (reading.result, p.logAll events)

def print (p : Process) (items : List (TypeTag × Value)) : Outcome Unit × Process :=
  let (live, p) := p.demandHeap
  let (result, output) := printItems live.heap p.output items
  (result, { p with output })

end Process
end ScriptHost
