import ScriptHost.Heap.Basic
import ScriptHost.Text.Json

/-! The report on a heap that a program gives at its end, and the setting that asks for it. -/
namespace ScriptHost

inductive ReportFormat where
  | human
  | json
  deriving DecidableEq, Repr

inductive ReportDestination where
  | stderr
  | file (path : String)
  deriving DecidableEq, Repr

structure ReportSettings where
  format : ReportFormat
  destination : ReportDestination
  deriving DecidableEq, Repr

inductive ReportChoice where
  | off
  | on (settings : ReportSettings)
  | unrecognized (raw : String)
  deriving DecidableEq, Repr

namespace ReportChoice

def jsonPath? (raw : String) : Option String :=
  match raw.toList with
  | 'j' :: 's' :: 'o' :: 'n' :: ':' :: c :: path => some (String.ofList (c :: path))
  | _ => none

def parse (raw : String) : ReportChoice :=
  if raw = "" ∨ raw = "0" then .off
  else if raw = "1" then .on ⟨.human, .stderr⟩
  else if raw = "json" then .on ⟨.json, .stderr⟩
  else match jsonPath? raw with
    | some path => .on ⟨.json, .file path⟩
    | none => .unrecognized raw

def settings? : ReportChoice → Option ReportSettings
  | .on settings => some settings
  | _ => none

end ReportChoice

structure HeapReport where
  stats : HeapStats
  maxObjects : Option Nat
  deriving DecidableEq, Repr

namespace HeapReport

def human (r : HeapReport) : String :=
  let limit := match r.maxObjects with
    | some n => toString n
    | none => "unbounded"
  "=== PYLITE REPORT ===\n"
    ++ "Strings live:      " ++ toString r.stats.stringsLive ++ "\n"
    ++ "Strings allocated: " ++ toString r.stats.stringsAllocated ++ "\n"
    ++ "String bytes:      " ++ toString r.stats.stringBytes ++ "\n"
    ++ "Lists live:        " ++ toString r.stats.listsLive ++ "\n"
    ++ "Lists allocated:   " ++ toString r.stats.listsAllocated ++ "\n"
    ++ "List elements:     " ++ toString r.stats.listElements ++ "\n"
    ++ "Object limit:      " ++ limit ++ "\n"
    ++ "=====================\n"

/-- The members of the report's object in their order: one for every figure, and one for the limit. -/
def members (r : HeapReport) : List Json.Member :=
  [("strings_live", some r.stats.stringsLive),
    ("lists_live", some r.stats.listsLive),
    ("strings_allocated", some r.stats.stringsAllocated),
    ("lists_allocated", some r.stats.listsAllocated),
    ("string_bytes", some r.stats.stringBytes),
    ("list_elements", some r.stats.listElements),
    ("releases", some r.stats.releases),
    ("max_objects", r.maxObjects)]

/-- Where the object cannot be written, an empty one stands for it. -/
def json (write : List Json.Member → Option String) (r : HeapReport) : String :=
  (write r.members).getD "\x7b\x7d" ++ "\n"

def render (write : List Json.Member → Option String) (format : ReportFormat) (r : HeapReport) : String :=
  match format with
  | .human => r.human
  | .json => r.json write

end HeapReport
end ScriptHost
