import ScriptHost.Error
import ScriptHost.Text.Utf8

/-! The events that a program's host logs. Which of them are shown, and how, is up to the log of the host; one
such log shows the events up to a level, each on a line of its own. -/
namespace ScriptHost

open Utf8 (Bytes)

inductive LogLevel where
  | off
  | error
  | warn
  | info
  | debug
  | trace
  deriving DecidableEq, Repr

namespace LogLevel

/-- A level shows the events of its own rank and below. -/
def rank : LogLevel → Nat
  | .off => 0
  | .error => 1
  | .warn => 2
  | .info => 3
  | .debug => 4
  | .trace => 5

def ofName? (name : String) : Option LogLevel :=
  match String.ofList (name.toList.map Char.toLower) with
  | "off" => some .off
  | "error" => some .error
  | "warn" => some .warn
  | "info" => some .info
  | "debug" => some .debug
  | "trace" => some .trace
  | _ => none

/-- Warnings are shown unless a level is named. -/
def ofSetting (setting : Option String) : LogLevel := (setting.bind ofName?).getD .warn

def label : LogLevel → String
  | .off => "OFF"
  | .error => "ERROR"
  | .warn => "WARN"
  | .info => "INFO"
  | .debug => "DEBUG"
  | .trace => "TRACE"

end LogLevel

inductive LogEvent where
  | fatal (cause : RuntimeError)
  | limitRejected (raw : String)
  | reportUnrecognized (raw : String)
  | reportNotCreated (path reason : String)
  | reportNotWritten (path reason : String)
  | heapCreated (maxObjects : Option Nat)
  | inputRejected (tag : TypeTag) (token : Bytes)
  | stringsReleased (count : Nat)
  | listsReleased (count : Nat)
  | cleanedUp (strings lists : Nat)
  | stringPooled (index : UInt32) (length : Nat)
  | concatenationPooled (index : UInt32) (length : Nat)
  | listRegistered (index : UInt32) (capacity : Nat)

namespace LogEvent

def level : LogEvent → LogLevel
  | .fatal _ => .error
  | .limitRejected _ | .reportUnrecognized _ | .reportNotCreated .. | .reportNotWritten .. => .warn
  | .heapCreated _ | .inputRejected .. | .stringsReleased _ | .listsReleased _ | .cleanedUp .. =>
    .debug
  | .stringPooled .. | .concatenationPooled .. | .listRegistered .. => .trace

def limitText : Option Nat → String
  | none => "None"
  | some n => "Some(" ++ toString n ++ ")"

def text : LogEvent → String
  | .fatal cause => "fatal runtime error error=" ++ cause.message
  | .limitRejected raw =>
    "PYLITE_MAX_OBJECTS is not a non-negative integer, ignoring value=" ++ raw
  | .reportUnrecognized raw => "PYLITE_REPORT not recognized, ignoring value=" ++ raw
  | .reportNotCreated path reason =>
    "could not create report file, using stderr path=" ++ path ++ " error=" ++ reason
  | .reportNotWritten path reason =>
    "could not write report path=" ++ path ++ " error=" ++ reason
  | .heapCreated maxObjects => "initialising runtime heap max_objects=" ++ limitText maxObjects
  | .inputRejected tag token =>
    "rejected input tag=" ++ tag.name ++ " token=" ++ String.ofList (Utf8.decodeLossy token)
  | .stringsReleased count => s!"released pooled strings count={count}"
  | .listsReleased count => s!"released lists count={count}"
  | .cleanedUp strings lists => s!"runtime clean-up complete strings={strings} lists={lists}"
  | .stringPooled index length => s!"pooled string index={index} len={length}"
  | .concatenationPooled index length => s!"pooled concatenation index={index} len={length}"
  | .listRegistered index capacity => s!"registered list index={index} capacity={capacity}"

def line (e : LogEvent) : String := e.level.label ++ " " ++ e.text ++ "\n"

def ShownAt (level : LogLevel) (e : LogEvent) : Prop := e.level.rank ≤ level.rank

instance (level : LogLevel) (e : LogEvent) : Decidable (e.ShownAt level) := Nat.decLe ..

end LogEvent

/-- How a host shows events. -/
structure Logging where
  /-- The events that are shown under a setting. -/
  filter : Option String → LogEvent → Bool
  line : LogEvent → String

/-- Knows settings that are the name of a level. -/
def Logging.byLevel : Logging where
  filter setting event := event.ShownAt (.ofSetting setting)
  line := LogEvent.line

end ScriptHost
