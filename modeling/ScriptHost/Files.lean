/-! The files that reports are written to. What a path leads to is given from outside; the regular
files among them keep what was written last. -/
namespace ScriptHost

inductive FileError where
  | notCreated (reason : String)
  | notWritten (reason : String)
  deriving DecidableEq, Repr

/-- What a path leads to. -/
inductive PathKind where
  | regular
  /-- Takes everything and keeps nothing. -/
  | nullDevice
  /-- The program's own output. -/
  | standardOutput
  /-- The program's own error stream. -/
  | standardError
  /-- No file can be written there. -/
  | failing (failure : FileError)
  deriving DecidableEq, Repr

structure Files where
  kindOf : String → PathKind
  /-- The contents of regular files, the latest first. -/
  contents : List (String × String)

namespace Files

def content? (files : Files) (path : String) : Option String := files.contents.lookup path

def keep (files : Files) (path text : String) : Files :=
  { files with contents := (path, text) :: files.contents }

end Files
end ScriptHost
