import ScriptHost.Text.Visible

/-! Control and other special characters written as escapes. -/
namespace ScriptHost.Escape

/-- The letter that stands for a character behind a backslash, where there is one. -/
def letter? : Char → Option Char
  | '\t' => some 't'
  | '\r' => some 'r'
  | '\n' => some 'n'
  | '\'' => some '\''
  | '"' => some '"'
  | '\\' => some '\\'
  | _ => none

structure Form where
  keeps : Char → Bool

/-- A character by itself: everything but plain printable ASCII is escaped. -/
def alone : Form where
  keeps c := (letter? c).isNone && 0x20 ≤ c.toNat && c.toNat ≤ 0x7E

/-- A character between double quotes: a single quote and all visible text stay. -/
def quoted : Form where
  keeps c := c == '\'' || ((letter? c).isNone && isVisible c)

def ofChar (form : Form) (c : Char) : List Char :=
  if form.keeps c then [c]
  else match letter? c with
    | some l => ['\\', l]
    | none => ['\\', 'u', '\x7b'] ++ Nat.toDigits 16 c.toNat ++ ['\x7d']

def ofText (form : Form) (text : List Char) : List Char := text.flatMap (ofChar form)

end ScriptHost.Escape
