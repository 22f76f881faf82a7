import ScriptHost.Text.CodePoints

/-! The two sets of blanks: the Unicode property White_Space, and the six bytes that separate
tokens on a console. -/
namespace ScriptHost

def whiteSpace : CodePoints where
  ranges :=
    [(0x09, 0x0D), (0x20, 0x20), (0x85, 0x85), (0xA0, 0xA0), (0x1680, 0x1680), (0x2000, 0x200A),
      (0x2028, 0x2029), (0x202F, 0x202F), (0x205F, 0x205F), (0x3000, 0x3000)]

def isWhiteSpace (c : Char) : Bool := whiteSpace.contains c

def trim (text : List Char) : List Char :=
  ((text.dropWhile isWhiteSpace).reverse.dropWhile isWhiteSpace).reverse

/-- Space, tab, line feed, vertical tab, form feed and carriage return. -/
def isSeparator (b : UInt8) : Bool := b == 0x20 || (0x09 ≤ b && b ≤ 0x0D)

end ScriptHost
