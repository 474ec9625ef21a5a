import TrackerWire.Ascii

/-!
# Escapes

Text made of ASCII and U+FFFD, or a single byte, written so that nothing of it acts on a terminal:
control characters, quotes and the backslash are escaped.
-/

namespace TrackerWire.Text

/-- A character as its number in braces. -/
def unicodeEscape (c : Char) : List Char :=
  ['\\', 'u', '\x7b'] ++ Nat.toDigits 16 c.toNat ++ ['\x7d']

/-- Is the character of Latin-1 one that does not show? -/
def isHidden (c : Char) : Bool :=
  let n := c.toNat
  n < 0x20 || (0x7F ≤ n && n ≤ 0xA0) || n == 0xAD

/-- A character, escaped where it has to be; quotes are left to the caller. -/
def escapeChar (c : Char) : List Char :=
  if c = '\x00' then ['\\', '0']
  else if c = '\t' then ['\\', 't']
  else if c = '\r' then ['\\', 'r']
  else if c = '\n' then ['\\', 'n']
  else if c = '\\' then ['\\', '\\']
  else if isHidden c then unicodeEscape c
  else [c]

def isQuote (c : Char) : Bool := c = '"' || c = '\''

/-- Text with its characters escaped, both quotes too. -/
def escaped (text : String) : String :=
  String.ofList (text.toList.flatMap fun c => if isQuote c then ['\\', c] else escapeChar c)

/-- A character between single quotes. -/
def quoted (c : Char) : String :=
  String.ofList (['\''] ++ (if c = '\'' then ['\\', '\''] else escapeChar c) ++ ['\''])

end TrackerWire.Text
