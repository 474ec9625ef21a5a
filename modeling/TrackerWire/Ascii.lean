import TrackerWire.Bytes

/-!
# ASCII

The bytes that mean something in a sentence, digit classes, and text as US-ASCII.
-/

namespace TrackerWire.Ascii

def cr : UInt8 := 0x0D
def lf : UInt8 := 0x0A
def space : UInt8 := 0x20
def plus : UInt8 := 0x2B
def comma : UInt8 := 0x2C
def minus : UInt8 := 0x2D
def point : UInt8 := 0x2E
def atSign : UInt8 := 0x40
def backslash : UInt8 := 0x5C
def bar : UInt8 := 0x7C
def zero : UInt8 := 0x30

def isDigit (b : UInt8) : Bool := 0x30 ≤ b && b ≤ 0x39

/-- The value of a hexadecimal digit of either case. -/
def hexValue? (b : UInt8) : Option Nat :=
  if 0x30 ≤ b && b ≤ 0x39 then some (b.toNat - 0x30)
  else if 0x61 ≤ b && b ≤ 0x66 then some (b.toNat - 0x61 + 10)
  else if 0x41 ≤ b && b ≤ 0x46 then some (b.toNat - 0x41 + 10)
  else none

def isHexDigit (b : UInt8) : Bool := (hexValue? b).isSome

def digitValue? (b : UInt8) : Option Nat := if isDigit b then some (b.toNat - 0x30) else none

/-- The lower case form of an ASCII letter; every other byte is itself. -/
def lower (b : UInt8) : UInt8 := if 0x41 ≤ b && b ≤ 0x5A then b + 0x20 else b

/-- The character of a byte: U+FFFD outside ASCII. -/
def char (b : UInt8) : Char := if b < 0x80 then Char.ofNat b.toNat else '\uFFFD'

/-- A byte string read as US-ASCII text. -/
def text (bytes : Bytes) : String := String.ofList (bytes.map char)

/-- The bytes of a character string in UTF-8. -/
def utf8 (s : String) : Bytes := s.toByteArray.data.toList

end TrackerWire.Ascii
