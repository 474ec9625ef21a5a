import TrackerWire.Ascii

/-!
# Hexadecimal

Bytes as pairs of lower case digits, and back from digits of either case.
-/

namespace TrackerWire.Hex

def digit (n : Nat) : Char := Nat.digitChar n

def byteDigits (b : UInt8) : List Char := [digit (b.toNat / 16), digit (b.toNat % 16)]

/-- Two lower case digits per byte. -/
def encode (bytes : Bytes) : String := String.ofList (bytes.flatMap byteDigits)

def word (w : UInt16) : String := encode (Bytes.ofWord w)

/-- A byte list in brackets, two digits per byte. -/
def list (bytes : Bytes) : String :=
  "[" ++ ", ".intercalate (bytes.map fun b => String.ofList (byteDigits b)) ++ "]"

/-- Why text is not hexadecimal. -/
inductive Error where
  /-- An odd number of digits. -/
  | oddLength
  /-- The byte at `index` is no digit. -/
  | badDigit (byte : UInt8) (index : Nat)
  deriving DecidableEq, Repr

/-- Pairs of digits from position `index` on; the first byte that is no digit is reported. -/
def decodeFrom (index : Nat) : Bytes → Except Error Bytes
  | hi :: lo :: rest =>
    match Ascii.hexValue? hi, Ascii.hexValue? lo with
    | none, _ => .error (.badDigit hi index)
    | some _, none => .error (.badDigit lo (index + 1))
    | some h, some l => (decodeFrom (index + 2) rest).map (UInt8.ofNat (h * 16 + l) :: ·)
  | [_] => .error .oddLength
  | [] => .ok []

/-- The bytes that hexadecimal text stands for. An odd length is reported before any bad digit. -/
def decode (text : Bytes) : Except Error Bytes :=
  if text.length % 2 = 1 then .error .oddLength else decodeFrom 0 text

end TrackerWire.Hex
