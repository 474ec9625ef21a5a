import TrackerWire.Checksum.Luhn
import TrackerWire.Bytes

/-!
# Device identities

A frame names its device by seven bytes that hold two decimal digits each, high half first. A half
byte of fifteen ends the identifier and fills what is left. An identifier of fourteen characters
has lost its check digit, so the device may also be known with that digit appended (specification,
§4.3).
-/

namespace TrackerWire

/-- The packed identifier of a frame. -/
structure RawId where
  /-- The seven bytes as they travel. -/
  bytes : Bytes
  length_eq : bytes.length = 7
  deriving DecidableEq

/-- The half bytes of a packed identifier, in order. -/
def RawId.nibbles (id : RawId) : List Nat :=
  id.bytes.flatMap fun b => [b.toNat / 16, b.toNat % 16]

/-- A device identifier as text. -/
structure Identity where
  /-- The identifier's characters. -/
  digits : String
  deriving DecidableEq, Repr

namespace Identity

/-- The half byte that ends a packed identifier. -/
def filler : Nat := 15

/-- Length of an identifier that has no check digit yet. -/
def uncheckedLength : Nat := 14

/-- The decimal text of each half byte up to the first filler; ten to fourteen take two
characters. Mirrors §4.3, which knows digits and the filler only. -/
def ofRaw (id : RawId) : Identity :=
  ⟨String.ofList ((id.nibbles.takeWhile (· ≠ filler)).flatMap (Nat.toDigits 10))⟩

def isEmpty (identity : Identity) : Bool := identity.digits.isEmpty

def value (digits : List Char) : Nat := digits.foldl (fun n c => n * 10 + (c.toNat - 48)) 0

/-- The identifier with its check digit appended, if it has the length that lacks one: `altId`
of §3. -/
def withCheckDigit? (identity : Identity) : Option String :=
  if identity.digits.length = uncheckedLength then
    some (identity.digits ++ toString (Luhn.checkDigit (value identity.digits.toList)))
  else none

/-- The identifiers to look a device up by, best first, in the second order of §4.3. -/
def candidates (identity : Identity) : List String :=
  if identity.isEmpty then [] else identity.digits :: identity.withCheckDigit?.toList

end Identity

end TrackerWire
