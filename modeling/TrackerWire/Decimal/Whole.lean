import TrackerWire.Ascii

/-!
# Reading whole numbers

A whole number is one or more digits, perhaps behind a sign, and within a bound. Nothing else may
stand in the text, not even a blank.
-/

namespace TrackerWire.Whole

def limit32 : Nat := 0x100000000

def limit63 : Nat := 0x8000000000000000

def limit64 : Nat := 0x10000000000000000

/-- The number that one or more digits of a base denote. -/
def ofDigits? (base : Nat) (digit? : UInt8 → Option Nat) (text : Bytes) : Option Nat :=
  match text with
  | [] => none
  | _ => text.foldlM (fun n b => (digit? b).map (n * base + ·)) 0

/-- The text behind a plus sign, if it starts with one. -/
def dropPlus (text : Bytes) : Bytes :=
  match text with
  | b :: rest => if b = Ascii.plus then rest else text
  | [] => []

/-- A number below `limit` in decimal digits, perhaps behind a plus sign. -/
def decimalBelow? (limit : Nat) (text : Bytes) : Option Nat :=
  (ofDigits? 10 Ascii.digitValue? (dropPlus text)).filter (· < limit)

/-- A number below `limit` in hexadecimal digits, perhaps behind a plus sign. -/
def hexBelow? (limit : Nat) (text : Bytes) : Option Nat :=
  (ofDigits? 16 Ascii.hexValue? (dropPlus text)).filter (· < limit)

/-- A number that fits a signed word of 64 bits, in decimal digits, perhaps behind a sign. -/
def signed64? (text : Bytes) : Option Int :=
  match text with
  | b :: rest =>
    if b = Ascii.minus then
      ((ofDigits? 10 Ascii.digitValue? rest).filter (· ≤ limit63)).map fun n => -(n : Int)
    else (decimalBelow? limit63 text).map fun n => (n : Int)
  | [] => none

end TrackerWire.Whole
