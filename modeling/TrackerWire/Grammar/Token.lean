import TrackerWire.Ascii

/-!
# Tokens

The pieces of text a sentence is made of. A token that can stop at several places offers each of
them, the longest piece first (`Token.lengths`).
-/

namespace TrackerWire

/-- A kind of text. -/
inductive Token where
  /-- At least `min` and at most `max` decimal digits. -/
  | digits (min : Nat) (max : Option Nat)
  /-- At least `min` and at most `max` hexadecimal digits of either case. -/
  | hex (min : Nat) (max : Option Nat)
  /-- Digits, a point, digits. -/
  | decimal
  /-- Digits, and perhaps a point with digits or nothing behind it. -/
  | number
  /-- Digits, perhaps behind a minus sign. -/
  | signedInteger
  /-- A number, perhaps behind a minus sign. -/
  | signedNumber
  /-- Degrees and two digits of minutes, a point, digits. -/
  | coordinate
  /-- One byte of a set. -/
  | oneOf (set : Bytes)
  /-- Any run of bytes outside a set, empty ones included. -/
  | noneOf (set : Bytes)
  /-- Any run of bytes up to the end of the line. -/
  | rest
  deriving DecidableEq, Repr

namespace Token

/-- How many bytes in a row, from the first, are of a class. -/
def run (isMember : UInt8 → Bool) (input : Bytes) : Nat := (input.takeWhile isMember).length

def descending (low high : Nat) : List Nat := (List.range' low (high + 1 - low)).reverse

/-- The lengths between two bounds, when `count` bytes are of the class. -/
def boundedLengths (count min : Nat) (max : Option Nat) : List Nat :=
  match max with
  | none => descending min count
  | some max => descending min (Nat.min count max)

/-- The lengths of digits, a point and digits, with at least `minWhole` digits before the point. -/
def decimalLengths (minWhole : Nat) (input : Bytes) : List Nat :=
  let whole := run Ascii.isDigit input
  match input.drop whole with
  | b :: after =>
    if minWhole ≤ whole ∧ b = Ascii.point then
      descending (whole + 2) (whole + 1 + run Ascii.isDigit after)
    else []
  | [] => []

/-- The lengths of digits with perhaps a point behind them, and perhaps digits behind that. -/
def numberLengths (input : Bytes) : List Nat :=
  let whole := run Ascii.isDigit input
  if whole = 0 then []
  else
    let pointed :=
      match input.drop whole with
      | b :: after =>
        if b = Ascii.point then descending (whole + 1) (whole + 1 + run Ascii.isDigit after)
        else []
      | [] => []
    pointed ++ descending 1 whole

/-- The lengths of something that may stand behind a minus sign. -/
def signedLengths (lengths : Bytes → List Nat) (input : Bytes) : List Nat :=
  match input with
  | b :: after => if b = Ascii.minus then (lengths after).map (· + 1) else lengths input
  | [] => lengths []

def inLine (b : UInt8) : Bool := b ≠ Ascii.cr && b ≠ Ascii.lf

/-- The lengths at which a token can stop at the start of `input`, longest first. -/
def lengths (token : Token) (input : Bytes) : List Nat :=
  match token with
  | digits min max => boundedLengths (run Ascii.isDigit input) min max
  | hex min max => boundedLengths (run Ascii.isHexDigit input) min max
  | decimal => decimalLengths 1 input
  | number => numberLengths input
  | signedInteger =>
    signedLengths (fun input => boundedLengths (run Ascii.isDigit input) 1 none) input
  | signedNumber => signedLengths numberLengths input
  | coordinate => decimalLengths 3 input
  | oneOf set =>
    match input with
    | b :: _ => if set.contains b then [1] else []
    | [] => []
  | noneOf set => descending 0 (run (fun b => !set.contains b) input)
  | rest => descending 0 (run inLine input)

end Token

end TrackerWire
