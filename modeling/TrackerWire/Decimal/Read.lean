import TrackerWire.Decimal.Whole

/-!
# Reading floating-point numbers

The text is an optional sign and then `inf`, `infinity` or `nan` in either case, or digits with
an optional point among or beside them and an optional exponent. It denotes the double nearest to
its exact value, and an infinity beyond the greatest one.
-/

namespace TrackerWire.Decimal

def infinity : Float := Float.ofBits 0x7FF0000000000000

def notANumber : Float := Float.ofBits 0x7FF8000000000000

/-- The double nearest to `mantissa` times ten to `exponent`. Beyond ten to 310 every double is
infinite, and below ten to minus 330 none but zero is near. -/
def nearest (mantissa : Nat) (exponent : Int) : Float :=
  if mantissa = 0 then 0
  else
    let size := (Nat.toDigits 10 mantissa).length + exponent
    if size > 310 then infinity
    else if size < -330 then 0
    else Float.ofScientific mantissa (exponent < 0) exponent.natAbs

/-- The number that digits denote; none denote zero. -/
def digitsValue (digits : Bytes) : Nat := digits.foldl (fun n b => n * 10 + (b.toNat - 0x30)) 0

/-- An exponent: nothing, or the letter and one or more digits, perhaps behind a sign. -/
def exponent? (text : Bytes) : Option Int :=
  match text with
  | [] => some 0
  | e :: rest =>
    if Ascii.lower e = 0x65 then
      match rest with
      | b :: digits =>
        if b = Ascii.minus then
          (Whole.ofDigits? 10 Ascii.digitValue? digits).map fun n => -(n : Int)
        else
          (Whole.ofDigits? 10 Ascii.digitValue? (Whole.dropPlus rest)).map fun n => (n : Int)
      | [] => none
    else none

/-- A number without sign. -/
def magnitude? (text : Bytes) : Option Float :=
  let whole := text.takeWhile Ascii.isDigit
  let rest := text.dropWhile Ascii.isDigit
  let (fraction, rest) :=
    match rest with
    | b :: after =>
      if b = Ascii.point then (after.takeWhile Ascii.isDigit, after.dropWhile Ascii.isDigit)
      else ([], rest)
    | [] => ([], [])
  if whole = [] ∧ fraction = [] then none
  else
    (exponent? rest).map fun exponent =>
      nearest (digitsValue (whole ++ fraction)) (exponent - fraction.length)

def unsigned? (text : Bytes) : Option Float :=
  let name := text.map Ascii.lower
  if name = Ascii.utf8 "inf" ∨ name = Ascii.utf8 "infinity" then some infinity
  else if name = Ascii.utf8 "nan" then some notANumber
  else magnitude? text

/-- The double a text denotes. -/
def read? (text : Bytes) : Option Float :=
  match text with
  | b :: rest =>
    if b = Ascii.minus then (unsigned? rest).map fun x => -x
    else unsigned? (Whole.dropPlus text)
  | [] => none

end TrackerWire.Decimal
