import TrackerWire.Decimal.Binary64

/-!
# The shortest decimal of a double

Of the decimals that read back as a double, the one with the fewest digits; among several of
those, the nearest to the double; at equal distance, the greater. It is written positionally,
whatever its size.
-/

namespace TrackerWire.Decimal

open Binary64

/-- A natural number times ten to a power. -/
structure Scaled where
  digits : Nat
  exponent : Int
  deriving DecidableEq, Repr

/-- How many zeros follow the point of a fraction below one; at most `fuel`. -/
def zerosAfterPoint (num den : Nat) : Nat → Nat
  | 0 => 0
  | fuel + 1 => if num * 10 ≥ den then 0 else zerosAfterPoint (num * 10) den fuel + 1

/-- The power of ten just above a positive fraction: the fraction is below it, and not below the
power before it. -/
def magnitude (r : Ratio) : Int :=
  if r.num ≥ r.den then (Nat.toDigits 10 (r.num / r.den)).length
  else -(zerosAfterPoint r.num r.den 400 : Int)

/-- The nearest point of the grid of `10 ^ exponent` that lies within the bounds of a double, the
upper one of two at equal distance. -/
def onGrid? (mantissa : Nat) (binary exponent : Int) : Option Nat :=
  let unit := scaled 1 binary
  let tenUp := Nat.pow 10 exponent.toNat
  let tenDown := Nat.pow 10 (-exponent).toNat
  -- in multiples of a quarter of the double's unit, a grid step is `step / den`
  let step := 4 * tenUp * unit.den
  let den := unit.num * tenDown
  let value := 4 * mantissa * den
  let (low, high) := bounds mantissa binary
  let within (d : Nat) : Bool :=
    if mantissa % 2 = 0 then decide (low * den ≤ d * step) && decide (d * step ≤ high * den)
    else decide (low * den < d * step) && decide (d * step < high * den)
  let below := value / step
  let above := below + 1
  match within below, within above with
  | false, false => none
  | true, false => some below
  | false, true => some above
  | true, true => if above * step - value ≤ value - below * step then some above else some below

/-- The point of the coarsest grid that has one, from `places` digits on; seventeen are always
enough. A point one digit longer than its grid's is a power of ten. -/
def shortestFrom (mantissa : Nat) (binary magnitude : Int) : (fuel places : Nat) → Scaled
  | 0, places => ⟨0, magnitude - places⟩
  | fuel + 1, places =>
    match onGrid? mantissa binary (magnitude - places) with
    | some d => if d = Nat.pow 10 places then ⟨1, magnitude⟩ else ⟨d, magnitude - places⟩
    | none => shortestFrom mantissa binary magnitude fuel (places + 1)

/-- The shortest decimal of a positive double. -/
def shortest (mantissa : Nat) (binary : Int) : Scaled :=
  shortestFrom mantissa binary (magnitude (scaled mantissa binary)) 20 1

/-- The text of a decimal, without an exponent, with a point only before digits. -/
def positional (d : Scaled) : String :=
  let digits := Nat.toDigits 10 d.digits
  if 0 ≤ d.exponent then String.ofList (digits ++ List.replicate d.exponent.toNat '0')
  else
    let places := (-d.exponent).toNat
    let padded := List.replicate (places + 1 - digits.length) '0' ++ digits
    let whole := padded.length - places
    String.ofList (padded.take whole ++ '.' :: padded.drop whole)

/-- A sign in front of text. -/
def withSign (negative : Bool) (text : String) : String := if negative then "-" ++ text else text

/-- The text of a double with the fewest digits that read back. -/
def text (x : Float) : String :=
  match parts x with
  | .nan => "NaN"
  | .infinite negative => withSign negative "inf"
  | .finite negative mantissa binary =>
    withSign negative (if mantissa = 0 then "0" else positional (shortest mantissa binary))

end TrackerWire.Decimal
