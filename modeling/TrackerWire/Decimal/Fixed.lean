import TrackerWire.Decimal.Shortest
import TrackerWire.Text.Pad

/-!
# Decimals with a fixed number of places

The exact value of a double, rounded to a number of places after the point; a value half way
between two goes to the even one.
-/

namespace TrackerWire.Decimal

open Binary64

/-- A quotient rounded to a whole number, a half to the even neighbour. -/
def roundHalfEven (num den : Nat) : Nat :=
  let q := num / den
  let r := num % den
  if 2 * r > den ∨ (2 * r = den ∧ q % 2 = 1) then q + 1 else q

/-- The text of a double with `places` digits after the point. -/
def fixed (places : Nat) (x : Float) : String :=
  match parts x with
  | .nan => "NaN"
  | .infinite negative => withSign negative "inf"
  | .finite negative mantissa binary =>
    let r := scaled mantissa binary
    let unit := Nat.pow 10 places
    let n := roundHalfEven (r.num * unit) r.den
    withSign negative (toString (n / unit) ++ "." ++ Text.zeroPad places (n % unit))

end TrackerWire.Decimal
