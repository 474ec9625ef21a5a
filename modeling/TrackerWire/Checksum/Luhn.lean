/-!
# The Luhn check digit

Digits are weighed from the right, where the check digit will be appended: the first counts twice,
the next once, and so on, a doubled digit above nine losing nine (specification, §4.1).
-/

namespace TrackerWire.Luhn

/-- The decimal digits of a number, least significant first; none for zero. -/
def lowDigits (n : Nat) : List Nat :=
  if n = 0 then [] else n % 10 :: lowDigits (n / 10)

/-- A doubled digit, brought back below ten. -/
def doubled (d : Nat) : Nat := if d * 2 ≥ 10 then d * 2 - 9 else d * 2

/-- The weighed sum of digits given from the right; `twice` says whether the first is doubled. -/
def weighedSum (twice : Bool) : List Nat → Nat
  | [] => 0
  | d :: rest => (if twice then doubled d else d) + weighedSum (!twice) rest

/-- The digit that completes a number to one whose weighed sum is a multiple of ten. -/
def checkDigit (value : Nat) : Nat := (10 - weighedSum true (lowDigits value) % 10) % 10

end TrackerWire.Luhn
