/-!
# The parts of a double

A finite double is a sign and `mantissa` times two to `exponent`. The reals that round to it reach
half a unit to either side, except that below a power of two the unit is half as wide.
-/

namespace TrackerWire.Binary64

/-- The sign's bit, two to 63. -/
def signBit : Nat := 0x8000000000000000

/-- The bit that a normal double's fraction leaves out, two to 52. -/
def leadingBit : Nat := 0x10000000000000

inductive Parts where
  | nan
  | infinite (negative : Bool)
  | finite (negative : Bool) (mantissa : Nat) (exponent : Int)
  deriving DecidableEq, Repr

def parts (x : Float) : Parts :=
  let bits : Nat := x.toBits.toNat
  let negative := decide (bits ≥ signBit)
  let field : Nat := bits / leadingBit % 2048
  let fraction := bits % leadingBit
  if field = 2047 then
    if fraction = 0 then .infinite negative else .nan
  else if field = 0 then .finite negative fraction (-1074)
  else .finite negative (fraction + leadingBit) ((field : Int) - 1075)

structure Ratio where
  num : Nat
  den : Nat
  deriving DecidableEq, Repr

/-- A whole number times two to a power. -/
def scaled (mantissa : Nat) (exponent : Int) : Ratio :=
  if 0 ≤ exponent then ⟨mantissa * Nat.pow 2 exponent.toNat, 1⟩
  else ⟨mantissa, Nat.pow 2 (-exponent).toNat⟩

/-- Four times the bounds of the reals that round to a double, as whole units of its own last
place. -/
def bounds (mantissa : Nat) (exponent : Int) : Nat × Nat :=
  (4 * mantissa - (if mantissa = leadingBit ∧ exponent > -1074 then 1 else 2), 4 * mantissa + 2)

end TrackerWire.Binary64
