/-!
# What a double stands for

A double is not a number, an infinity, or a sign with `mantissa * 2 ^ exponent`. `parts` reads that
off the bits; everything that writes a number starts from it.

* `parts x`: the reading of `x`;
* `Parts.integral?`: the magnitude of a finite double that is an integer, exactly.
-/

namespace Lox.Decimal

/-- What a double stands for. -/
inductive Parts where
  /-- No number. -/
  | nan
  /-- Past every number, on one side. -/
  | infinite (negative : Bool)
  /-- The number `mantissa * 2 ^ exponent`, with a sign of its own also for zero. -/
  | finite (negative : Bool) (mantissa : Nat) (exponent : Int)
deriving DecidableEq, Repr

/-- The exponent of the smallest doubles, whose spacing no smaller double undercuts. -/
def leastExponent : Int := -1074

/-- What the double `x` stands for. -/
def parts (x : Float) : Parts :=
  let bits := x.toBits.toNat
  let negative := decide (Nat.pow 2 63 ≤ bits)
  let biased : Nat := bits / Nat.pow 2 52 % Nat.pow 2 11
  let fraction : Nat := bits % Nat.pow 2 52
  if biased = 2047 then
    if fraction = 0 then .infinite negative else .nan
  else if biased = 0 then
    .finite negative fraction leastExponent
  else
    .finite negative (fraction + Nat.pow 2 52) ((biased : Int) - 1075)

/-- The integer `mantissa * 2 ^ exponent`, if it is one. -/
def integer? (mantissa : Nat) (exponent : Int) : Option Nat :=
  if 0 ≤ exponent then
    some (mantissa * Nat.pow 2 exponent.toNat)
  else if mantissa % Nat.pow 2 (-exponent).toNat = 0 then
    some (mantissa / Nat.pow 2 (-exponent).toNat)
  else
    none

/-- The magnitude of a finite double that is an integer. -/
def Parts.integral? : Parts → Option Nat
  | .nan | .infinite _ => none
  | .finite _ m q => integer? m q

end Lox.Decimal
