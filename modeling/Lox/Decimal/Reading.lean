/-!
# Numbers read from text

`nearest m k` is the double nearest to `m * 10 ^ k`, and `read?` is the number a text spells: digits
with at most one point, then perhaps an exponent, or a word for infinity or for no number, each
perhaps after a sign.

* The digits before or after the point may be missing, not both.
* The words are `inf`, `infinity` and `nan`, in capitals or not.
* Nothing else may stand in the text, blanks included.
-/

namespace Lox.Decimal

/-- The value of some decimal digits. -/
def valueOf (ds : List Char) : Nat := ds.foldl (fun n c => n * 10 + (c.toNat - '0'.toNat)) 0

/-- The double nearest to `m * 10 ^ k`. Past `10 ^ 310` every number is nearest to infinity, and
    below `10 ^ (-330)` to zero, so no larger power of ten is ever computed. -/
def nearest (m : Nat) (k : Int) : Float :=
  let magnitude := (Nat.toDigits 10 m).length + k
  if m = 0 ∨ magnitude < -330 then 0
  else if 310 < magnitude then Float.ofBits 0x7FF0000000000000
  else Float.ofScientific m (k < 0) k.natAbs

/-- The double nearest to the digits `whole`, a point, and the digits `fraction`. -/
def ofDigits (whole fraction : List Char) : Float :=
  nearest (valueOf (whole ++ fraction)) (-(fraction.length : Int))

/-- The digits in front of a text, and the rest. -/
def spanDigits (cs : List Char) : List Char × List Char :=
  (cs.takeWhile Char.isDigit, cs.dropWhile Char.isDigit)

/-- The number that digits, perhaps with a sign, spell. -/
def exponent? (cs : List Char) : Option Int :=
  let number (ds : List Char) : Option Int :=
    if ds ≠ [] ∧ ds.all Char.isDigit then some (valueOf ds) else none
  match cs with
  | '-' :: ds => (number ds).map (- ·)
  | '+' :: ds => number ds
  | ds => number ds

/-- The number that a text without a sign spells. -/
def magnitude? (cs : List Char) : Option Float :=
  match String.ofList (cs.map Char.toLower) with
  | "inf" | "infinity" => some (Float.ofBits 0x7FF0000000000000)
  | "nan" => some (Float.ofBits 0x7FF8000000000000)
  | _ =>
    let (whole, rest) := spanDigits cs
    let (fraction, rest) := match rest with
      | '.' :: rest => spanDigits rest
      | rest => ([], rest)
    if whole = [] ∧ fraction = [] then
      none
    else
      let shift := -(fraction.length : Int)
      match rest with
      | [] => some (nearest (valueOf (whole ++ fraction)) shift)
      | 'e' :: e | 'E' :: e =>
        (exponent? e).map fun k => nearest (valueOf (whole ++ fraction)) (k + shift)
      | _ => none

/-- The number that a text spells. -/
def read? (cs : List Char) : Option Float :=
  match cs with
  | '-' :: cs => (magnitude? cs).map (- ·)
  | '+' :: cs => magnitude? cs
  | cs => magnitude? cs

end Lox.Decimal
