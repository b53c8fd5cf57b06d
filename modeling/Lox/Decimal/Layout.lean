import Lox.Decimal.Shortest

/-!
# Numbers written out

Three layouts of a double, each as the digits it shows:

* `plain`: the fewest digits that read back, never with an exponent;
* `exact`: all digits of an integer;
* `document`: the fewest digits that read back, with a point or an exponent always, as a JSON
  document writes a number.

`text` chooses between the first two: an integer is written exactly, anything else plainly. What
follows an integer, such as `.0`, is the caller's.
-/

namespace Lox.Decimal

/-- The decimal digits of a natural number. -/
def digits (n : Nat) : List Char := Nat.toDigits 10 n

/-- A sign in front of what is negative. -/
def signed (negative : Bool) (cs : List Char) : List Char :=
  if negative then '-' :: cs else cs

/-- The digits `ds` times `10 ^ k`, written with a point where one is needed. -/
def positional (ds : List Char) (k : Int) : List Char :=
  if 0 ≤ k then
    ds ++ List.replicate k.toNat '0'
  else
    let places := (-k).toNat
    if places < ds.length then
      ds.take (ds.length - places) ++ '.' :: ds.drop (ds.length - places)
    else
      '0' :: '.' :: (List.replicate (places - ds.length) '0' ++ ds)

/-- The fewest digits that read back, without an exponent. -/
def plain : Parts → List Char
  | .nan => ['N', 'a', 'N']
  | .infinite negative => signed negative ['i', 'n', 'f']
  | .finite negative 0 _ => signed negative ['0']
  | .finite negative m q =>
    let (d, k) := shortest .up m q
    signed negative (positional (digits d) k)

/-- A number as text: an integer exactly and followed by `tail`, anything else plainly. -/
def text (tail : List Char) (p : Parts) : List Char :=
  match p, p.integral? with
  | .finite negative _ _, some n => signed negative (digits n ++ tail)
  | p, _ => plain p

/-- An exponent with its sign. -/
def exponent (e : Int) : List Char :=
  (if e < 0 then '-' else '+') :: digits e.natAbs

/-- The digits `ds` times `10 ^ k` in a document: with a point while the number is at least
    `0.00001` and below `10 ^ 16`, and with an exponent otherwise. -/
def documentDigits (ds : List Char) (k : Int) : List Char :=
  let magnitude := ds.length + k
  if -5 < magnitude ∧ magnitude ≤ 16 then
    positional ds k ++ (if 0 ≤ k then ['.', '0'] else [])
  else
    let lead := match ds with
      | d :: e :: rest => d :: '.' :: e :: rest
      | ds => ds
    lead ++ 'e' :: exponent (magnitude - 1)

/-- A number in a JSON document, which has no other word than `null` for what is not finite. -/
def document : Parts → List Char
  | .nan | .infinite _ => ['n', 'u', 'l', 'l']
  | .finite negative 0 _ => signed negative ['0', '.', '0']
  | .finite negative m q =>
    let (d, k) := shortest .even m q
    signed negative (documentDigits (digits d) k)

end Lox.Decimal
