import Lox.Decimal.Binary

/-!
# The shortest decimal that reads back

Every double is the nearest one to all reals of an interval around it, ends included where its
mantissa is even. Of the decimals `d * 10 ^ k` in that interval, `shortest` takes one with the
largest `k`, which has the fewest digits, and of two such neighbours the one nearer to the double;
where both are equally near, `Tie` decides.

On the grid of the multiples of `10 ^ k` only the two neighbours of the double need a look: if any
multiple lies in the interval, one of them does. The comparisons are exact, in natural numbers: with
`unit` and `scale`, the multiple `d * 10 ^ k` and the quarter steps `x * 2 ^ (q - 2)` are
`d * unit` and `x * scale` in a common unit.
-/

namespace Lox.Decimal

/-- Which of two equally near neighbours is taken. -/
inductive Tie where
  /-- The one further from zero. -/
  | up
  /-- The one whose last digit is even. -/
  | even
deriving DecidableEq, Repr

/-- The reals that round to a double, in quarters of its spacing: the double is at `middle`. -/
structure Interval where
  low : Nat
  middle : Nat
  high : Nat
  closed : Bool

/-- The interval of the double `m * 2 ^ q`. Below a power of two the doubles lie twice as close. -/
def interval (m : Nat) (q : Int) : Interval where
  low := if m = Nat.pow 2 52 ∧ leastExponent < q then 4 * m - 1 else 4 * m - 2
  middle := 4 * m
  high := 4 * m + 2
  closed := m % 2 = 0

/-- Whether the point `x` lies between two ends, which count only if `closed`. -/
def between (closed : Bool) (low x high : Nat) : Bool :=
  if closed then low ≤ x && x ≤ high else low < x && x < high

/-- What one step of the grid `10 ^ k` measures against quarters of `2 ^ q`. -/
def unit (q k : Int) : Nat := Nat.pow 10 k.toNat * Nat.pow 2 (2 - q).toNat

/-- What one quarter of `2 ^ q` measures against steps of the grid `10 ^ k`. -/
def scale (q k : Int) : Nat := Nat.pow 10 (-k).toNat * Nat.pow 2 (q - 2).toNat

/-- The multiple of `10 ^ k` that stands for the double `m * 2 ^ q`, if one reads back as it. -/
def onGrid (tie : Tie) (m : Nat) (q k : Int) : Option Nat :=
  let i := interval m q
  let u := unit q k
  let s := scale q k
  let d := i.middle * s / u
  let inside (x : Nat) : Bool := between i.closed (i.low * s) (x * u) (i.high * s)
  match inside d, inside (d + 1) with
  | false, false => none
  | true, false => some d
  | false, true => some (d + 1)
  | true, true =>
    match compare (2 * (i.middle * s)) ((2 * d + 1) * u), tie with
    | .lt, _ => some d
    | .gt, _ => some (d + 1)
    | .eq, .up => some (d + 1)
    | .eq, .even => some (if d % 2 = 0 then d else d + 1)

/-- The first of `n` ever finer grids, from `10 ^ k` on, that holds a decimal for the double. -/
def firstGrid (tie : Tie) (m : Nat) (q k : Int) : Nat → Nat × Int
  | 0 => (0, 0)
  | n + 1 =>
    match onGrid tie m q k with
    | some d => (d, k)
    | none => firstGrid tie m q (k - 1) n

/-- A power of ten that a double between `2 ^ b` and `2 ^ (b + 1)` does not reach by a digit. -/
def coarsestGrid (b : Int) : Int := b * 30103 / 100000 + 1

/-- The shortest decimal `(d, k)` for `d * 10 ^ k` that reads back as the positive double
    `m * 2 ^ q`. Seventeen digits always suffice. -/
def shortest (tie : Tie) (m : Nat) (q : Int) : Nat × Int :=
  firstGrid tie m q (coarsestGrid (Nat.log2 m + q)) 20

end Lox.Decimal
