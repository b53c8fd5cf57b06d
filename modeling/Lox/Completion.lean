import Lox.Text.Sorted
import Lox.Token

/-!
# Completing a word

What can stand for the word before a cursor: the keywords and names that it is the start of. A word
is a run of ASCII letters, digits and underscores; where there is none, nothing is proposed.

* The cursor is a number of bytes, and must lie between two characters of the line.
* Proposals are sorted, and each stands there once.
-/

namespace Lox

/-- A word that ends at a cursor: where it starts, in bytes, and what can stand for it. -/
structure Completion where
  start : Nat
  found : List String
deriving DecidableEq, Repr

namespace Completion

/-- A character of a word. -/
def inWord (c : Char) : Bool := c.isAlphanum || c == '_'

/-- The characters in front of byte `n`, if that is between two characters or at an end. -/
def front? : Nat → List Char → Option (List Char)
  | 0, _ => some []
  | _ + 1, [] => none
  | n + 1, c :: rest =>
    if c.utf8Size ≤ n + 1 then (front? (n + 1 - c.utf8Size) rest).map (c :: ·) else none

/-- The word at the end of some characters. -/
def lastWord (cs : List Char) : List Char := (cs.reverse.takeWhile inWord).reverse

/-- The keywords and names that start with a word. -/
def candidates (word : List Char) (names : List String) : List String :=
  if word = [] then
    []
  else
    let all := Token.keywords.map Prod.fst ++ names
    (Text.sorted (all.filter fun n => word.isPrefixOf n.toList)).eraseDups

end Completion

/-- **What can stand for the word before byte `cursor` of a line.** -/
def complete (line : String) (cursor : Nat) (names : List String) : Option Completion :=
  (Completion.front? cursor line.toList).map fun before =>
    let word := Completion.lastWord before
    ⟨cursor - word.length, Completion.candidates word names⟩

end Lox
