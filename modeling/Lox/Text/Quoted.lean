import Lox.Text.Cluster.Table
import Lox.Text.Printable

/-!
# Quoted text

`quoted` is a text as a JSON string: a quote, a backslash and the control characters are escaped,
everything else stands as it is.

`shown` is a name as an error message quotes it. Besides a quote and a backslash it escapes what
could not be seen on its own: characters that are not printable, and marks on the one in front of
them.
-/

namespace Lox.Text

/-- A digit of base sixteen, in lower case. -/
def hexDigit (n : Nat) : Char := Nat.digitChar n

/-- A character inside a JSON string. -/
def escaped (c : Char) : List Char :=
  match c with
  | '"' => ['\\', '"']
  | '\\' => ['\\', '\\']
  | '\n' => ['\\', 'n']
  | '\r' => ['\\', 'r']
  | '\t' => ['\\', 't']
  | '\x08' => ['\\', 'b']
  | '\x0c' => ['\\', 'f']
  | c =>
    if c.toNat < 0x20 then
      ['\\', 'u', '0', '0', hexDigit (c.toNat / 16), hexDigit (c.toNat % 16)]
    else
      [c]

/-- A text as a JSON string. -/
def quoted (text : String) : String :=
  String.ofList ('"' :: (text.toList.flatMap escaped ++ ['"']))

/-- Sound marks of half width. They extend the character in front, but are letters with room of
    their own. -/
def soundMarkRanges : Ranges := [(0xFF9E, 0xFF9F)]

/-- Whether a character is set onto the one in front of it. -/
def isMark (c : Char) : Bool := Cluster.extendingRanges.has c && !soundMarkRanges.has c

/-- A character as its number. -/
def numbered (c : Char) : List Char :=
  ['\\', 'u', '\x7b'] ++ Nat.toDigits 16 c.toNat ++ ['\x7d']

/-- A character inside a quoted name in an error message. -/
def marked (c : Char) : List Char :=
  match c with
  | '"' => ['\\', '"']
  | '\\' => ['\\', '\\']
  | '\n' => ['\\', 'n']
  | '\r' => ['\\', 'r']
  | '\t' => ['\\', 't']
  | '\x00' => ['\\', '0']
  | c => if isPrintable c && !isMark c then [c] else numbered c

/-- A name as an error message quotes it. -/
def shown (text : String) : String :=
  String.ofList ('"' :: (text.toList.flatMap marked ++ ['"']))

end Lox.Text
