import Lox.Decimal.Reading
import Lox.Text.Utf8
import Lox.Token

/-!
# From bytes to tokens

A scanner goes through the bytes of a source once, front to back, with a counter for the line and the
place where the line starts. Asked for the next item, it passes over white space and comments and then
comes to a token or a fault; a fault never stops it. The end of the source is the last item, and behind
it there is none.

* `Scanner`: the counters. Only `newline` changes those of the line, and `position` is what they show;
* `scanToken` takes the bytes of one lexeme, `next` gives the next item, `scan` gives them all;
* whatever reaches for a byte that is not there gives nothing, and so would a turn that takes no byte.
-/

namespace Lox.Token

/-! ## 1. Faults -/

/-- Why some bytes are no token. -/
inductive LexicalFault where
  | unterminatedString
  | unterminatedComment
  /-- A character that starts no token; U+FFFD stands for a byte that starts no character. -/
  | unexpected (c : Char)
deriving DecidableEq, Repr

/-- A fault in words. -/
def LexicalFault.message : LexicalFault → String
  | .unterminatedString => "Unterminated string."
  | .unterminatedComment => "Unterminated comment."
  | .unexpected c => "Unexpected character: " ++ c.toString

/-- A fault and the position of its last byte. -/
structure LexicalError where
  fault : LexicalFault
  pos : Position
deriving DecidableEq, Repr

/-- One item of a scan. -/
abbrev Item := Except LexicalError Token

/-! ## 2. Bytes -/

/-- What some bytes of a source are. -/
inductive Mark where
  | blank
  | token (kind : Kind)
  | fault (f : LexicalFault)
deriving DecidableEq, Repr

/-- The byte that ends a line. -/
def newline : UInt8 := 0x0A

/-- A decimal digit. -/
def isDigit (b : UInt8) : Bool := (Char.ofUInt8 b).isDigit

/-- A byte that starts a word: an ASCII letter or an underscore. -/
def startsWord (b : UInt8) : Bool := (Char.ofUInt8 b).isAlpha || Char.ofUInt8 b == '_'

/-- A byte that goes on in a word. -/
def inWord (b : UInt8) : Bool := startsWord b || isDigit b

/-- The characters of ASCII bytes. -/
def ascii (bytes : List UInt8) : List Char := bytes.map Char.ofUInt8

/-! ## 3. The counters -/

/-- Where a scan stands. -/
structure Scanner where
  /-- The first byte of the lexeme at hand. -/
  start : Nat
  /-- The byte behind the last one that was taken. -/
  curr : Nat
  /-- The line, counted from one. -/
  line : Nat
  /-- The first byte of the line. -/
  lineStart : Nat
deriving DecidableEq, Repr

namespace Scanner

/-- In front of a source. -/
def initial : Scanner := ⟨0, 0, 1, 0⟩

/-- The last byte taken was the end of a line. -/
def newline (s : Scanner) : Scanner := { s with line := s.line + 1, lineStart := s.curr }

/-- The position of the last byte taken. -/
def position (s : Scanner) : Position := ⟨s.line, s.curr - s.lineStart⟩

section Source

variable (source : Array UInt8)

/-- The byte in front, or zero at the end. -/
def peek (s : Scanner) : UInt8 := source.getD s.curr 0

/-- The byte behind the one in front, or zero. -/
def peekNext (s : Scanner) : UInt8 := source.getD (s.curr + 1) 0

/-- Takes a byte. -/
def advance (s : Scanner) : Option (UInt8 × Scanner) :=
  source[s.curr]?.map fun b => (b, { s with curr := s.curr + 1 })

/-- Takes a byte if it is the expected one, and says whether it was. -/
def takeIf (expected : UInt8) (s : Scanner) : Option (Bool × Scanner) :=
  if s.curr < source.size ∧ s.peek source = expected then
    (s.advance source).map fun r => (true, r.2)
  else
    some (false, s)

/-- The bytes from one up to another. -/
def slice (first behind : Nat) : Option (List UInt8) :=
  if first ≤ behind ∧ behind ≤ source.size then some (source.extract first behind).toList else none

/-- The bytes of the lexeme at hand. -/
def lexeme (s : Scanner) : Option (List UInt8) := slice source s.start s.curr

theorem advance_curr {s t : Scanner} {b : UInt8} (h : s.advance source = some (b, t)) :
    s.curr < source.size ∧ t = { s with curr := s.curr + 1 } := by
  obtain ⟨c, hc, he⟩ := Option.map_eq_some_iff.mp h
  cases he
  exact ⟨(Array.getElem?_eq_some_iff.mp hc).1, rfl⟩

/-! ## 4. Lexemes -/

/-- Takes bytes as long as they satisfy `p`. -/
def advanceWhile (p : UInt8 → Bool) (s : Scanner) : Option Scanner :=
  if p (s.peek source) then
    match _h : s.advance source with
    | none => none
    | some (_, t) => advanceWhile p t
  else
    some s
termination_by source.size - s.curr
decreasing_by
  obtain ⟨hlt, rfl⟩ := advance_curr source _h
  exact Nat.sub_succ_lt_self _ _ hlt

/-- A sign that an equals sign may follow. -/
def sign (alone joined : Kind) (s : Scanner) : Option (Mark × Scanner) := do
  let (joins, s) ← s.takeIf source '='.toUInt8
  return (.token (if joins then joined else alone), s)

/-- How many bytes there are from one on up to the end of the line. -/
def newlineFrom? (first : Nat) : Option Nat :=
  (source.extract first source.size).toList.findIdx? (· == Token.newline)

/-- A comment to the end of the line, which is left where it is. -/
def lineComment (s : Scanner) : Option (Mark × Scanner) :=
  if s.curr ≤ source.size then
    match newlineFrom? source s.curr with
    | some n => some (.blank, { s with curr := s.curr + n })
    | none => some (.blank, { s with curr := source.size })
  else
    none

/-- A comment up to the next `*/`, behind its start. -/
def blockComment (s : Scanner) : Option (Mark × Scanner) :=
  if s.curr < source.size then
    if s.peek source = '*'.toUInt8 ∧ s.peekNext source = '/'.toUInt8 then do
      let (_, s) ← s.advance source
      let (_, s) ← s.advance source
      return (.blank, s)
    else
      match _h : s.advance source with
      | none => none
      | some (b, t) => blockComment (if b = Token.newline then t.newline else t)
  else
    some (.fault .unterminatedComment, s)
termination_by source.size - s.curr
decreasing_by
  obtain ⟨hlt, rfl⟩ := advance_curr source _h
  split <;> exact Nat.sub_succ_lt_self _ _ hlt

/-- A comment of either kind, or a slash. -/
def slash (s : Scanner) : Option (Mark × Scanner) := do
  let (line, s) ← s.takeIf source '/'.toUInt8
  if line then
    s.lineComment source
  else
    let (block, s) ← s.takeIf source '*'.toUInt8
    if block then s.blockComment source else s.sign source .slash .slashEqual

/-- The bytes of a string up to its second quote, or up to the end of the source. -/
def stringBody (s : Scanner) : Option Scanner :=
  if s.curr < source.size ∧ s.peek source ≠ '"'.toUInt8 then
    match _h : s.advance source with
    | none => none
    | some (b, t) => stringBody (if b = Token.newline then t.newline else t)
  else
    some s
termination_by source.size - s.curr
decreasing_by
  obtain ⟨hlt, rfl⟩ := advance_curr source _h
  split <;> exact Nat.sub_succ_lt_self _ _ hlt

/-- A string, behind its first quote. It may run over several lines. -/
def string (s : Scanner) : Option (Mark × Scanner) := do
  let s ← s.stringBody source
  if source.size ≤ s.curr then
    return (.fault .unterminatedString, s)
  else
    let (_, s) ← s.advance source
    let inside ← slice source (s.start + 1) (s.curr - 1)
    return (.token (.string (Text.Utf8.lossy inside)), s)

/-- The digits behind a point, if the point is in front and a digit behind it. -/
def fraction (s : Scanner) : Option Scanner :=
  if s.peek source = '.'.toUInt8 ∧ isDigit (s.peekNext source) then do
    let (_, s) ← s.advance source
    s.advanceWhile source isDigit
  else
    some s

/-- A number, behind its first digit. -/
def number (s : Scanner) : Option (Mark × Scanner) := do
  let s ← s.advanceWhile source isDigit
  let s ← s.fraction source
  let bytes ← s.lexeme source
  let value := (Decimal.read? (Text.Utf8.lossy bytes).toList).getD 0
  return (.token (.number value), s)

/-- A word, behind its first byte. -/
def word (s : Scanner) : Option (Mark × Scanner) := do
  let s ← s.advanceWhile source inWord
  let bytes ← s.lexeme source
  return (.token (Kind.ofWord (Text.Utf8.lossy bytes)), s)

/-- How many bytes a character has that starts with a given byte, if it has no other. -/
def width (b : UInt8) : Nat :=
  if 0xC0 ≤ b ∧ b ≤ 0xDF then 2
  else if 0xE0 ≤ b ∧ b ≤ 0xEF then 3
  else if 0xF0 ≤ b ∧ b ≤ 0xF7 then 4
  else 1

/-- A character that starts no token, behind its first byte. Where the bytes are no character, the
    others are left. -/
def unexpected (b : UInt8) (s : Scanner) : Option (Mark × Scanner) := do
  let behind := min (s.start + width b) source.size
  match Text.Utf8.decode? (← slice source s.start behind) with
  | some text =>
    let c := text.toList.head?.getD Text.Utf8.replacement
    return (.fault (.unexpected c), { s with curr := behind })
  | none => return (.fault (.unexpected Text.Utf8.replacement), s)

/-- Takes the bytes of a lexeme, and says what they are. -/
def scanToken (s : Scanner) : Option (Mark × Scanner) := do
  let (b, s) ← s.advance source
  match Char.ofUInt8 b with
  | ' ' | '\r' | '\t' => return (.blank, s)
  | '\n' => return (.blank, s.newline)
  | '(' => return (.token .leftParen, s)
  | ')' => return (.token .rightParen, s)
  | '\x7b' => return (.token .leftBrace, s)
  | '\x7d' => return (.token .rightBrace, s)
  | ',' => return (.token .comma, s)
  | '.' => return (.token .dot, s)
  | ';' => return (.token .semicolon, s)
  | '?' => return (.token .question, s)
  | ':' => return (.token .colon, s)
  | '-' => s.sign source .minus .minusEqual
  | '+' => s.sign source .plus .plusEqual
  | '*' => s.sign source .star .starEqual
  | '!' => s.sign source .bang .bangEqual
  | '=' => s.sign source .equal .equalEqual
  | '<' => s.sign source .less .lessEqual
  | '>' => s.sign source .greater .greaterEqual
  | '/' => s.slash source
  | '"' => s.string source
  | _ =>
    if isDigit b then s.number source
    else if startsWord b then s.word source
    else s.unexpected source b

/-! ## 5. Items -/

/-- The next item, if there is one. -/
def next (s : Scanner) : Option (Option Item × Scanner) :=
  if source.size < s.curr then
    some (none, s)
  else if s.curr = source.size then
    some (some (.ok ⟨.eof, "", s.position⟩), { s with curr := s.curr + 1 })
  else
    match { s with start := s.curr }.scanToken source with
    | none => none
    | some (.fault f, t) => some (some (.error ⟨f, t.position⟩), t)
    | some (.token k, t) =>
      (t.lexeme source).map fun bytes => (some (.ok ⟨k, Text.Utf8.lossy bytes, t.position⟩), t)
    | some (.blank, t) => if s.curr < t.curr then next t else none
termination_by source.size + 1 - s.curr
decreasing_by omega

/-- All items that are still to come. -/
def items (s : Scanner) : Option (List Item) :=
  match s.next source with
  | none => none
  | some (none, _) => some []
  | some (some item, t) =>
    if s.curr < t.curr ∧ s.curr ≤ source.size then (items t).map (item :: ·) else none
termination_by source.size + 1 - s.curr
decreasing_by omega

end Source

end Scanner

/-- **The scan of a source**: its tokens and faults in order, and its end. -/
def scan (bytes : List UInt8) : List Item := (Scanner.initial.items bytes.toArray).getD []

/-- The tokens of a scan. -/
def tokensOf (items : List Item) : List Token := items.filterMap Except.toOption

/-- The faults of a scan. -/
def errorsOf (items : List Item) : List LexicalError :=
  items.filterMap fun
    | .ok _ => none
    | .error e => some e

end Lox.Token
