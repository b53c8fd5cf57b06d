/-!
# Tokens

A token is a word of the language as it stands in a source: its kind, its spelling and the position
of its last byte.

* `Position`: a line from one on, and a column that counts the bytes of that line;
* `Kind`: what a token is, with the payload of a string or a number;
* `Kind.name`: the name a listing of tokens gives a kind;
* `keywords`: the words that are no identifiers.
-/

namespace Lox

/-- A place in a source: the line, counted from one, and the bytes of that line up to and with
    the place. -/
structure Position where
  line : Nat
  column : Nat
deriving DecidableEq, Repr, Inhabited

namespace Token

/-- What a token is. -/
inductive Kind where
  | leftParen | rightParen | leftBrace | rightBrace
  | comma | dot | minus | plus | semicolon | slash | star | question | colon
  | bang | bangEqual | equal | equalEqual
  | greater | greaterEqual | less | lessEqual
  | plusEqual | minusEqual | starEqual | slashEqual
  | identifier
  /-- A string, with the text between its quotes. -/
  | string (text : String)
  /-- A number, with the double nearest to its digits. -/
  | number (value : Float)
  | kwAnd | kwBreak | kwClass | kwContinue | kwElse | kwFalse | kwFun | kwFor | kwIf | kwNil
  | kwOr | kwReturn | kwSuper | kwThis | kwTrue | kwVar | kwWhile
  /-- The end of the source. -/
  | eof
deriving DecidableEq, Repr

/-- The name of a kind in a listing of tokens. -/
def Kind.name : Kind → String
  | .leftParen => "LEFT_PAREN" | .rightParen => "RIGHT_PAREN"
  | .leftBrace => "LEFT_BRACE" | .rightBrace => "RIGHT_BRACE"
  | .comma => "COMMA" | .dot => "DOT" | .minus => "MINUS" | .plus => "PLUS"
  | .semicolon => "SEMICOLON" | .slash => "SLASH" | .star => "STAR"
  | .question => "QUESTION" | .colon => "COLON"
  | .bang => "BANG" | .bangEqual => "BANG_EQUAL"
  | .equal => "EQUAL" | .equalEqual => "EQUAL_EQUAL"
  | .greater => "GREATER" | .greaterEqual => "GREATER_EQUAL"
  | .less => "LESS" | .lessEqual => "LESS_EQUAL"
  | .plusEqual => "PLUS_EQUAL" | .minusEqual => "MINUS_EQUAL"
  | .starEqual => "STAR_EQUAL" | .slashEqual => "SLASH_EQUAL"
  | .identifier => "IDENTIFIER" | .string _ => "STRING" | .number _ => "NUMBER"
  | .kwAnd => "AND" | .kwBreak => "BREAK" | .kwClass => "CLASS" | .kwContinue => "CONTINUE"
  | .kwElse => "ELSE" | .kwFalse => "FALSE" | .kwFun => "FUN" | .kwFor => "FOR" | .kwIf => "IF"
  | .kwNil => "NIL" | .kwOr => "OR" | .kwReturn => "RETURN" | .kwSuper => "SUPER"
  | .kwThis => "THIS" | .kwTrue => "TRUE" | .kwVar => "VAR" | .kwWhile => "WHILE"
  | .eof => "EOF"

/-- The keywords, each with its kind. -/
def keywords : List (String × Kind) :=
  [("and", .kwAnd), ("break", .kwBreak), ("class", .kwClass), ("continue", .kwContinue),
   ("else", .kwElse), ("false", .kwFalse), ("fun", .kwFun), ("for", .kwFor), ("if", .kwIf),
   ("nil", .kwNil), ("or", .kwOr), ("return", .kwReturn), ("super", .kwSuper),
   ("this", .kwThis), ("true", .kwTrue), ("var", .kwVar), ("while", .kwWhile)]

/-- The kinds without a payload that are spelled with signs only, then the end of a source. -/
def signs : List Kind :=
  [.leftParen, .rightParen, .leftBrace, .rightBrace, .comma, .dot, .minus, .plus, .semicolon,
   .slash, .star, .question, .colon, .bang, .bangEqual, .equal, .equalEqual, .greater,
   .greaterEqual, .less, .lessEqual, .plusEqual, .minusEqual, .starEqual, .slashEqual, .eof]

/-- The kind without a payload that has a given name. -/
def Kind.ofName? (name : String) : Option Kind :=
  (.identifier :: signs ++ keywords.map Prod.snd).find? fun k => k.name == name

/-- The kind of a word: a keyword or an identifier. -/
def Kind.ofWord (word : String) : Kind := (keywords.lookup word).getD .identifier

end Token

/-- A word of the language as it stands in a source. -/
structure Token where
  kind : Token.Kind
  lexeme : String
  pos : Position
deriving DecidableEq, Repr

end Lox
