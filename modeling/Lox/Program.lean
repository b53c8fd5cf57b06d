import Lox.Report
import Lox.Syntax.Parser

/-!
# Reading a program

From the bytes of a source to its statements: scan, then parse the tokens that could be read. Faults
of both kinds are reported, those of the scan first; the statements that could be read are there in
any case, and a caller that wants a program without faults looks whether there are reports.
-/

namespace Lox

/-- What reading a source comes to. -/
structure Reading where
  /-- The statements that could be read. -/
  statements : List Stmt
  /-- What is wrong with the source, in the order in which it is found. -/
  reports : List Report
  /-- The first reference still free. -/
  nextId : Nat

namespace Reading

/-- Reads tokens, after faults of their scan, with `nextId` the first free reference. -/
def ofTokens (faults : List Report) (tokens : List Token) (nextId : Nat) : Reading :=
  let parsed := Syntax.parse tokens nextId
  ⟨parsed.statements, faults ++ parsed.errors.map Report.ofSyntax, parsed.nextId⟩

/-- Reads the bytes of a source, with `nextId` the first free reference. -/
def ofBytes (source : List UInt8) (nextId : Nat) : Reading :=
  let items := Token.scan source
  ofTokens ((Token.errorsOf items).map Report.ofLexical) (Token.tokensOf items) nextId

end Reading

end Lox
