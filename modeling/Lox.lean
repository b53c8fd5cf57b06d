import Lox.Text.Utf8
import Lox.Text.Blank
import Lox.Text.Quoted
import Lox.Text.Erasing
import Lox.Input
import Lox.Decimal.Layout
import Lox.Decimal.Reading
import Lox.Token.Lexer
import Lox.Token.Printer
import Lox.Syntax
import Lox.Syntax.Complaint
import Lox.Syntax.Parser
import Lox.Syntax.Printer
import Lox.Syntax.Json
import Lox.Scope.Resolve
import Lox.Store
import Lox.Machine.Native
import Lox.Machine.Evaluate
import Lox.Session
import Lox.Completion
import Lox.CommandLine
import Lox.Main
import Lox.Value.Inspect
import Lox.Proofs.Grammar.Acceptance
import Lox.Proofs.Grammar.Containment
import Lox.Proofs.Grammar.Costs
import Lox.Proofs.Grammar.Depths
import Lox.Proofs.Grammar.Forms
import Lox.Proofs.Scope.Repeats
import Lox.Proofs.Session.Lexical
import Lox.Proofs.Session.Unbound
import Lox.Proofs.Session.Signals
import Lox.Proofs.Session.Globals
import Lox.Proofs.Session.Classes
import Lox.Proofs.Session.Receivers
import Lox.Proofs.Session.Instances
import Lox.Proofs.Session.Initializers
import Lox.Proofs.Session.Exits
import Lox.Proofs.Session.Refusal
import Lox.Proofs.Session.Pieces
import Lox.Proofs.Session.Positions
import Lox.Proofs.Session.Unrolling
import Lox.Proofs.Session.Compounds
import Lox.Proofs.Session.Distances
import Lox.Proofs.Renaming.Locals
import Lox.Proofs.Token.Tiling
import Lox.Proofs.Token.Respelling
import Lox.Proofs.Machine.Composition
import Lox.Proofs.Machine.Frames
import Lox.Proofs.Machine.Truncation
import Lox.Proofs.Session.Truncation
import Lox.Proofs.Session.Lines
import Lox.Proofs.Store.Forest
import Lox.Proofs.Listing.Sources
import Lox.Proofs.Completion
