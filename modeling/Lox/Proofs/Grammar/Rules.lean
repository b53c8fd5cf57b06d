import Lox.Syntax.Parser

/-!
# The grammar as rules

The grammar of the language apart from any way of reading it: which tokens a phrase is made of, and
which tree it is.

* `Derives g s a ts x b`: the tokens `ts` are a phrase of the symbol `s` with the tree `x`. The
  references of the tree are numbered from `a` on, and `b` is the next free number.
* Operators of one level group to the left, so their rules are recursive on the left; assignments
  and conditionals are recursive on the right.
* The symbols of statements carry the number of loop bodies around them within their function. A way
  out of a loop has a rule only where there is one, and there is none for more parameters or
  arguments than `maxArguments`.
* Written out, the rules leave open which `if` an `else` belongs to. `ElseRule.nearest` settles
  that: what stands in front of an `else` must not end in an `if` that could still take one
  (`EndsOpen`).
-/

namespace Lox.Syntax

/-! ## 1. Symbols -/

/-- The symbols of the grammar. -/
inductive Symbol where
  | primary | call | unary | within (l : Option Level) | operand (l : Level) | conditional
  | assignment | expression | arguments | argumentList | optionalExpression
  | names | parameterList | code | function | methods | superclass
  | variable | expressionStatement | loopStart
  | statement (loops : Nat) | declaration (loops : Nat) | declarations (loops : Nat)

/-- What a phrase of a symbol is as a tree. -/
@[reducible] def Symbol.Tree : Symbol → Type
  | .primary | .call | .unary | .within _ | .operand _ | .conditional | .assignment
  | .expression => Expr
  | .arguments | .argumentList => List Expr
  | .optionalExpression => Option Expr
  | .names | .parameterList => List Token
  | .code => Code
  | .function => FunDecl
  | .methods => List FunDecl
  | .superclass => Option Reference
  | .loopStart => Option Stmt
  | .variable | .expressionStatement | .statement _ | .declaration _ => Stmt
  | .declarations _ => List Stmt

/-- A program is declarations outside all loops. -/
abbrev Symbol.program : Symbol := .declarations 0

/-! ## 2. Parts of the rules -/

/-- The literal that a token is. -/
def literalOf? : Token.Kind → Option Literal
  | .kwFalse => some (.bool false)
  | .kwTrue => some (.bool true)
  | .kwNil => some .nil
  | .number x => some (.number x)
  | .string s => some (.text s)
  | _ => none

/-- The operators that assign and compute, each with the operator inside. -/
def compounds : List (Token.Kind × Token.Kind × String) :=
  [(.plusEqual, .plus, "+"), (.minusEqual, .minus, "-"), (.starEqual, .star, "*"),
   (.slashEqual, .slash, "/")]

/-- What `target equals value` assigns: the value, or the target and the value joined. -/
inductive Assigned (target : Expr) (equals : Token) (value : Expr) : Expr → Prop where
  | plain (h : equals.kind = .equal) : Assigned target equals value value
  | joined {k : Token.Kind} {lexeme : String} (h : (equals.kind, k, lexeme) ∈ compounds) :
      Assigned target equals value (.binary target ⟨k, lexeme, equals.pos⟩ value)

/-- Whether a statement ends in an `if` that could still take an `else`. -/
def EndsOpen : Stmt → Prop
  | .branch _ _ none => True
  | .branch _ _ (some no) => EndsOpen no
  | .whileLoop _ body | .forLoop _ _ _ body => EndsOpen body
  | _ => False

/-- Which `if` an `else` belongs to. -/
inductive ElseRule where
  /-- Any that the rules allow. -/
  | any
  /-- The nearest. -/
  | nearest
deriving DecidableEq

/-- Whether an `else` may follow a statement. -/
def ElseRule.Allows (g : ElseRule) (yes : Stmt) : Prop := g = .nearest → ¬ EndsOpen yes

/-! ## 3. The rules -/

/-- **The grammar.** -/
inductive Derives (g : ElseRule) : (s : Symbol) → Nat → List Token → s.Tree → Nat → Prop where
  -- primary
  | literal {a t l} (h : literalOf? t.kind = some l) : Derives g .primary a [t] (.literal l) a
  | this {a t} (h : t.kind = .kwThis) : Derives g .primary a [t] (.this ⟨⟨a⟩, t⟩) (a + 1)
  | super {a t d m} (ht : t.kind = .kwSuper) (hd : d.kind = .dot) (hm : m.kind = .identifier) :
      Derives g .primary a [t, d, m] (.super ⟨⟨a⟩, t⟩ m) (a + 1)
  | name {a t} (h : t.kind = .identifier) : Derives g .primary a [t] (.read ⟨⟨a⟩, t⟩) (a + 1)
  | lambda {a b t ts c} (h : t.kind = .kwFun) (hc : Derives g .code a ts c b) :
      Derives g .primary a (t :: ts) (.lambda c) b
  | group {a b t ts u e} (ht : t.kind = .leftParen) (he : Derives g .expression a ts e b)
      (hu : u.kind = .rightParen) : Derives g .primary a (t :: (ts ++ [u])) (.group e) b
  -- call
  | callee {a b ts e} (h : Derives g .primary a ts e b) : Derives g .call a ts e b
  | apply {a b c ts e p us args q} (he : Derives g .call a ts e b) (hp : p.kind = .leftParen)
      (hargs : Derives g .argumentList b us args c) (hq : q.kind = .rightParen) :
      Derives g .call a (ts ++ p :: (us ++ [q])) (.call e q args) c
  | property {a b ts e d n} (he : Derives g .call a ts e b) (hd : d.kind = .dot)
      (hn : n.kind = .identifier) : Derives g .call a (ts ++ [d, n]) (.get e n) b
  -- arguments
  | lastArgument {a b ts e} (h : Derives g .assignment a ts e b) :
      Derives g .arguments a ts [e] b
  | moreArguments {a b c ts e t us es} (he : Derives g .assignment a ts e b)
      (ht : t.kind = .comma) (hes : Derives g .arguments b us es c) :
      Derives g .arguments a (ts ++ t :: us) (e :: es) c
  | noArguments {a} : Derives g .argumentList a [] [] a
  | someArguments {a b ts es} (h : Derives g .arguments a ts es b)
      (hlimit : es.length ≤ maxArguments) : Derives g .argumentList a ts es b
  -- unary
  | sign {a b op ts e} (hop : op.kind = .bang ∨ op.kind = .minus)
      (he : Derives g .unary a ts e b) : Derives g .unary a (op :: ts) (.unary op e) b
  | unsigned {a b ts e} (h : Derives g .call a ts e b) : Derives g .unary a ts e b
  -- the levels of binary operators
  | tightest {a b ts e} (h : Derives g .unary a ts e b) : Derives g (.within none) a ts e b
  | tighter {a b l ts e} (h : Derives g (.operand l) a ts e b) :
      Derives g (.within (some l)) a ts e b
  | single {a b l ts e} (h : Derives g (.within (Level.tighter? l)) a ts e b) :
      Derives g (.operand l) a ts e b
  | join {a b c l ts left op us right} (hl : Derives g (.operand l) a ts left b)
      (hop : l.has op.kind = true) (hr : Derives g (.within l.tighter?) b us right c) :
      Derives g (.operand l) a (ts ++ op :: us) (l.join left op right) c
  -- conditional
  | choice {a b c d ts e q us yes u vs no} (he : Derives g (.operand .or) a ts e b)
      (hq : q.kind = .question) (hyes : Derives g .expression b us yes c)
      (hu : u.kind = .colon) (hno : Derives g .conditional c vs no d) :
      Derives g .conditional a (ts ++ q :: (us ++ u :: vs)) (.conditional e yes no) d
  | noChoice {a b ts e} (h : Derives g (.operand .or) a ts e b) :
      Derives g .conditional a ts e b
  -- assignment
  | assign {a b n eq ts v w} (hn : n.kind = .identifier)
      (hv : Derives g .assignment (a + 1) ts v b) (hw : Assigned (.read ⟨⟨a⟩, n⟩) eq v w) :
      Derives g .assignment a (n :: eq :: ts) (.assign ⟨⟨b⟩, n⟩ w) (b + 1)
  | set {a b c ts e d n eq us v w} (he : Derives g .call a ts e b) (hd : d.kind = .dot)
      (hn : n.kind = .identifier) (hv : Derives g .assignment b us v c)
      (hw : Assigned (.get e n) eq v w) :
      Derives g .assignment a (ts ++ d :: n :: eq :: us) (.set e n w) c
  | noAssignment {a b ts e} (h : Derives g .conditional a ts e b) :
      Derives g .assignment a ts e b
  -- expression
  | oneAssignment {a b ts e} (h : Derives g .assignment a ts e b) :
      Derives g .expression a ts e b
  | comma {a b c ts left op us right} (hl : Derives g .expression a ts left b)
      (hop : op.kind = .comma) (hr : Derives g .assignment b us right c) :
      Derives g .expression a (ts ++ op :: us) (.binary left op right) c
  | noExpression {a} : Derives g .optionalExpression a [] none a
  | someExpression {a b ts e} (h : Derives g .expression a ts e b) :
      Derives g .optionalExpression a ts (some e) b
  -- functions
  | lastName {a n} (h : n.kind = .identifier) : Derives g .names a [n] [n] a
  | moreNames {a b n t ts ns} (hn : n.kind = .identifier) (ht : t.kind = .comma)
      (hns : Derives g .names a ts ns b) : Derives g .names a (n :: t :: ts) (n :: ns) b
  | noParameters {a} : Derives g .parameterList a [] [] a
  | someParameters {a b ts ns} (h : Derives g .names a ts ns b)
      (hlimit : ns.length ≤ maxArguments) : Derives g .parameterList a ts ns b
  | code {a b c p ts ns q o us body u} (hp : p.kind = .leftParen)
      (hns : Derives g .parameterList a ts ns b) (hq : q.kind = .rightParen)
      (ho : o.kind = .leftBrace) (hbody : Derives g (.declarations 0) b us body c)
      (hu : u.kind = .rightBrace) :
      Derives g .code a (p :: (ts ++ q :: o :: (us ++ [u]))) (.mk ns body) c
  | function {a b n ts c} (hn : n.kind = .identifier) (hc : Derives g .code a ts c b) :
      Derives g .function a (n :: ts) (.mk n c) b
  | noMethods {a} : Derives g .methods a [] [] a
  | moreMethods {a b c ts f us fs} (hf : Derives g .function a ts f b)
      (hfs : Derives g .methods b us fs c) : Derives g .methods a (ts ++ us) (f :: fs) c
  | noSuperclass {a} : Derives g .superclass a [] none a
  | superclass {a t n} (ht : t.kind = .less) (hn : n.kind = .identifier) :
      Derives g .superclass a [t, n] (some ⟨⟨a⟩, n⟩) (a + 1)
  -- statements
  | expressionStatement {a b ts e t} (he : Derives g .expression a ts e b)
      (ht : t.kind = .semicolon) : Derives g .expressionStatement a (ts ++ [t]) (.expr e) b
  | bareVariable {a n t} (hn : n.kind = .identifier) (ht : t.kind = .semicolon) :
      Derives g .variable a [n, t] (.varDecl n (.literal .nil)) a
  | initializedVariable {a b n eq ts e t} (hn : n.kind = .identifier) (heq : eq.kind = .equal)
      (he : Derives g .expression a ts e b) (ht : t.kind = .semicolon) :
      Derives g .variable a (n :: eq :: (ts ++ [t])) (.varDecl n e) b
  | noStart {a t} (h : t.kind = .semicolon) : Derives g .loopStart a [t] none a
  | variableStart {a b t ts s} (ht : t.kind = .kwVar) (hs : Derives g .variable a ts s b) :
      Derives g .loopStart a (t :: ts) (some s) b
  | expressionStart {a b ts s} (hs : Derives g .expressionStatement a ts s b) :
      Derives g .loopStart a ts (some s) b
  | simple {a b loops ts s} (h : Derives g .expressionStatement a ts s b) :
      Derives g (.statement loops) a ts s b
  | forLoop {a b c d e loops t p is init cs cond u us inc q ss body} (ht : t.kind = .kwFor)
      (hp : p.kind = .leftParen) (hinit : Derives g .loopStart a is init b)
      (hcond : Derives g .optionalExpression b cs cond c) (hu : u.kind = .semicolon)
      (hinc : Derives g .optionalExpression c us inc d) (hq : q.kind = .rightParen)
      (hbody : Derives g (.statement (loops + 1)) d ss body e) :
      Derives g (.statement loops) a (t :: p :: (is ++ (cs ++ u :: (us ++ q :: ss))))
        (.forLoop init (cond.getD (.literal (.bool true))) inc body) e
  | whileLoop {a b c loops t p ts cond q ss body} (ht : t.kind = .kwWhile)
      (hp : p.kind = .leftParen) (hcond : Derives g .expression a ts cond b)
      (hq : q.kind = .rightParen) (hbody : Derives g (.statement (loops + 1)) b ss body c) :
      Derives g (.statement loops) a (t :: p :: (ts ++ q :: ss)) (.whileLoop cond body) c
  | branch {a b c loops t p ts cond q ss yes} (ht : t.kind = .kwIf) (hp : p.kind = .leftParen)
      (hcond : Derives g .expression a ts cond b) (hq : q.kind = .rightParen)
      (hyes : Derives g (.statement loops) b ss yes c) :
      Derives g (.statement loops) a (t :: p :: (ts ++ q :: ss)) (.branch cond yes none) c
  | branchElse {a b c d loops t p ts cond q ss yes u us no} (ht : t.kind = .kwIf)
      (hp : p.kind = .leftParen) (hcond : Derives g .expression a ts cond b)
      (hq : q.kind = .rightParen) (hyes : Derives g (.statement loops) b ss yes c)
      (hu : u.kind = .kwElse) (hno : Derives g (.statement loops) c us no d)
      (hopen : g.Allows yes) :
      Derives g (.statement loops) a (t :: p :: (ts ++ q :: (ss ++ u :: us)))
        (.branch cond yes (some no)) d
  | block {a b loops t ts body u} (ht : t.kind = .leftBrace)
      (hbody : Derives g (.declarations loops) a ts body b) (hu : u.kind = .rightBrace) :
      Derives g (.statement loops) a (t :: (ts ++ [u])) (.block body) b
  | ret {a b loops t ts value u} (ht : t.kind = .kwReturn)
      (hvalue : Derives g .optionalExpression a ts value b) (hu : u.kind = .semicolon) :
      Derives g (.statement loops) a (t :: (ts ++ [u])) (.ret t value) b
  | leave {a loops t u} (ht : t.kind = .kwBreak) (hu : u.kind = .semicolon)
      (hloops : 0 < loops) : Derives g (.statement loops) a [t, u] (.leave t) a
  | next {a loops t u} (ht : t.kind = .kwContinue) (hu : u.kind = .semicolon)
      (hloops : 0 < loops) : Derives g (.statement loops) a [t, u] (.next t) a
  -- declarations
  | classDecl {a b c loops t n ss sup o ms methods u} (ht : t.kind = .kwClass)
      (hn : n.kind = .identifier) (hsup : Derives g .superclass a ss sup b)
      (ho : o.kind = .leftBrace) (hms : Derives g .methods b ms methods c)
      (hu : u.kind = .rightBrace) :
      Derives g (.declaration loops) a (t :: n :: (ss ++ o :: (ms ++ [u])))
        (.classDecl n sup methods) c
  | funDecl {a b loops t ts f} (ht : t.kind = .kwFun) (hf : Derives g .function a ts f b) :
      Derives g (.declaration loops) a (t :: ts) (.funDecl f) b
  | varDecl {a b loops t ts s} (ht : t.kind = .kwVar) (hs : Derives g .variable a ts s b) :
      Derives g (.declaration loops) a (t :: ts) s b
  | statement {a b loops ts s} (h : Derives g (.statement loops) a ts s b) :
      Derives g (.declaration loops) a ts s b
  | noDeclarations {a loops} : Derives g (.declarations loops) a [] [] a
  | moreDeclarations {a b c loops ts s us ss} (hs : Derives g (.declaration loops) a ts s b)
      (hss : Derives g (.declarations loops) b us ss c) :
      Derives g (.declarations loops) a (ts ++ us) (s :: ss) c

end Lox.Syntax
