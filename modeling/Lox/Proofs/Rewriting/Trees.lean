import Lox.Proofs.Likeness.Trees
import Lox.Proofs.Scope.Places

/-!
# Programs written another way

Some forms of the language are short for others: a `for` loop for a `while` loop in a block, and a joined
operand that is a call, a number or the like for the same operand in parentheses. This file says when one
program is another one with such forms written out.

* A written-out form may have blocks that the short one has not, and so frames of its own. A `Slot` says of
  a frame of the written-out program whether it is such a one, and `distanceIn` where the frames of the
  short one lie among them.
* `Rewriting`: which forms may be written out, and how references and places of tokens may differ.
* `ExprInto`, `CodeInto`, `StmtInto` and the rest: **a tree and the same tree written out**, form by form.
* Inside the body of a loop that is written out (`Loop`), each `continue` of that loop stands in a block of
  its own, behind a copy of the increment. So no block around it may declare a name of the increment.
-/

namespace Lox

/-! ## 1. Frames -/

/-- A frame of the written-out program: one that the short one has as well, or one that it has not. -/
inductive Slot where
  | shared
  | added
deriving DecidableEq

/-- How far out a frame of the short program lies in the written-out one. -/
def distanceIn : List Slot → Nat → Nat
  | [], d => d
  | .added :: outer, d => distanceIn outer d + 1
  | .shared :: _, 0 => 0
  | .shared :: outer, d + 1 => distanceIn outer d + 1

/-- The innermost frame is one that the short program has as well. -/
def Innermost (slots : List Slot) : Prop := slots.head? ≠ some .added

@[simp] theorem innermost_nil : Innermost [] := nofun

@[simp] theorem innermost_shared (slots : List Slot) : Innermost (.shared :: slots) := nofun

/-- Where no frame is added, all of them lie where they lay. -/
theorem distanceIn_shared {slots : List Slot} (h : ∀ s ∈ slots, s = .shared) (d : Nat) :
    distanceIn slots d = d := by
  induction slots generalizing d with
  | nil => rfl
  | cons s outer ih =>
    obtain rfl := h s List.mem_cons_self
    cases d with
    | zero => rfl
    | succ d => exact congrArg (· + 1) (ih (fun t ht => h t (List.mem_cons_of_mem _ ht)) d)

/-! ## 2. Names -/

mutual

/-- The names that an expression uses. -/
def Expr.names : Expr → List String
  | .literal _ => []
  | .group inner => inner.names
  | .unary _ operand => operand.names
  | .binary left _ right => left.names ++ right.names
  | .logical left _ right => left.names ++ right.names
  | .conditional condition yes no => condition.names ++ yes.names ++ no.names
  | .read ref => [ref.name]
  | .assign ref value => value.names ++ [ref.name]
  | .call callee _ args => callee.names ++ exprNames args
  | .get object _ => object.names
  | .set object _ value => value.names ++ object.names
  | .this ref => [ref.name]
  | .super ref _ => [ref.name]
  | .lambda code => code.names

/-- The names that expressions use. -/
def exprNames : List Expr → List String
  | [] => []
  | e :: rest => e.names ++ exprNames rest

/-- The names that a function uses. -/
def Code.names : Code → List String
  | .mk _ body => stmtNames body

/-- The names that methods use. -/
def methodNames : List FunDecl → List String
  | [] => []
  | .mk _ code :: rest => code.names ++ methodNames rest

/-- The names that a statement uses. -/
def Stmt.names : Stmt → List String
  | .expr e => e.names
  | .varDecl _ init => init.names
  | .funDecl (.mk _ code) => code.names
  | .classDecl _ superclass methods => (superclass.map Reference.name).toList ++ methodNames methods
  | .branch condition yes no => condition.names ++ yes.names ++ optionNames no
  | .whileLoop condition body => condition.names ++ body.names
  | .forLoop init condition increment body =>
    optionNames init ++ condition.names ++ optionExprNames increment ++ body.names
  | .block body => stmtNames body
  | .ret _ value => optionExprNames value
  | .leave _ => []
  | .next _ => []

/-- The names that statements use. -/
def stmtNames : List Stmt → List String
  | [] => []
  | s :: rest => s.names ++ stmtNames rest

/-- The names that a statement uses that may be missing. -/
def optionNames : Option Stmt → List String
  | none => []
  | some s => s.names

/-- The names that an expression uses that may be missing. -/
def optionExprNames : Option Expr → List String
  | none => []
  | some e => e.names

end

/-! ## 3. What may differ -/

/-- Which forms may be written out, and what else may differ. -/
structure Rewriting where
  /-- How the number of a reference may differ, among the frames around it. -/
  ref : List Slot → RefId → RefId → Prop
  /-- How the number of a `super` may differ. -/
  super : List Slot → RefId → RefId → Prop
  /-- How the places of tokens may differ. -/
  pos : Position → Position → Prop
  /-- Whether a right operand may stand in parentheses. -/
  groups : Prop
  /-- Whether a `for` loop may be written as a `while` loop. -/
  unrolls : Prop
  pos_refl : ∀ p, pos p p

/-- A loop that is written out, seen from a place in its body: the increment, and the frames around that
    place as the increment sees them. -/
structure Loop where
  increment : Option Expr
  slots : List Slot

/-- A block in the body of a loop. The increment knows nothing of its frame. -/
def Loop.enter (l : Loop) : Loop := { l with slots := .added :: l.slots }

/-- An expression that is run for its effects, if there is one. -/
def effects (e : Option Expr) : List Stmt := e.toList.map .expr

/-- The body of a `while` loop with the increment behind it. -/
def withIncrement (body : Stmt) (increment : Option Expr) : Stmt := .block (body :: effects increment)

/-- A `for` loop written as a `while` loop. -/
def asWhile (init : Option Stmt) (condition : Expr) (increment : Option Expr) (body : Stmt) : Stmt :=
  .block (init.toList ++ [.whileLoop condition (withIncrement body increment)])

/-- A `continue` behind the increment of its loop. -/
def asNext (keyword : Token) (increment : Option Expr) : Stmt :=
  .block (effects increment ++ [.next keyword])

/-! ## 4. Trees -/

section Trees

variable (R : Rewriting)

/-- Two tokens of one kind and spelling. -/
abbrev Rewriting.Token : Lox.Token → Lox.Token → Prop := TokenLike R.pos

/-- Two references. -/
structure RefInto (slots : List Slot) (r r' : Reference) : Prop where
  token : R.Token r.token r'.token
  id : R.ref slots r.id r'.id

/-- Two uses of `super`. -/
structure SuperInto (slots : List Slot) (r r' : Reference) : Prop where
  token : R.Token r.token r'.token
  id : R.super slots r.id r'.id

/-- Two superclasses. -/
inductive SuperclassInto (slots : List Slot) : Option Reference → Option Reference → Prop where
  | none : SuperclassInto slots none none
  | some {ref ref'} (h : RefInto R slots ref ref') : SuperclassInto slots (some ref) (some ref')

/-- The frames around the methods of a class, but for that of `this`. -/
def classSlots (superclass : Option Reference) (slots : List Slot) : List Slot :=
  match superclass with
  | none => slots
  | some _ => .shared :: slots

mutual

/-- An expression written out. -/
inductive ExprInto : List Slot → Expr → Expr → Prop where
  | literal {slots l} : ExprInto slots (.literal l) (.literal l)
  | group {slots e e'} (h : ExprInto slots e e') : ExprInto slots (.group e) (.group e')
  | unary {slots op op' e e'} (hop : R.Token op op') (h : ExprInto slots e e') :
      ExprInto slots (.unary op e) (.unary op' e')
  | binary {slots a a' op op' b b'} (ha : ExprInto slots a a') (hop : R.Token op op')
      (hb : ExprInto slots b b') : ExprInto slots (.binary a op b) (.binary a' op' b')
  /-- The right operand stands in parentheses. -/
  | grouped {slots a a' op op' b b'} (hgroups : R.groups) (ha : ExprInto slots a a')
      (hop : R.Token op op') (hb : ExprInto slots b b') :
      ExprInto slots (.binary a op b) (.binary a' op' (.group b'))
  | logical {slots a a' op op' b b'} (ha : ExprInto slots a a') (hop : R.Token op op')
      (hb : ExprInto slots b b') : ExprInto slots (.logical a op b) (.logical a' op' b')
  | conditional {slots c c' a a' b b'} (hc : ExprInto slots c c') (ha : ExprInto slots a a')
      (hb : ExprInto slots b b') : ExprInto slots (.conditional c a b) (.conditional c' a' b')
  | read {slots ref ref'} (h : RefInto R slots ref ref') : ExprInto slots (.read ref) (.read ref')
  | assign {slots ref ref' e e'} (h : RefInto R slots ref ref') (he : ExprInto slots e e') :
      ExprInto slots (.assign ref e) (.assign ref' e')
  | call {slots f f' paren paren' args args'} (hf : ExprInto slots f f')
      (hparen : R.Token paren paren') (hargs : ExprsInto slots args args') :
      ExprInto slots (.call f paren args) (.call f' paren' args')
  | get {slots o o' name name'} (ho : ExprInto slots o o') (hname : R.Token name name') :
      ExprInto slots (.get o name) (.get o' name')
  | set {slots o o' name name' e e'} (ho : ExprInto slots o o') (hname : R.Token name name')
      (he : ExprInto slots e e') : ExprInto slots (.set o name e) (.set o' name' e')
  | this {slots ref ref'} (h : RefInto R slots ref ref') : ExprInto slots (.this ref) (.this ref')
  | super {slots ref ref' method method'} (h : SuperInto R slots ref ref')
      (hmethod : R.Token method method') :
      ExprInto slots (.super ref method) (.super ref' method')
  | lambda {slots c c'} (h : CodeInto slots c c') : ExprInto slots (.lambda c) (.lambda c')

/-- Expressions written out. -/
inductive ExprsInto : List Slot → List Expr → List Expr → Prop where
  | nil {slots} : ExprsInto slots [] []
  | cons {slots e e' es es'} (h : ExprInto slots e e') (hs : ExprsInto slots es es') :
      ExprsInto slots (e :: es) (e' :: es')

/-- An expression written out that may be missing. -/
inductive OptionExprInto : List Slot → Option Expr → Option Expr → Prop where
  | none {slots} : OptionExprInto slots none none
  | some {slots e e'} (h : ExprInto slots e e') : OptionExprInto slots (some e) (some e')

/-- A function written out. A `continue` in it belongs to no loop around it. -/
inductive CodeInto : List Slot → Code → Code → Prop where
  | mk {slots params params' body body'} (hparams : List.Forall₂ R.Token params params')
      (hbody : StmtsInto none (.shared :: slots) body body') :
      CodeInto slots (.mk params body) (.mk params' body')

/-- Methods written out. -/
inductive MethodsInto : List Slot → List FunDecl → List FunDecl → Prop where
  | nil {slots} : MethodsInto slots [] []
  | cons {slots name name' code code' ms ms'} (hname : R.Token name name')
      (hcode : CodeInto slots code code') (hs : MethodsInto slots ms ms') :
      MethodsInto slots (.mk name code :: ms) (.mk name' code' :: ms')

/-- A statement written out, in the body of a loop that is written out or outside of all such. A name is
    declared in a frame that both programs have. -/
inductive StmtInto : Option Loop → List Slot → Stmt → Stmt → Prop where
  | expr {l slots e e'} (h : ExprInto slots e e') : StmtInto l slots (.expr e) (.expr e')
  | varDecl {l slots name name' e e'} (hin : Innermost slots) (hname : R.Token name name')
      (h : ExprInto slots e e') : StmtInto l slots (.varDecl name e) (.varDecl name' e')
  | funDecl {l slots name name' code code'} (hin : Innermost slots) (hname : R.Token name name')
      (hcode : CodeInto slots code code') :
      StmtInto l slots (.funDecl (.mk name code)) (.funDecl (.mk name' code'))
  | classDecl {l slots name name' superclass superclass' ms ms'} (hin : Innermost slots)
      (hname : R.Token name name') (hsuperclass : SuperclassInto R slots superclass superclass')
      (hmethods : MethodsInto (.shared :: classSlots superclass slots) ms ms') :
      StmtInto l slots (.classDecl name superclass ms) (.classDecl name' superclass' ms')
  | branch {l slots c c' a a' b b'} (hc : ExprInto slots c c') (ha : StmtInto l slots a a')
      (hb : OptionStmtInto l slots b b') :
      StmtInto l slots (.branch c a b) (.branch c' a' b')
  | whileLoop {l slots c c' s s'} (hc : ExprInto slots c c') (hs : StmtInto none slots s s') :
      StmtInto l slots (.whileLoop c s) (.whileLoop c' s')
  | forLoop {l slots init init' c c' i i' s s'}
      (hinit : OptionStmtInto none (.shared :: slots) init init')
      (hc : ExprInto (.shared :: slots) c c') (hi : OptionExprInto (.shared :: slots) i i')
      (hs : StmtInto none (.shared :: slots) s s') :
      StmtInto l slots (.forLoop init c i s) (.forLoop init' c' i' s')
  /-- **A `for` loop becomes a `while` loop.** -/
  | unrolled {l slots init init' c c' i i' s s'} (hunrolls : R.unrolls)
      (hinit : StartInto (.shared :: slots) init init')
      (hc : ExprInto (.shared :: slots) c c')
      (hi : OptionExprInto (.added :: .shared :: slots) i i')
      (hs : StmtInto (some ⟨i, .added :: .shared :: slots⟩) (.added :: .shared :: slots) s s') :
      StmtInto l slots (.forLoop init c i s) (asWhile init' c' i' s')
  | block {l slots body body'}
      (hapart : ∀ loop ∈ l, ∀ n ∈ declaredBy body, n ∉ optionExprNames loop.increment)
      (h : StmtsInto (l.map Loop.enter) (.shared :: slots) body body') :
      StmtInto l slots (.block body) (.block body')
  | ret {l slots k k' e e'} (hk : R.Token k k') (h : OptionExprInto slots e e') :
      StmtInto l slots (.ret k e) (.ret k' e')
  | leave {l slots k k'} (hk : R.Token k k') : StmtInto l slots (.leave k) (.leave k')
  /-- A `continue` of a loop that stays, or of one without an increment. -/
  | next {l slots k k'} (hnone : ∀ loop ∈ l, loop.increment = none) (hk : R.Token k k') :
      StmtInto l slots (.next k) (.next k')
  /-- **A `continue` of a loop that is written out** runs the increment first. -/
  | continued {loop slots k k' i'} (hi : OptionExprInto (.added :: loop.slots) loop.increment i')
      (hk : R.Token k k') : StmtInto (some loop) slots (.next k) (asNext k' i')

/-- What a loop that is written out starts with: a declaration, an expression or nothing. -/
inductive StartInto : List Slot → Option Stmt → Option Stmt → Prop where
  | none {slots} : StartInto slots none none
  | expr {slots e e'} (h : ExprInto slots e e') : StartInto slots (some (.expr e)) (some (.expr e'))
  | varDecl {slots name name' e e'} (hname : R.Token name name') (h : ExprInto slots e e') :
      StartInto slots (some (.varDecl name e)) (some (.varDecl name' e'))

/-- A statement written out that may be missing. -/
inductive OptionStmtInto : Option Loop → List Slot → Option Stmt → Option Stmt → Prop where
  | none {l slots} : OptionStmtInto l slots none none
  | some {l slots s s'} (h : StmtInto l slots s s') : OptionStmtInto l slots (some s) (some s')

/-- Statements written out. -/
inductive StmtsInto : Option Loop → List Slot → List Stmt → List Stmt → Prop where
  | nil {l slots} : StmtsInto l slots [] []
  | cons {l slots s s' ss ss'} (h : StmtInto l slots s s') (hs : StmtsInto l slots ss ss') :
      StmtsInto l slots (s :: ss) (s' :: ss')

end

end Trees

section Facts

variable {R : Rewriting} {slots : List Slot}

theorem ExprsInto.length_eq {es es' : List Expr} :
    ExprsInto R slots es es' → es'.length = es.length
  | .nil => rfl
  | .cons _ hs => congrArg (· + 1) hs.length_eq

theorem CodeInto.arity {c c' : Code} (h : CodeInto R slots c c') : c'.arity = c.arity := by
  cases h with
  | mk hparams _ => exact hparams.length_eq.symm

end Facts

end Lox
