import Lox.Proofs.Grammar.Soundness
import Lox.Proofs.Scope.Places

/-!
# Ways out of loops stand in loops

Every `break` and `continue` of a program that parses stands in the body of a loop, and no function
begins between the two.

* `Stmt.Confined`: the statement may stand in the body of a loop or not, and its ways out of a loop
  are in one. A function confines what is in it: its body is outside all loops.
* `derives_confined`: what the rules derive is so, since their symbols count the loops around.
* `Inside.confined`: so are all parts.
-/

namespace Lox

/-! ## 1. Confined statements -/

mutual

/-- The functions of an expression confine what is in them. -/
def Expr.Confined : Expr → Prop
  | .literal _ => True
  | .group inner => inner.Confined
  | .unary _ operand => operand.Confined
  | .binary left _ right => left.Confined ∧ right.Confined
  | .logical left _ right => left.Confined ∧ right.Confined
  | .conditional condition yes no => condition.Confined ∧ yes.Confined ∧ no.Confined
  | .read _ => True
  | .assign _ value => value.Confined
  | .call callee _ args => callee.Confined ∧ exprsConfined args
  | .get object _ => object.Confined
  | .set object _ value => object.Confined ∧ value.Confined
  | .this _ => True
  | .super _ _ => True
  | .lambda code => code.Confined

/-- The functions of expressions confine what is in them. -/
def exprsConfined : List Expr → Prop
  | [] => True
  | e :: rest => e.Confined ∧ exprsConfined rest

/-- **The body of a function is outside all loops.** -/
def Code.Confined : Code → Prop
  | .mk _ body => stmtsConfined body false

/-- Methods confine what is in them. -/
def methodsConfined : List FunDecl → Prop
  | [] => True
  | .mk _ code :: rest => code.Confined ∧ methodsConfined rest

/-- **The ways out of a loop stand in one.** The statement may stand in the body of a loop itself. -/
def Stmt.Confined : Stmt → (inLoop : Bool) → Prop
  | .expr e, _ => e.Confined
  | .varDecl _ init, _ => init.Confined
  | .funDecl (.mk _ code), _ => code.Confined
  | .classDecl _ _ methods, _ => methodsConfined methods
  | .branch condition yes no, l => condition.Confined ∧ yes.Confined l ∧ optionalConfined no l
  | .whileLoop condition body, _ => condition.Confined ∧ body.Confined true
  | .forLoop init condition increment body, _ =>
    optionalConfined init false ∧ condition.Confined ∧ optionConfined increment ∧ body.Confined true
  | .block body, l => stmtsConfined body l
  | .ret _ value, _ => optionConfined value
  | .leave _, l => l = true
  | .next _, l => l = true

/-- The ways out of a loop stand in one. -/
def stmtsConfined : List Stmt → (inLoop : Bool) → Prop
  | [], _ => True
  | s :: rest, l => s.Confined l ∧ stmtsConfined rest l

/-- The same of a statement that may be missing. -/
def optionalConfined : Option Stmt → (inLoop : Bool) → Prop
  | none, _ => True
  | some s, l => s.Confined l

/-- The functions of an expression that may be missing confine what is in them. -/
def optionConfined : Option Expr → Prop
  | none => True
  | some e => e.Confined

end

/-- What is confined somewhere. -/
def Node.Confined : Node → Prop
  | .expr e => e.Confined
  | .code c => c.Confined
  | .stmt s => ∃ l, s.Confined l

theorem exprsConfined_iff {es : List Expr} : exprsConfined es ↔ ∀ e ∈ es, e.Confined := by
  induction es with
  | nil => simp [exprsConfined]
  | cons e rest ih => rw [exprsConfined, ih, List.forall_mem_cons]

theorem stmtsConfined_iff {ss : List Stmt} {l : Bool} :
    stmtsConfined ss l ↔ ∀ s ∈ ss, s.Confined l := by
  induction ss with
  | nil => simp [stmtsConfined]
  | cons s rest ih => rw [stmtsConfined, ih, List.forall_mem_cons]

theorem methodsConfined_of_mem {methods : List FunDecl} (h : methodsConfined methods) {m : Token}
    {c : Code} (hm : FunDecl.mk m c ∈ methods) : c.Confined := by
  induction methods with
  | nil => cases hm
  | cons d rest ih =>
    obtain ⟨n, k⟩ := d
    rw [methodsConfined] at h
    cases hm with
    | head => exact h.1
    | tail _ hm => exact ih h.2 hm

/-! ## 2. What the rules derive -/

namespace Syntax

/-- What is confined in a phrase of a symbol. -/
def TreeConfined : (s : Symbol) → s.Tree → Prop
  | .primary, e | .call, e | .unary, e | .within _, e | .operand _, e | .conditional, e
  | .assignment, e | .expression, e => Expr.Confined e
  | .arguments, es | .argumentList, es => exprsConfined es
  | .optionalExpression, o => optionConfined o
  | .names, _ | .parameterList, _ | .superclass, _ => True
  | .code, c => Code.Confined c
  | .function, f => Code.Confined (FunDecl.code f)
  | .methods, fs => methodsConfined fs
  | .variable, s | .expressionStatement, s => ∀ l, Stmt.Confined s l
  | .loopStart, o => optionalConfined o false
  | .statement loops, s | .declaration loops, s => Stmt.Confined s (decide (0 < loops))
  | .declarations loops, ss => stmtsConfined ss (decide (0 < loops))

theorem Level.join_confined {l : Level} {left right : Expr} {op : Token} (hl : left.Confined)
    (hr : right.Confined) : (l.join left op right).Confined := by
  cases l <;> exact ⟨hl, hr⟩

theorem Assigned.confined {target value w : Expr} {equals : Token}
    (h : Assigned target equals value w) (ht : target.Confined) (hv : value.Confined) :
    w.Confined := by
  cases h with
  | plain => exact hv
  | joined => exact ⟨ht, hv⟩

theorem getD_confined {o : Option Expr} {l : Literal} (h : optionConfined o) :
    (o.getD (.literal l)).Confined := by
  cases o with
  | none => trivial
  | some e => exact h

/-- **What the rules derive is confined.** -/
theorem derives_confined {g : ElseRule} {s : Symbol} {a b : Nat} {ts : List Token} {x : s.Tree}
    (h : Derives g s a ts x b) : TreeConfined s x := by
  induction h with
  | literal | this | super | name | noArguments | noExpression | lastName | moreNames
  | noParameters | someParameters | noMethods | noSuperclass | superclass | noStart
  | noDeclarations => trivial
  | lambda _ _ ih | group _ _ _ ih | callee _ ih | property _ _ _ ih | someArguments _ _ ih
  | sign _ _ ih | unsigned _ ih | tightest _ ih | tighter _ ih | single _ ih | noChoice _ ih
  | noAssignment _ ih | oneAssignment _ ih | someExpression _ ih | function _ _ ih => exact ih
  | apply _ _ _ _ ihe ihargs => exact ⟨ihe, ihargs⟩
  | lastArgument _ ih => exact ⟨ih, trivial⟩
  | moreArguments _ _ _ ihe ihes => exact ⟨ihe, ihes⟩
  | join _ _ _ ihl ihr => exact Level.join_confined ihl ihr
  | choice _ _ _ _ _ ihe ihyes ihno => exact ⟨ihe, ihyes, ihno⟩
  | assign _ _ hw ih => exact hw.confined trivial ih
  | set _ _ _ _ hw ihe ihv => exact ⟨ihe, hw.confined ihe ihv⟩
  | comma _ _ _ ihl ihr => exact ⟨ihl, ihr⟩
  | code _ _ _ _ _ _ _ ihbody => exact ihbody
  | @moreMethods _ _ _ _ f _ _ _ _ ihf ihfs =>
    obtain ⟨n, c⟩ := f
    exact ⟨ihf, ihfs⟩
  | expressionStatement _ _ ih => exact fun _ => ih
  | bareVariable => exact fun _ => trivial
  | initializedVariable _ _ _ _ ih => exact fun _ => ih
  | variableStart _ _ ih | expressionStart _ ih => exact ih false
  | simple _ ih | varDecl _ _ ih => exact ih _
  | forLoop _ _ _ _ _ _ _ _ ihinit ihcond ihinc ihbody =>
    exact ⟨ihinit, getD_confined ihcond, ihinc, ihbody⟩
  | whileLoop _ _ _ _ _ ihcond ihbody => exact ⟨ihcond, ihbody⟩
  | branch _ _ _ _ _ ihcond ihyes => exact ⟨ihcond, ihyes, trivial⟩
  | branchElse _ _ _ _ _ _ _ _ ihcond ihyes ihno => exact ⟨ihcond, ihyes, ihno⟩
  | block _ _ _ ih | ret _ _ _ ih => exact ih
  | leave _ _ hloops | next _ _ hloops => exact decide_eq_true hloops
  | classDecl _ _ _ _ _ _ _ ihms => exact ihms
  | @funDecl _ _ _ _ _ f _ _ ih =>
    obtain ⟨n, c⟩ := f
    exact ih
  | statement _ ih => exact ih
  | moreDeclarations _ _ ihs ihss => exact ⟨ihs, ihss⟩

/-- **A program that parses** is confined. -/
theorem parse_confined {tokens : List Token} {nextId : Nat} (h : (parse tokens nextId).errors = []) :
    stmtsConfined (parse tokens nextId).statements false :=
  derives_confined (parse_derives h)

end Syntax

/-! ## 3. Parts -/

/-- **The parts of what is confined** are so. -/
theorem Inside.confined {node child : Node} {p q : Place} (h : Inside node p child q)
    (hs : node.Confined) : child.Confined := by
  cases h with
  | group | operand | assigned | getObject | lambda => exact hs
  | binaryLeft | logicalLeft | choiceCondition | callee | setObject => exact And.left hs
  | binaryRight | logicalRight | setValue => exact And.right hs
  | choiceYes => exact And.left (And.right hs)
  | choiceNo => exact And.right (And.right hs)
  | argument he => exact exprsConfined_iff.mp (And.right hs) _ he
  | body => exact ⟨false, stmtsConfined_iff.mp hs _ (by simp)⟩
  | expression | initializer | function | returned =>
    obtain ⟨_, hs⟩ := hs
    exact hs
  | superclass => trivial
  | method hm =>
    obtain ⟨_, hs⟩ := hs
    exact methodsConfined_of_mem hs hm
  | branchCondition | whileCondition =>
    obtain ⟨_, hs⟩ := hs
    exact hs.1
  | branchYes =>
    obtain ⟨l, hs⟩ := hs
    exact ⟨l, hs.2.1⟩
  | branchNo =>
    obtain ⟨l, hs⟩ := hs
    exact ⟨l, hs.2.2⟩
  | whileBody =>
    obtain ⟨_, hs⟩ := hs
    exact ⟨true, hs.2⟩
  | loopStart =>
    obtain ⟨_, hs⟩ := hs
    exact ⟨false, hs.1⟩
  | loopCondition =>
    obtain ⟨_, hs⟩ := hs
    exact hs.2.1
  | loopIncrement =>
    obtain ⟨_, hs⟩ := hs
    exact hs.2.2.1
  | loopBody =>
    obtain ⟨_, hs⟩ := hs
    exact ⟨true, hs.2.2.2⟩
  | block =>
    obtain ⟨l, hs⟩ := hs
    exact ⟨l, stmtsConfined_iff.mp hs _ (by simp)⟩

/-- The parts of a confined program are confined. -/
theorem Occurs.confined {program : List Stmt} {node : Node} {p : Place}
    (h : Occurs program node p) (hs : stmtsConfined program false) : node.Confined := by
  induction h with
  | top hmem => exact ⟨false, stmtsConfined_iff.mp hs _ hmem⟩
  | inside _ hi ih => exact hi.confined ih

end Lox
