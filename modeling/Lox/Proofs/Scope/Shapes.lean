import Lox.Proofs.Grammar.Soundness
import Lox.Proofs.Scope.Places

/-!
# The shape of programs that parse

What every program that was parsed without a complaint is like, beyond being a tree: operators stand
where operators may, a branch or the body of a loop is no declaration, and every name is a word of its
kind. `P` is whatever else is known of the tokens, such as how the words of a source are spelled.

* `derives_shaped`: what the rules derive has this shape.
* `Inside.shaped`: so have all its parts.
-/

namespace Lox

/-! ## 1. Shapes -/

/-- Whether a kind of token joins two operands to a value. -/
def joinsOperands : Token.Kind → Bool
  | .comma | .plus | .minus | .star | .slash | .greater | .greaterEqual | .less | .lessEqual
  | .equalEqual | .bangEqual => true
  | _ => false

/-- A token of a kind of which `P` holds. -/
def Token.Is (t : Token) (k : Token.Kind) (P : Token → Prop) : Prop := t.kind = k ∧ P t

mutual

/-- The shape of an expression. -/
def Expr.Shaped (P : Token → Prop) : Expr → Prop
  | .literal _ => True
  | .group inner => inner.Shaped P
  | .unary op operand => (op.kind = .bang ∨ op.kind = .minus) ∧ operand.Shaped P
  | .binary left op right => joinsOperands op.kind = true ∧ left.Shaped P ∧ right.Shaped P
  | .logical left _ right => left.Shaped P ∧ right.Shaped P
  | .conditional condition yes no => condition.Shaped P ∧ yes.Shaped P ∧ no.Shaped P
  | .read ref => ref.token.Is .identifier P
  | .assign ref value => ref.token.Is .identifier P ∧ value.Shaped P
  | .call callee _ args => callee.Shaped P ∧ exprsShaped P args
  | .get object _ => object.Shaped P
  | .set object _ value => object.Shaped P ∧ value.Shaped P
  | .this ref => ref.token.Is .kwThis P
  | .super ref _ => ref.token.Is .kwSuper P
  | .lambda code => code.Shaped P

/-- The shape of expressions. -/
def exprsShaped (P : Token → Prop) : List Expr → Prop
  | [] => True
  | e :: rest => e.Shaped P ∧ exprsShaped P rest

/-- The shape of a function. -/
def Code.Shaped (P : Token → Prop) : Code → Prop
  | .mk params body => (∀ t ∈ params, t.Is .identifier P) ∧ stmtsShaped P body

/-- The shape of methods. -/
def methodsShaped (P : Token → Prop) : List FunDecl → Prop
  | [] => True
  | .mk _ code :: rest => code.Shaped P ∧ methodsShaped P rest

/-- The shape of a statement. -/
def Stmt.Shaped (P : Token → Prop) : Stmt → Prop
  | .expr e => e.Shaped P
  | .varDecl name init => name.Is .identifier P ∧ init.Shaped P
  | .funDecl (.mk name code) => name.Is .identifier P ∧ code.Shaped P
  | .classDecl name superclass methods =>
    name.Is .identifier P ∧ (∀ ref, superclass = some ref → ref.token.Is .identifier P) ∧
      methodsShaped P methods
  | .branch condition yes no =>
    condition.Shaped P ∧ yes.Shaped P ∧ yes.declared? = none ∧ elseShaped P no
  | .whileLoop condition body => condition.Shaped P ∧ body.Shaped P ∧ body.declared? = none
  | .forLoop init condition increment body =>
    startShaped P init ∧ condition.Shaped P ∧ optionShaped P increment ∧ body.Shaped P ∧
      body.declared? = none
  | .block body => stmtsShaped P body
  | .ret _ value => optionShaped P value
  | .leave _ => True
  | .next _ => True

/-- The shape of statements. -/
def stmtsShaped (P : Token → Prop) : List Stmt → Prop
  | [] => True
  | s :: rest => s.Shaped P ∧ stmtsShaped P rest

/-- The shape of what a loop starts with. -/
def startShaped (P : Token → Prop) : Option Stmt → Prop
  | none => True
  | some s => s.Shaped P

/-- The shape of the statement behind an `else`. -/
def elseShaped (P : Token → Prop) : Option Stmt → Prop
  | none => True
  | some s => s.Shaped P ∧ s.declared? = none

/-- The shape of an expression that may be missing. -/
def optionShaped (P : Token → Prop) : Option Expr → Prop
  | none => True
  | some e => e.Shaped P

end

/-- The shape of a part of a program. -/
def Node.Shaped (P : Token → Prop) : Node → Prop
  | .expr e => e.Shaped P
  | .code c => c.Shaped P
  | .stmt s => s.Shaped P

section Lists

variable {P : Token → Prop}

theorem exprsShaped_iff {es : List Expr} : exprsShaped P es ↔ ∀ e ∈ es, e.Shaped P := by
  induction es with
  | nil => simp [exprsShaped]
  | cons e rest ih => rw [exprsShaped, ih, List.forall_mem_cons]

theorem stmtsShaped_iff {ss : List Stmt} : stmtsShaped P ss ↔ ∀ s ∈ ss, s.Shaped P := by
  induction ss with
  | nil => simp [stmtsShaped]
  | cons s rest ih => rw [stmtsShaped, ih, List.forall_mem_cons]

theorem stmtsShaped_before {before after : List Stmt} (h : stmtsShaped P (before ++ after)) :
    stmtsShaped P before :=
  stmtsShaped_iff.mpr fun s hs => stmtsShaped_iff.mp h s (List.mem_append_left _ hs)

theorem methodsShaped_of_mem {methods : List FunDecl} (h : methodsShaped P methods) {m : Token}
    {c : Code} (hm : FunDecl.mk m c ∈ methods) : c.Shaped P := by
  induction methods with
  | nil => cases hm
  | cons d rest ih =>
    obtain ⟨n, k⟩ := d
    rw [methodsShaped] at h
    cases hm with
    | head => exact h.1
    | tail _ hm => exact ih h.2 hm

end Lists

/-! ## 2. What the rules derive -/

namespace Syntax

/-- The shape of a phrase of a symbol. -/
def TreeShaped (P : Token → Prop) : (s : Symbol) → s.Tree → Prop
  | .primary, e | .call, e | .unary, e | .within _, e | .operand _, e | .conditional, e
  | .assignment, e | .expression, e => Expr.Shaped P e
  | .arguments, es | .argumentList, es => exprsShaped P es
  | .optionalExpression, o => optionShaped P o
  | .names, ns | .parameterList, ns => ∀ t ∈ ns, Token.Is t .identifier P
  | .code, c => Code.Shaped P c
  | .function, f => Token.Is (FunDecl.name f) .identifier P ∧ Code.Shaped P (FunDecl.code f)
  | .methods, fs => methodsShaped P fs
  | .superclass, o => ∀ ref, o = some ref → Token.Is ref.token .identifier P
  | .variable, s | .declaration _, s => Stmt.Shaped P s
  | .expressionStatement, s | .statement _, s => Stmt.Shaped P s ∧ Stmt.declared? s = none
  | .loopStart, o => startShaped P o
  | .declarations _, ss => stmtsShaped P ss

theorem joinsOperands_of_has {l : Level} {k : Token.Kind} (h : l.has k = true) :
    l = .or ∨ l = .and ∨ joinsOperands k = true := by
  unfold Level.has at h
  split at h <;> first | exact .inl rfl | exact .inr (.inl rfl) | exact .inr (.inr rfl) | cases h

theorem Level.join_shaped {P : Token → Prop} {l : Level} {left right : Expr} {op : Token}
    (hop : l.has op.kind = true) (hl : left.Shaped P) (hr : right.Shaped P) :
    (l.join left op right).Shaped P := by
  have hlogical : (Expr.logical left op right).Shaped P := by
    rw [Expr.Shaped]
    exact ⟨hl, hr⟩
  rcases joinsOperands_of_has hop with rfl | rfl | hjoins
  · exact hlogical
  · exact hlogical
  · have hbinary : (Expr.binary left op right).Shaped P := by
      rw [Expr.Shaped]
      exact ⟨hjoins, hl, hr⟩
    cases l with
    | or | and => exact hlogical
    | equality | comparison | term | factor => exact hbinary

theorem Assigned.shaped {P : Token → Prop} {target value w : Expr} {equals : Token}
    (h : Assigned target equals value w) (ht : target.Shaped P) (hv : value.Shaped P) :
    w.Shaped P := by
  cases h with
  | plain => exact hv
  | joined hk =>
    rw [Expr.Shaped]
    refine ⟨?_, ht, hv⟩
    simp only [compounds, List.mem_cons, Prod.mk.injEq, List.not_mem_nil, or_false] at hk
    rcases hk with ⟨-, rfl, -⟩ | ⟨-, rfl, -⟩ | ⟨-, rfl, -⟩ | ⟨-, rfl, -⟩ <;> rfl

theorem getD_shaped {P : Token → Prop} {o : Option Expr} {l : Literal} (h : optionShaped P o) :
    (o.getD (.literal l)).Shaped P := by
  cases o with
  | none => trivial
  | some e => exact h

/-- **What the rules derive has the shape.** -/
theorem derives_shaped {P : Token → Prop} {g : ElseRule} {s : Symbol} {a b : Nat}
    {ts : List Token} {x : s.Tree} (h : Derives g s a ts x b) (hP : ∀ t ∈ ts, P t) :
    TreeShaped P s x := by
  induction h with
  | literal => trivial
  | this h | name h => exact ⟨h, hP _ List.mem_cons_self⟩
  | super ht => exact ⟨ht, hP _ List.mem_cons_self⟩
  | lambda _ _ ih => exact ih fun t ht => hP t (List.mem_cons_of_mem _ ht)
  | group _ _ _ ih =>
    rw [List.forall_mem_cons, List.forall_mem_append] at hP
    exact ih hP.2.1
  | callee _ ih | unsigned _ ih | tightest _ ih | tighter _ ih | single _ ih | noChoice _ ih
  | noAssignment _ ih | oneAssignment _ ih | someExpression _ ih =>
    exact ih hP
  | apply _ _ _ _ ihe ihargs =>
    rw [List.forall_mem_append, List.forall_mem_cons, List.forall_mem_append] at hP
    exact ⟨ihe hP.1, ihargs hP.2.2.1⟩
  | property _ _ _ ih =>
    rw [List.forall_mem_append] at hP
    exact ih hP.1
  | lastArgument _ ih => exact ⟨ih hP, trivial⟩
  | moreArguments _ _ _ ihe ihes =>
    rw [List.forall_mem_append, List.forall_mem_cons] at hP
    exact ⟨ihe hP.1, ihes hP.2.2⟩
  | noArguments | noExpression | noStart | noMethods | noDeclarations => trivial
  | someArguments _ _ ih => exact ih hP
  | sign hop _ ih =>
    rw [List.forall_mem_cons] at hP
    exact ⟨hop, ih hP.2⟩
  | join _ hop _ ihl ihr =>
    rw [List.forall_mem_append, List.forall_mem_cons] at hP
    exact Level.join_shaped hop (ihl hP.1) (ihr hP.2.2)
  | choice _ _ _ _ _ ihe ihyes ihno =>
    rw [List.forall_mem_append, List.forall_mem_cons, List.forall_mem_append,
      List.forall_mem_cons] at hP
    exact ⟨ihe hP.1, ihyes hP.2.2.1, ihno hP.2.2.2.2⟩
  | assign hn _ hw ih =>
    rw [List.forall_mem_cons, List.forall_mem_cons] at hP
    exact ⟨⟨hn, hP.1⟩, hw.shaped ⟨hn, hP.1⟩ (ih hP.2.2)⟩
  | set _ _ _ _ hw ihe ihv =>
    rw [List.forall_mem_append, List.forall_mem_cons, List.forall_mem_cons,
      List.forall_mem_cons] at hP
    exact ⟨ihe hP.1, hw.shaped (ihe hP.1) (ihv hP.2.2.2.2)⟩
  | comma _ hop _ ihl ihr =>
    rw [List.forall_mem_append, List.forall_mem_cons] at hP
    exact ⟨by rw [hop]; rfl, ihl hP.1, ihr hP.2.2⟩
  | lastName hn =>
    intro t ht
    obtain rfl := List.mem_singleton.mp ht
    exact ⟨hn, hP _ ht⟩
  | moreNames hn _ _ ih =>
    rw [List.forall_mem_cons, List.forall_mem_cons] at hP
    exact List.forall_mem_cons.mpr ⟨⟨hn, hP.1⟩, ih hP.2.2⟩
  | noParameters => exact fun t ht => absurd ht List.not_mem_nil
  | someParameters _ _ ih => exact ih hP
  | code _ _ _ _ _ _ ihns ihbody =>
    rw [List.forall_mem_cons, List.forall_mem_append, List.forall_mem_cons, List.forall_mem_cons,
      List.forall_mem_append] at hP
    exact ⟨ihns hP.2.1, ihbody hP.2.2.2.2.1⟩
  | function hn _ ih =>
    rw [List.forall_mem_cons] at hP
    exact ⟨⟨hn, hP.1⟩, ih hP.2⟩
  | @moreMethods _ _ _ _ f _ _ _ _ ihf ihfs =>
    rw [List.forall_mem_append] at hP
    obtain ⟨n, c⟩ := f
    exact ⟨(ihf hP.1).2, ihfs hP.2⟩
  | noSuperclass => exact fun ref h => nomatch h
  | superclass _ hn =>
    intro ref h
    cases h
    exact ⟨hn, hP _ (List.mem_cons_of_mem _ List.mem_cons_self)⟩
  | expressionStatement _ _ ih =>
    rw [List.forall_mem_append] at hP
    exact ⟨ih hP.1, rfl⟩
  | bareVariable hn => exact ⟨⟨hn, hP _ List.mem_cons_self⟩, trivial⟩
  | initializedVariable hn _ _ _ ih =>
    rw [List.forall_mem_cons, List.forall_mem_cons, List.forall_mem_append] at hP
    exact ⟨⟨hn, hP.1⟩, ih hP.2.2.1⟩
  | variableStart _ _ ih =>
    rw [List.forall_mem_cons] at hP
    exact ih hP.2
  | expressionStart _ ih => exact (ih hP).1
  | simple _ ih => exact ih hP
  | forLoop _ _ _ _ _ _ _ _ ihinit ihcond ihinc ihbody =>
    simp only [List.forall_mem_cons, List.forall_mem_append] at hP
    have hbody := ihbody hP.2.2.2.2.2.2.2
    exact ⟨⟨ihinit hP.2.2.1, getD_shaped (ihcond hP.2.2.2.1), ihinc hP.2.2.2.2.2.1, hbody.1,
      hbody.2⟩, rfl⟩
  | whileLoop _ _ _ _ _ ihcond ihbody =>
    simp only [List.forall_mem_cons, List.forall_mem_append] at hP
    have hbody := ihbody hP.2.2.2.2
    exact ⟨⟨ihcond hP.2.2.1, hbody.1, hbody.2⟩, rfl⟩
  | branch _ _ _ _ _ ihcond ihyes =>
    simp only [List.forall_mem_cons, List.forall_mem_append] at hP
    have hyes := ihyes hP.2.2.2.2
    exact ⟨⟨ihcond hP.2.2.1, hyes.1, hyes.2, trivial⟩, rfl⟩
  | branchElse _ _ _ _ _ _ _ _ ihcond ihyes ihno =>
    simp only [List.forall_mem_cons, List.forall_mem_append] at hP
    have hyes := ihyes hP.2.2.2.2.1
    exact ⟨⟨ihcond hP.2.2.1, hyes.1, hyes.2, ihno hP.2.2.2.2.2.2⟩, rfl⟩
  | block _ _ _ ih =>
    rw [List.forall_mem_cons, List.forall_mem_append] at hP
    exact ⟨ih hP.2.1, rfl⟩
  | ret _ _ _ ih =>
    rw [List.forall_mem_cons, List.forall_mem_append] at hP
    exact ⟨ih hP.2.1, rfl⟩
  | leave | next => exact ⟨trivial, rfl⟩
  | classDecl _ hn _ _ _ _ ihsup ihms =>
    simp only [List.forall_mem_cons, List.forall_mem_append] at hP
    exact ⟨⟨hn, hP.2.1⟩, ihsup hP.2.2.1, ihms hP.2.2.2.2.1⟩
  | @funDecl _ _ _ _ _ f _ _ ih =>
    rw [List.forall_mem_cons] at hP
    obtain ⟨n, c⟩ := f
    exact ih hP.2
  | varDecl _ _ ih =>
    rw [List.forall_mem_cons] at hP
    exact ih hP.2
  | statement _ ih => exact (ih hP).1
  | moreDeclarations _ _ ihs ihss =>
    rw [List.forall_mem_append] at hP
    exact ⟨ihs hP.1, ihss hP.2⟩

end Syntax

/-! ## 3. Parts -/

/-- **The parts of what has the shape** have it. -/
theorem Inside.shaped {P : Token → Prop} {node child : Node} {p q : Place}
    (h : Inside node p child q) (hs : node.Shaped P) : child.Shaped P := by
  cases h with
  | group | getObject | lambda | expression | returned => exact hs
  | callee | setObject | logicalLeft | choiceCondition | branchCondition | whileCondition
  | loopStart => exact And.left hs
  | operand | assigned | setValue | logicalRight | initializer | function => exact And.right hs
  | binaryLeft | choiceYes | branchYes | whileBody | loopCondition =>
    have h := And.right hs
    exact And.left h
  | binaryRight | choiceNo =>
    have h := And.right hs
    exact And.right h
  | argument he => exact exprsShaped_iff.mp (And.right hs) _ he
  | body => exact stmtsShaped_iff.mp (And.right hs) _ (by simp)
  | block => exact stmtsShaped_iff.mp hs _ (by simp)
  | superclass =>
    have h := And.right hs
    exact And.left h _ rfl
  | method hm =>
    have h := And.right hs
    exact methodsShaped_of_mem (And.right h) hm
  | branchNo =>
    have h := And.right (And.right (And.right hs))
    exact And.left h
  | loopIncrement =>
    have h := And.right (And.right hs)
    exact And.left h
  | loopBody =>
    have h := And.right (And.right (And.right hs))
    exact And.left h

/-- The parts of a program that has the shape have it. -/
theorem Occurs.shaped {P : Token → Prop} {program : List Stmt} {node : Node} {p : Place}
    (h : Occurs program node p) (hs : stmtsShaped P program) : node.Shaped P := by
  induction h with
  | top hmem => exact stmtsShaped_iff.mp hs _ hmem
  | inside _ hi ih => exact hi.shaped ih

end Lox
