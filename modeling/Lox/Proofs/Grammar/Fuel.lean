import Lox.Proofs.Grammar.Soundness

/-!
# What a rule does not look at

Fuel is only a bound: it decides whether a rule comes to an end, and nothing of what it comes to. And
complaints are only added to: no rule looks at those before it.

* `Rule`, `Rule.parse`: the rules of the parser that take fuel, in one family, for what holds of all.
* `Steady errs p q`: where `p` does not starve, `q` comes to the same behind the complaints `errs`.
* `rule_steady_succ`, `rule_steady`: every rule with more fuel is steady against itself with less.
-/

namespace Lox.Syntax

/-! ## 1. The rules -/

/-- The rules that take fuel, each with what its caller tells it. The index is what the rule builds. -/
inductive Rule : Type → Type
  | expression : Rule Expr
  | moreAssignments (left : Expr) : Rule Expr
  | assignment : Rule Expr
  | conditional : Rule Expr
  | operand (l : Level) : Rule Expr
  | moreOperands (l : Level) (left : Expr) : Rule Expr
  | operandWithin (l : Option Level) : Rule Expr
  | unary : Rule Expr
  | moreCalls (left : Expr) : Rule Expr
  | arguments : Rule (List Expr)
  | primary : Rule Expr
  | parameterNames : Rule (List Token)
  | parameters : Rule (List Token)
  | code (f : Callable) : Rule Code
  | funDecl (f : Callable) : Rule FunDecl
  | declaration (loops : Nat) : Rule (Option Stmt)
  | declarationOrFail (loops : Nat) : Rule Stmt
  | classDecl : Rule Stmt
  | methodsRest : Rule (List FunDecl)
  | varDecl : Rule Stmt
  | statement (loops : Nat) : Rule Stmt
  | exprStatement : Rule Stmt
  | forLoop (loops : Nat) : Rule Stmt
  | forInit : Rule (Option Stmt)
  | whileLoop (loops : Nat) : Rule Stmt
  | branch (loops : Nat) : Rule Stmt
  | ret (keyword : Token) : Rule Stmt
  | blockRest (loops : Nat) : Rule (List Stmt)
  | declarations (loops : Nat) : Rule (List Stmt)
  | program : Rule (List Stmt)

/-- A rule with some fuel. -/
def Rule.parse {α : Type} (n : Nat) : Rule α → Parse α
  | .expression => Syntax.expression n
  | .moreAssignments left => Syntax.moreAssignments n left
  | .assignment => Syntax.assignment n
  | .conditional => Syntax.conditional n
  | .operand l => Syntax.operand n l
  | .moreOperands l left => Syntax.moreOperands n l left
  | .operandWithin l => Syntax.operandWithin n l
  | .unary => Syntax.unary n
  | .moreCalls left => Syntax.moreCalls n left
  | .arguments => Syntax.arguments n
  | .primary => Syntax.primary n
  | .parameterNames => Syntax.parameterNames n
  | .parameters => Syntax.parameters n
  | .code f => Syntax.code n f
  | .funDecl f => Syntax.funDecl n f
  | .declaration loops => Syntax.declaration n loops
  | .declarationOrFail loops => Syntax.declarationOrFail n loops
  | .classDecl => Syntax.classDecl n
  | .methodsRest => Syntax.methodsRest n
  | .varDecl => Syntax.varDecl n
  | .statement loops => Syntax.statement n loops
  | .exprStatement => Syntax.exprStatement n
  | .forLoop loops => Syntax.forLoop n loops
  | .forInit => Syntax.forInit n
  | .whileLoop loops => Syntax.whileLoop n loops
  | .branch loops => Syntax.branch n loops
  | .ret keyword => Syntax.ret n keyword
  | .blockRest loops => Syntax.blockRest n loops
  | .declarations loops => Syntax.declarations n loops
  | .program => Syntax.program n

/-! ## 2. Steadiness -/

/-- A cursor with more complaints in front of its own. -/
def Cursor.behind (errs : List SyntaxError) (s : Cursor) : Cursor :=
  { s with errors := errs ++ s.errors }

/-- Where `p` does not starve, `q` comes to the same behind the complaints `errs`. -/
def Steady {α : Type} (errs : List SyntaxError) (p q : Parse α) : Prop :=
  ∀ s, (p.run s).1 ≠ .error .starved →
    q.run (s.behind errs) = ((p.run s).1, (p.run s).2.behind errs)

section Logic

variable {α β : Type} {errs : List SyntaxError} {p q : Parse α} {f g : α → Parse β}

protected theorem Steady.trans {r : Parse α} (h : Steady errs p q) (h' : Steady [] q r) :
    Steady errs p r := fun s hs =>
  (h' (s.behind errs) (by rwa [h s hs])).trans (h s hs)

theorem steady_starve : Steady errs starve q := fun _ h => absurd rfl h

theorem steady_pure (x : α) : Steady errs (pure x) (pure x) := fun _ _ => rfl

/-- **A rule, then the rest.** -/
protected theorem Steady.bind (h : Steady errs p q) (hf : ∀ x, Steady errs (f x) (g x)) :
    Steady errs (p >>= f) (q >>= g) := fun s hs => by
  rw [run_bind] at hs ⊢
  rw [run_bind]
  have hp : (p.run s).1 ≠ .error .starved := fun e => by
    rcases hrun : p.run s with ⟨o, s'⟩
    rw [hrun] at e hs
    obtain rfl : o = .error .starved := e
    exact hs rfl
  rw [h s hp]
  generalize p.run s = o at hs ⊢
  rcases o with ⟨e | x, s'⟩
  · rfl
  · exact hf x s' hs

protected theorem Steady.map (f : α → β) (h : Steady errs p q) : Steady errs (f <$> p) (f <$> q) := by
  rw [← bind_pure_comp, ← bind_pure_comp]
  exact h.bind fun x => steady_pure _

end Logic

/-! ## 3. Steps that take no fuel -/

section Steps

variable {α β : Type} {errs : List SyntaxError} {p q : Parse α} {f g : α → Parse β}

theorem steady_peek : Steady errs peek peek := fun _ _ => rfl

theorem steady_check (k : Token.Kind) : Steady errs (check k) (check k) := fun _ _ => rfl

theorem steady_checkSecond (k : Token.Kind) : Steady errs (checkSecond k) (checkSecond k) :=
  fun _ _ => rfl

theorem steady_atEnd : Steady errs atEnd atEnd := fun _ _ => rfl

theorem steady_refer (t : Token) : Steady errs (refer t) (refer t) := fun _ _ => rfl

theorem steady_fail (c : Complaint) : Steady errs (fail c : Parse α) (fail c) := fun _ _ => rfl

theorem steady_report (c : Complaint) (t : Token) : Steady errs (report c t) (report c t) :=
  fun s _ => by
  exact congrArg (fun es => (Except.ok (), ({ s with errors := es } : Cursor)))
    (List.append_assoc errs s.errors [⟨c, t⟩])

theorem steady_acceptIf (p : Token.Kind → Bool) : Steady errs (acceptIf p) (acceptIf p) :=
  fun s _ => by
  rcases hs : s.ahead with _ | ⟨t, ts⟩
  · rw [run_acceptIf_nil p hs, run_acceptIf_nil p (show (s.behind errs).ahead = [] from hs)]
  · rw [run_acceptIf_cons p hs, run_acceptIf_cons p (show (s.behind errs).ahead = t :: ts from hs)]
    split <;> rfl

theorem steady_accept (k : Token.Kind) : Steady errs (accept k) (accept k) := steady_acceptIf _

theorem steady_skip : Steady errs skip skip := (steady_acceptIf _).map _

theorem steady_expect (k : Token.Kind) (c : Complaint) : Steady errs (expect k c) (expect k c) := by
  refine (steady_accept k).bind fun o => ?_
  rcases o with _ | t
  · exact steady_fail c
  · exact steady_pure t

theorem steady_limit (c : Complaint) (count : Nat) : Steady errs (limit c count) (limit c count) := by
  unfold limit
  split
  · exact steady_peek.bind fun t => steady_report c t
  · exact steady_pure ()

theorem steady_assignTo (target : Expr) (equals : Token) (value : Expr) :
    Steady errs (assignTo target equals value) (assignTo target equals value) := by
  unfold assignTo
  split
  · exact (steady_refer _).bind fun _ => steady_pure _
  · exact steady_pure _
  · exact (steady_report _ _).bind fun _ => steady_pure _

theorem steady_loopExit (loops : Nat) (e : LoopExit) (keyword : Token) :
    Steady errs (loopExit loops e keyword) (loopExit loops e keyword) := by
  have houtside : Steady errs (complainOutside loops e keyword) (complainOutside loops e keyword) := by
    unfold complainOutside
    split
    · exact steady_report _ _
    · exact steady_pure ()
  exact houtside.bind fun _ => (steady_expect _ _).bind fun _ => steady_pure _

theorem steady_superclassName : Steady errs superclassName superclassName :=
  (steady_expect _ _).bind fun t => steady_refer t

protected theorem Steady.before (k : Token.Kind) (h : Steady errs p q) :
    Steady errs (before k p) (before k q) := by
  refine (steady_check k).bind fun b => ?_
  split
  · exact steady_pure none
  · exact h.map some

protected theorem Steady.behind (k : Token.Kind) (h : Steady errs p q) :
    Steady errs (behind k p) (behind k q) := by
  refine (steady_accept k).bind fun o => ?_
  rcases o with _ | t
  · exact steady_pure none
  · exact h.map some

protected theorem Steady.recovering (h : Steady errs p q) :
    Steady errs (recovering p) (recovering q) := fun s hs => by
  rw [run_recovering] at hs ⊢
  rw [run_recovering, h s fun e => ?_]
  · rcases p.run s with ⟨(e | _) | x, s'⟩
    · exact congrArg (fun es => (Except.ok none, (⟨resume s'.ahead, s'.eof, s'.nextId, es⟩ : Cursor)))
        (List.append_assoc errs s'.errors [e])
    · rfl
    · rfl
  · rcases hrun : p.run s with ⟨o, s'⟩
    rw [hrun] at e hs
    obtain rfl : o = .error .starved := e
    exact hs rfl

end Steps

/-! ## 4. One unit of fuel more -/

variable {errs : List SyntaxError}

theorem parameterNames_steady : ∀ n, Steady errs (parameterNames n) (parameterNames (n + 1))
  | 0 => steady_starve
  | n + 1 => by
    rw [parameterNames, parameterNames]
    refine (steady_expect _ _).bind fun name => (steady_accept _).bind fun o => ?_
    rcases o with _ | t
    · exact steady_pure _
    · exact (parameterNames_steady n).bind fun _ => steady_pure _

theorem parameters_steady (n : Nat) : Steady errs (parameters n) (parameters (n + 1)) :=
  ((parameterNames_steady n).before .rightParen).bind fun _ => (steady_limit _ _).bind fun _ =>
    (steady_expect _ _).bind fun _ => steady_pure _

section Rules

variable {n : Nat}

theorem primary_steady (hcode : ∀ f, Steady errs (code n f) (code (n + 1) f))
    (hexpr : Steady errs (expression n) (expression (n + 1)))
    (hoperand : ∀ l, Steady errs (operand n l) (operand (n + 1) l)) :
    Steady errs (primary (n + 1)) (primary (n + 2)) := by
  rw [primary, primary]
  refine steady_peek.bind fun t => ?_
  cases t.kind with
  | kwFalse | kwTrue | kwNil | number | string => exact steady_skip.bind fun _ => steady_pure _
  | kwThis | identifier =>
    exact steady_skip.bind fun _ => (steady_refer t).bind fun _ => steady_pure _
  | kwSuper =>
    exact steady_skip.bind fun _ => (steady_expect _ _).bind fun _ => (steady_expect _ _).bind
      fun _ => (steady_refer t).bind fun _ => steady_pure _
  | kwFun => exact steady_skip.bind fun _ => (hcode .lambda).bind fun _ => steady_pure _
  | leftParen =>
    exact steady_skip.bind fun _ => hexpr.bind fun _ => (steady_expect _ _).bind fun _ => steady_pure _
  | bangEqual | equalEqual | greater | greaterEqual | less | lessEqual | plus | star | slash =>
    exact steady_skip.bind fun _ => (steady_report _ t).bind fun _ => (hoperand _).bind fun _ =>
      steady_pure _
  | _ => exact steady_fail _

theorem statement_steady {loops : Nat} (hfor : Steady errs (forLoop n loops) (forLoop (n + 1) loops))
    (hif : Steady errs (branch n loops) (branch (n + 1) loops))
    (hret : ∀ t, Steady errs (ret n t) (ret (n + 1) t))
    (hwhile : Steady errs (whileLoop n loops) (whileLoop (n + 1) loops))
    (hblock : Steady errs (blockRest n loops) (blockRest (n + 1) loops))
    (hexpr : Steady errs (exprStatement n) (exprStatement (n + 1))) :
    Steady errs (statement (n + 1) loops) (statement (n + 2) loops) := by
  rw [statement, statement]
  refine steady_peek.bind fun t => ?_
  cases t.kind with
  | kwFor => exact steady_skip.bind fun _ => hfor
  | kwIf => exact steady_skip.bind fun _ => hif
  | kwReturn => exact steady_skip.bind fun _ => hret t
  | kwWhile => exact steady_skip.bind fun _ => hwhile
  | leftBrace => exact steady_skip.bind fun _ => hblock.bind fun _ => steady_pure _
  | kwBreak | kwContinue => exact steady_skip.bind fun _ => steady_loopExit loops _ t
  | _ => exact hexpr

theorem declarationOrFail_steady {loops : Nat}
    (hclass : Steady errs (classDecl n) (classDecl (n + 1)))
    (hfun : Steady errs (funDecl n .function) (funDecl (n + 1) .function))
    (hvar : Steady errs (varDecl n) (varDecl (n + 1)))
    (hstmt : Steady errs (statement n loops) (statement (n + 1) loops)) :
    Steady errs (declarationOrFail (n + 1) loops) (declarationOrFail (n + 2) loops) := by
  rw [declarationOrFail, declarationOrFail]
  refine (steady_accept _).bind fun o => ?_
  rcases o with _ | t
  · refine (steady_check _).bind fun _ => (steady_checkSecond _).bind fun _ => ?_
    split
    · exact (steady_accept _).bind fun _ => hfun.bind fun _ => steady_pure _
    · refine (steady_accept _).bind fun o => ?_
      rcases o with _ | t
      · exact hstmt
      · exact hvar
  · exact hclass

end Rules

/-- **One unit of fuel more changes nothing** where there was enough, whatever was complained of
    before. -/
theorem rule_steady_succ : ∀ n {α : Type} (r : Rule α), Steady errs (r.parse n) (r.parse (n + 1))
  | 0, _, r => by
    cases r with
    | parameters => exact parameters_steady 0
    | _ => exact steady_starve
  | n + 1, _, r => by
    have ih := @rule_steady_succ n
    cases r with
    | expression => exact (ih .assignment).bind fun e => ih (.moreAssignments e)
    | moreAssignments left =>
      refine (steady_accept _).bind fun o => ?_
      rcases o with _ | op
      · exact steady_pure left
      · exact (ih .assignment).bind fun e => ih (.moreAssignments (.binary left op e))
    | assignment =>
      refine (ih .conditional).bind fun target => (steady_acceptIf _).bind fun o => ?_
      rcases o with _ | equals
      · exact steady_pure target
      · exact (ih .assignment).bind fun _ => steady_assignTo target equals _
    | conditional =>
      refine (ih (.operand .or)).bind fun condition => (steady_accept _).bind fun o => ?_
      rcases o with _ | t
      · exact steady_pure condition
      · exact (ih .expression).bind fun yes => (steady_expect _ _).bind fun _ =>
          (ih .conditional).bind fun _ => steady_pure _
    | operand l => exact (ih (.operandWithin l.tighter?)).bind fun e => ih (.moreOperands l e)
    | moreOperands l left =>
      refine (steady_acceptIf _).bind fun o => ?_
      rcases o with _ | op
      · exact steady_pure left
      · exact (ih (.operandWithin l.tighter?)).bind fun e => ih (.moreOperands l (l.join left op e))
    | operandWithin l =>
      rcases l with _ | l
      · exact ih .unary
      · exact ih (.operand l)
    | unary =>
      refine (steady_acceptIf _).bind fun o => ?_
      rcases o with _ | op
      · exact (ih .primary).bind fun e => ih (.moreCalls e)
      · exact (ih .unary).bind fun _ => steady_pure _
    | moreCalls left =>
      refine (steady_accept _).bind fun o => ?_
      rcases o with _ | t
      · refine (steady_accept _).bind fun o => ?_
        rcases o with _ | t
        · exact steady_pure left
        · exact (steady_expect _ _).bind fun name => ih (.moreCalls (.get left name))
      · exact ((ih .arguments).before _).bind fun args => (steady_limit _ _).bind fun _ =>
          (steady_expect _ _).bind fun paren => ih (.moreCalls (.call left paren (args.getD [])))
    | arguments =>
      refine (ih .assignment).bind fun first => (steady_accept _).bind fun o => ?_
      rcases o with _ | t
      · exact steady_pure _
      · exact (ih .arguments).bind fun _ => steady_pure _
    | primary => exact primary_steady (fun f => ih (.code f)) (ih .expression) fun l => ih (.operand l)
    | parameterNames => exact parameterNames_steady (n + 1)
    | parameters => exact parameters_steady (n + 1)
    | code f =>
      exact (steady_expect _ _).bind fun _ => (ih .parameters).bind fun params =>
        (steady_expect _ _).bind fun _ => (ih (.blockRest 0)).bind fun _ => steady_pure _
    | funDecl f =>
      exact (steady_expect _ _).bind fun name => (ih (.code f)).bind fun _ => steady_pure _
    | declaration loops => exact (ih (.declarationOrFail loops)).recovering
    | declarationOrFail loops =>
      exact declarationOrFail_steady (ih .classDecl) (ih (.funDecl .function)) (ih .varDecl)
        (ih (.statement loops))
    | classDecl =>
      exact (steady_expect _ _).bind fun name => (steady_superclassName.behind _).bind fun superclass =>
        (steady_expect _ _).bind fun _ => (ih .methodsRest).bind fun methods =>
          (steady_expect _ _).bind fun _ => steady_pure _
    | methodsRest =>
      refine (steady_check _).bind fun _ => steady_atEnd.bind fun _ => ?_
      split
      · exact steady_pure []
      · exact (ih (.funDecl .method)).bind fun f => (ih .methodsRest).bind fun _ => steady_pure _
    | varDecl =>
      exact (steady_expect _ _).bind fun name => ((ih .expression).behind _).bind fun init =>
        (steady_expect _ _).bind fun _ => steady_pure _
    | statement loops =>
      exact statement_steady (ih (.forLoop loops)) (ih (.branch loops)) (fun t => ih (.ret t))
        (ih (.whileLoop loops)) (ih (.blockRest loops)) (ih .exprStatement)
    | exprStatement =>
      exact (ih .expression).bind fun e => (steady_expect _ _).bind fun _ => steady_pure _
    | forLoop loops =>
      have hbody (l : Nat) : Steady errs (statement n l) (statement (n + 1) l) := ih (.statement l)
      exact (steady_expect _ _).bind fun _ => (ih .forInit).bind fun init =>
        ((ih .expression).before _).bind fun condition => (steady_expect _ _).bind fun _ =>
          ((ih .expression).before _).bind fun increment => (steady_expect _ _).bind fun _ =>
            (hbody (loops + 1)).bind fun _ => steady_pure _
    | forInit =>
      refine (steady_accept _).bind fun o => ?_
      rcases o with _ | t
      · refine (steady_accept _).bind fun o => ?_
        rcases o with _ | t
        · exact (ih .exprStatement).map some
        · exact (ih .varDecl).map some
      · exact steady_pure none
    | whileLoop loops =>
      have hbody (l : Nat) : Steady errs (statement n l) (statement (n + 1) l) := ih (.statement l)
      exact (steady_expect _ _).bind fun _ => (ih .expression).bind fun condition =>
        (steady_expect _ _).bind fun _ => (hbody (loops + 1)).bind fun _ => steady_pure _
    | branch loops =>
      exact (steady_expect _ _).bind fun _ => (ih .expression).bind fun condition =>
        (steady_expect _ _).bind fun _ => (ih (.statement loops)).bind fun yes =>
          ((ih (.statement loops)).behind _).bind fun _ => steady_pure _
    | ret keyword =>
      exact ((ih .expression).before _).bind fun value => (steady_expect _ _).bind fun _ =>
        steady_pure _
    | blockRest loops =>
      exact (ih (.declarations loops)).bind fun body => (steady_expect _ _).bind fun _ => steady_pure _
    | declarations loops =>
      refine (steady_check _).bind fun _ => steady_atEnd.bind fun _ => ?_
      split
      · exact steady_pure []
      · exact (ih (.declaration loops)).bind fun first => (ih (.declarations loops)).bind fun _ =>
          steady_pure _
    | program =>
      refine steady_atEnd.bind fun ended => ?_
      split
      · exact steady_pure []
      · exact (ih (.declaration 0)).bind fun first => (ih .program).bind fun _ => steady_pure _

/-- **More fuel changes nothing** where there was enough. -/
theorem rule_steady {α : Type} (r : Rule α) {n m : Nat} (h : n ≤ m) :
    Steady [] (r.parse n) (r.parse m) := by
  induction h with
  | refl => exact fun _ _ => rfl
  | step _ ih => exact ih.trans (rule_steady_succ _ r)

end Lox.Syntax
