import Lox.Proofs.Grammar.Costs
import Lox.Proofs.Scope.Shapes

/-!
# The form of what a parse builds

Every tree that the parser hands on has the form that scoping and evaluation count on, also where it
complained or recovered on the way: a statement that failed is left out as a whole, and so is the
operand of a stray operator.

* `Node.Formed`: what a node is like, seen from itself alone. `Formed`: so are all of some nodes.
* `Builds ok p`: whatever `p` comes to as a tree is `ok`; of failures nothing is said.
* `rule_builds`: every rule builds formed nodes alone, out of formed nodes; statements that are no
  declarations declare nothing, and a `for` starts with a variable or an expression.
* `parse_formed`: so does the parser, from any tokens.
-/

namespace Lox

/-! ## 1. Nodes -/

/-- A statement that a `for` loop may start with: a variable or an expression. -/
def Stmt.Starts (s : Stmt) : Prop := (∃ name init, s = .varDecl name init) ∨ ∃ e, s = .expr e

/-- **The form of a node**, whatever its parts are like: operators are those of their form, a
    superclass is a variable, a `for` starts with a variable or an expression, and a branch or the
    body of a loop declares no variable, function or class. -/
def Node.Formed : Node → Prop
  | .expr (.unary op _) => op.kind = .bang ∨ op.kind = .minus
  | .expr (.binary _ op _) => joinsOperands op.kind = true
  | .expr (.logical _ op _) => op.kind = .kwAnd ∨ op.kind = .kwOr
  | .stmt (.classDecl _ superclass _) => ∀ ref ∈ superclass, ref.token.kind = .identifier
  | .stmt (.branch _ yes no) => yes.declared? = none ∧ ∀ s ∈ no, s.declared? = none
  | .stmt (.whileLoop _ body) => body.declared? = none
  | .stmt (.forLoop init _ _ body) => (∀ s ∈ init, s.Starts) ∧ body.declared? = none
  | _ => True

/-- All of some nodes have the form of nodes. -/
def Formed (ns : List Node) : Prop := ∀ n ∈ ns, n.Formed

section Lists

variable {n : Node} {ns ms : List Node}

theorem formed_nil : Formed [] := fun _ h => nomatch h

theorem Formed.cons (hn : n.Formed) (h : Formed ns) : Formed (n :: ns) :=
  List.forall_mem_cons.mpr ⟨hn, h⟩

theorem Formed.tail (h : Formed (n :: ns)) : Formed ns := fun m hm => h m (List.mem_cons_of_mem n hm)

theorem Formed.append (h : Formed ns) (h' : Formed ms) : Formed (ns ++ ms) :=
  List.forall_mem_append.mpr ⟨h, h'⟩

theorem formed_single (hn : n.Formed) : Formed [n] := formed_nil.cons hn

end Lists

namespace Syntax

theorem Formed.option {α : Type} {nodes : α → List Node} {o : Option α}
    (h : ∀ x ∈ o, Formed (nodes x)) : Formed (optionNodes nodes o) := by
  cases o with
  | none => exact formed_nil
  | some x => exact h x rfl

/-- A literal stands for a missing expression. -/
theorem getD_formed {o : Option Expr} {l : Literal} (h : ∀ e ∈ o, Formed e.nodes) :
    Formed (o.getD (.literal l)).nodes := by
  cases o with
  | none => exact formed_single trivial
  | some e => exact h e rfl

theorem kwOr_of_has {k : Token.Kind} (h : Level.or.has k = true) : k = .kwOr := by
  cases k <;> first | rfl | cases h

theorem kwAnd_of_has {k : Token.Kind} (h : Level.and.has k = true) : k = .kwAnd := by
  cases k <;> first | rfl | cases h

/-- Operands joined by an operator of their level. -/
theorem Level.join_formed {l : Level} {left right : Expr} {op : Token} (hop : l.has op.kind = true)
    (hleft : Formed left.nodes) (hright : Formed right.nodes) :
    Formed (l.join left op right).nodes := by
  have hparts := hleft.append hright
  have logical (hk : op.kind = .kwAnd ∨ op.kind = .kwOr) : Formed (Expr.logical left op right).nodes :=
    hparts.cons hk
  have binary (hk : joinsOperands op.kind = true) : Formed (Expr.binary left op right).nodes :=
    hparts.cons hk
  cases l with
  | or => exact logical (.inr (kwOr_of_has hop))
  | and => exact logical (.inl (kwAnd_of_has hop))
  | equality | comparison | term | factor =>
    refine binary ?_
    rcases joinsOperands_of_has hop with h | h | h
    · cases h
    · cases h
    · exact h

/-- The operator inside `+=` and its like joins operands. -/
theorem assignedValue_formed {target value : Expr} {equals : Token} (ht : Formed target.nodes)
    (hv : Formed value.nodes) : Formed (assignedValue target equals value).nodes := by
  unfold assignedValue
  split
  · next op hop =>
    refine (ht.append hv).cons ?_
    unfold innerOperator? at hop
    show joinsOperands op.kind = true
    split at hop <;> cases hop <;> rfl
  · exact hv

/-! ## 2. Building -/

/-- **Whatever `p` comes to as a tree is `ok`.** -/
def Builds {α : Type} (ok : α → Prop) (p : Parse α) : Prop := ∀ s x t, p.run s = (.ok x, t) → ok x

section Logic

variable {α β : Type} {ok ok' : α → Prop} {ok₂ : β → Prop} {p : Parse α} {f : α → Parse β}

theorem builds_any : Builds (fun _ => True) p := fun _ _ _ _ => trivial

theorem builds_pure {x : α} (h : ok x) : Builds ok (pure x) := fun _ _ _ hrun => by
  cases hrun
  exact h

theorem builds_starve : Builds ok starve := fun _ _ _ h => nomatch h

theorem builds_fail (c : Complaint) : Builds ok (fail c) := fun s x t h => by
  obtain ⟨e, he⟩ := run_fail (α := α) (s := s) c
  rw [he] at h
  cases h

/-- **A rule, then the rest**, which may count on what the rule built. -/
protected theorem Builds.bind (hp : Builds ok p) (hf : ∀ x, ok x → Builds ok₂ (f x)) :
    Builds ok₂ (p >>= f) := fun s y u h => by
  rw [run_bind] at h
  rcases hrun : p.run s with ⟨e | x, t⟩ <;> rw [hrun] at h
  · cases h
  · exact hf x (hp s x t hrun) t y u h

/-- A step of which nothing is said, then the rest. -/
theorem builds_then (hf : ∀ x, Builds ok₂ (f x)) : Builds ok₂ (p >>= f) :=
  builds_any.bind fun x _ => hf x

protected theorem Builds.mono (h : Builds ok p) (himp : ∀ x, ok x → ok' x) : Builds ok' p :=
  fun s x t hrun => himp x (h s x t hrun)

protected theorem Builds.map {g : α → β} (h : Builds ok p) (hg : ∀ x, ok x → ok₂ (g x)) :
    Builds ok₂ (g <$> p) := by
  rw [← bind_pure_comp]
  exact h.bind fun x hx => builds_pure (hg x hx)

end Logic

section Steps

variable {α : Type} {ok : α → Prop} {p : Parse α} {k : Token.Kind}

theorem builds_acceptIf (q : Token.Kind → Bool) :
    Builds (fun o => ∀ t ∈ o, q t.kind = true) (acceptIf q) := fun s o t h => by
  rcases hahead : s.ahead with _ | ⟨u, rest⟩
  · rw [run_acceptIf_nil q hahead] at h
    cases h
    exact fun _ hu => nomatch hu
  · rw [run_acceptIf_cons q hahead] at h
    split at h <;> cases h
    · next hq =>
      intro v hv
      cases hv
      exact hq
    · exact fun _ hu => nomatch hu

theorem builds_accept (k : Token.Kind) : Builds (fun o => ∀ t ∈ o, t.kind = k) (accept k) :=
  (builds_acceptIf _).mono fun _ h t ht => of_decide_eq_true (h t ht)

theorem builds_expect (k : Token.Kind) (c : Complaint) : Builds (fun t => t.kind = k) (expect k c) := by
  refine (builds_accept k).bind fun o ho => ?_
  rcases o with _ | t
  · exact builds_fail c
  · exact builds_pure (ho t rfl)

theorem builds_refer (t : Token) : Builds (fun ref => ref.token = t) (refer t) := fun _ _ _ h => by
  cases h
  rfl

/-- A part that may be missing is `ok` where it is there. -/
theorem builds_none : Builds (fun o => ∀ x ∈ o, ok x) (pure none) := builds_pure fun _ h => nomatch h

protected theorem Builds.some (h : Builds ok p) : Builds (fun o => ∀ x ∈ o, ok x) (some <$> p) :=
  h.map fun _ hx _ hy => Option.some.inj hy ▸ hx

protected theorem Builds.before (k : Token.Kind) (h : Builds ok p) :
    Builds (fun o => ∀ x ∈ o, ok x) (before k p) := by
  refine builds_then fun b => ?_
  split
  · exact builds_none
  · exact h.some

protected theorem Builds.behind (k : Token.Kind) (h : Builds ok p) :
    Builds (fun o => ∀ x ∈ o, ok x) (behind k p) := by
  refine builds_then fun o => ?_
  rcases o with _ | t
  · exact builds_none
  · exact h.some

/-- What failed leaves nothing behind. -/
protected theorem Builds.recovering (h : Builds ok p) :
    Builds (fun o => ∀ x ∈ o, ok x) (recovering p) := fun s o u hrun => by
  rw [run_recovering] at hrun
  rcases hp : p.run s with ⟨(e | _) | x, t⟩ <;> rw [hp] at hrun <;> cases hrun
  · exact fun _ hx => nomatch hx
  · intro y hy
    cases hy
    exact h s x u hp

theorem builds_assignTo {target value : Expr} {equals : Token} (ht : Formed target.nodes)
    (hv : Formed value.nodes) : Builds (fun e => Formed e.nodes) (assignTo target equals value) := by
  unfold assignTo
  split
  · exact builds_then fun _ => builds_pure (hv.cons trivial)
  · exact builds_pure ((ht.tail.append hv).cons trivial)
  · exact builds_then fun _ => builds_pure ht

end Steps

/-! ## 3. Every rule -/

/-- A formed statement that declares nothing. -/
def Plainly (s : Stmt) : Prop := Formed s.nodes ∧ s.declared? = none

/-- What a rule is told is formed. -/
def Rule.Told {α : Type} : Rule α → Prop
  | .moreAssignments left | .moreOperands _ left | .moreCalls left => Formed left.nodes
  | _ => True

/-- **What a rule builds is formed**, and of the statements only declarations declare. -/
def Rule.Formed {α : Type} : Rule α → α → Prop
  | .statement _ | .forLoop _ | .whileLoop _ | .branch _ | .ret _ => Plainly
  | .exprStatement => fun s => Plainly s ∧ s.Starts
  | .varDecl => fun s => Lox.Formed s.nodes ∧ s.Starts
  | .forInit => fun o => ∀ s ∈ o, Lox.Formed s.nodes ∧ s.Starts
  | r => fun x => Lox.Formed (r.nodes x)

theorem loopExit_builds (loops : Nat) (e : LoopExit) (keyword : Token) :
    Builds Plainly (loopExit loops e keyword) :=
  builds_then fun _ => builds_then fun _ => builds_pure <| by
    cases e <;> exact ⟨formed_single trivial, rfl⟩

theorem superclassName_builds : Builds (fun ref => ref.token.kind = .identifier) superclassName :=
  (builds_expect _ _).bind fun _ ht => (builds_refer _).mono fun _ href => href ▸ ht

section Rules

variable {n : Nat}

theorem primary_builds (hcode : ∀ f, Builds (fun c => Formed c.nodes) (code n f))
    (hexpr : Builds (fun e => Formed e.nodes) (expression n)) :
    Builds (fun e => Formed e.nodes) (primary (n + 1)) := by
  rw [primary]
  refine builds_then fun t => ?_
  cases t.kind with
  | kwFalse | kwTrue | kwNil | number | string =>
    exact builds_then fun _ => builds_pure (formed_single trivial)
  | kwThis | identifier =>
    exact builds_then fun _ => builds_then fun _ => builds_pure (formed_single trivial)
  | kwSuper =>
    exact builds_then fun _ => builds_then fun _ => builds_then fun _ => builds_then fun _ =>
      builds_pure (formed_single trivial)
  | kwFun => exact builds_then fun _ => (hcode .lambda).bind fun _ hc => builds_pure (hc.cons trivial)
  | leftParen =>
    exact builds_then fun _ => hexpr.bind fun _ he => builds_then fun _ =>
      builds_pure (he.cons trivial)
  | bangEqual | equalEqual | greater | greaterEqual | less | lessEqual | plus | star | slash =>
    -- what the operand of a stray operator is like does not matter, since it is dropped
    exact builds_then fun _ => builds_then fun _ => builds_then fun _ =>
      builds_pure (formed_single trivial)
  | _ => exact builds_fail _

theorem statement_builds {loops : Nat} (hfor : Builds Plainly (forLoop n loops))
    (hif : Builds Plainly (branch n loops)) (hret : ∀ t, Builds Plainly (ret n t))
    (hwhile : Builds Plainly (whileLoop n loops))
    (hblock : Builds (fun ss => Formed (stmtsNodes ss)) (blockRest n loops))
    (hexpr : Builds Plainly (exprStatement n)) : Builds Plainly (statement (n + 1) loops) := by
  rw [statement]
  refine builds_then fun t => ?_
  cases t.kind with
  | kwFor => exact builds_then fun _ => hfor
  | kwIf => exact builds_then fun _ => hif
  | kwReturn => exact builds_then fun _ => hret t
  | kwWhile => exact builds_then fun _ => hwhile
  | leftBrace =>
    exact builds_then fun _ => hblock.bind fun _ hb => builds_pure ⟨hb.cons trivial, rfl⟩
  | kwBreak | kwContinue => exact builds_then fun _ => loopExit_builds loops _ t
  | _ => exact hexpr

theorem declarationOrFail_builds {loops : Nat} (hclass : Builds (fun s => Formed s.nodes) (classDecl n))
    (hfun : Builds (fun f => Formed f.nodes) (funDecl n .function))
    (hvar : Builds (fun s => Formed s.nodes) (varDecl n))
    (hstmt : Builds (fun s => Formed s.nodes) (statement n loops)) :
    Builds (fun s => Formed s.nodes) (declarationOrFail (n + 1) loops) := by
  rw [declarationOrFail]
  refine builds_then fun o => ?_
  rcases o with _ | t
  · refine builds_then fun _ => builds_then fun _ => ?_
    split
    · refine builds_then fun _ => hfun.bind fun f hf => builds_pure ?_
      rw [nodes_funDecl]
      exact hf.cons trivial
    · refine builds_then fun o => ?_
      rcases o with _ | t
      · exact hstmt
      · exact hvar
  · exact hclass

end Rules

/-- Some statement, if it could be read, and those behind it. -/
theorem formed_statements {o : Option Stmt} {rest : List Stmt}
    (h : Formed (optionNodes Stmt.nodes o)) (h' : Formed (stmtsNodes rest)) :
    Formed (stmtsNodes (o.toList ++ rest)) := by
  rw [stmtsNodes_append, stmtsNodes_toList, ← optionNodes_stmt]
  exact h.append h'

/-- **Every rule builds what is formed**, out of what is formed. -/
theorem rule_builds : ∀ n {α : Type} (r : Rule α), r.Told → Builds r.Formed (r.parse n)
  | 0, _, r => fun _ => by
    cases r with
    | parameters => exact fun _ _ _ _ => formed_nil
    | _ => exact builds_starve
  | n + 1, _, r => fun htold => by
    have ih := @rule_builds n
    have expression : Builds (fun e => Formed e.nodes) (expression n) := ih .expression trivial
    have assignment : Builds (fun e => Formed e.nodes) (assignment n) := ih .assignment trivial
    have within (l : Option Level) : Builds (fun e => Formed e.nodes) (operandWithin n l) :=
      ih (.operandWithin l) trivial
    have statement (l : Nat) : Builds Plainly (statement n l) := ih (.statement l) trivial
    have varDecl : Builds (fun s => Formed s.nodes ∧ s.Starts) (varDecl n) := ih .varDecl trivial
    have exprStatement : Builds (fun s => Plainly s ∧ s.Starts) (exprStatement n) :=
      ih .exprStatement trivial
    cases r with
    | expression => exact assignment.bind fun e he => ih (.moreAssignments e) he
    | moreAssignments left =>
      refine (builds_accept _).bind fun o ho => ?_
      rcases o with _ | op
      · exact builds_pure htold
      · refine assignment.bind fun e he => ih (.moreAssignments (.binary left op e)) ?_
        have hop : joinsOperands op.kind = true := by rw [ho op rfl]; rfl
        exact (Lox.Formed.append htold he).cons hop
    | assignment =>
      refine Builds.bind (ih .conditional trivial) fun target ht => builds_then fun o => ?_
      rcases o with _ | equals
      · exact builds_pure ht
      · exact assignment.bind fun _ hv => builds_assignTo ht (assignedValue_formed ht hv)
    | conditional =>
      refine Builds.bind (ih (.operand .or) trivial) fun condition hc => builds_then fun o => ?_
      rcases o with _ | t
      · exact builds_pure hc
      · exact expression.bind fun yes hyes => builds_then fun _ =>
          Builds.bind (ih .conditional trivial) fun no hno =>
            builds_pure (((hc.append hyes).append hno).cons trivial)
    | operand l => exact (within l.tighter?).bind fun e he => ih (.moreOperands l e) he
    | moreOperands l left =>
      refine (builds_acceptIf _).bind fun o ho => ?_
      rcases o with _ | op
      · exact builds_pure htold
      · exact (within l.tighter?).bind fun e he =>
          ih (.moreOperands l (l.join left op e)) (l.join_formed (ho op rfl) htold he)
    | operandWithin l =>
      rcases l with _ | l
      · exact ih .unary trivial
      · exact ih (.operand l) trivial
    | unary =>
      refine (builds_acceptIf _).bind fun o ho => ?_
      rcases o with _ | op
      · exact Builds.bind (ih .primary trivial) fun e he => ih (.moreCalls e) he
      · have hop : op.kind = .bang ∨ op.kind = .minus := by simpa using ho op rfl
        exact Builds.bind (ih .unary trivial) fun _ he => builds_pure (he.cons hop)
    | moreCalls left =>
      refine builds_then fun o => ?_
      rcases o with _ | t
      · refine builds_then fun o => ?_
        rcases o with _ | t
        · exact builds_pure htold
        · exact builds_then fun name =>
            ih (.moreCalls (.get left name)) (Lox.Formed.cons trivial htold)
      · refine (Builds.before _ (ih .arguments trivial)).bind fun args hargs => builds_then fun _ =>
          builds_then fun paren => ih (.moreCalls (.call left paren (args.getD []))) ?_
        have hall : Formed (exprsNodes (args.getD [])) := by
          cases args with
          | none => exact formed_nil
          | some es => exact hargs es rfl
        exact (Lox.Formed.append htold hall).cons trivial
    | arguments =>
      refine assignment.bind fun first hfirst => builds_then fun o => ?_
      rcases o with _ | t
      · exact builds_pure (hfirst.append formed_nil)
      · exact Builds.bind (ih .arguments trivial) fun _ hrest => builds_pure (hfirst.append hrest)
    | primary => exact primary_builds (fun f => ih (.code f) trivial) expression
    | parameterNames | parameters => exact fun _ _ _ _ => formed_nil
    | code f =>
      exact builds_then fun _ => builds_then fun _ => builds_then fun _ =>
        Builds.bind (ih (.blockRest 0) trivial) fun _ hbody => builds_pure hbody
    | funDecl f =>
      exact builds_then fun _ => Builds.bind (ih (.code f) trivial) fun _ hc => builds_pure hc
    | declaration loops =>
      exact (Builds.recovering (ih (.declarationOrFail loops) trivial)).mono fun _ h => Formed.option h
    | declarationOrFail loops =>
      exact declarationOrFail_builds (ih .classDecl trivial) (ih (.funDecl .function) trivial)
        (varDecl.mono fun _ h => h.1) ((statement loops).mono fun _ h => h.1)
    | classDecl =>
      refine builds_then fun _ => (superclassName_builds.behind _).bind fun superclass hsuper =>
        builds_then fun _ => Builds.bind (ih .methodsRest trivial) fun methods hmethods =>
          builds_then fun _ => builds_pure ?_
      refine (Lox.Formed.append (fun m hm => ?_) hmethods).cons hsuper
      obtain ⟨ref, -, rfl⟩ := List.mem_map.mp hm
      trivial
    | methodsRest =>
      refine builds_then fun _ => builds_then fun _ => ?_
      split
      · exact builds_pure formed_nil
      · refine Builds.bind (ih (.funDecl .method) trivial) fun f hf =>
          Builds.bind (ih .methodsRest trivial) fun rest hrest => builds_pure ?_
        show Formed (funDeclsNodes (f :: rest))
        rw [funDeclsNodes_cons]
        exact Lox.Formed.append hf hrest
    | varDecl =>
      exact builds_then fun name => (expression.behind _).bind fun init hinit => builds_then fun _ =>
        builds_pure ⟨(getD_formed hinit).cons trivial, .inl ⟨name, _, rfl⟩⟩
    | statement loops =>
      exact statement_builds (ih (.forLoop loops) trivial) (ih (.branch loops) trivial)
        (fun t => ih (.ret t) trivial) (ih (.whileLoop loops) trivial) (ih (.blockRest loops) trivial)
        (exprStatement.mono fun _ h => h.1)
    | exprStatement =>
      exact expression.bind fun e he => builds_then fun _ =>
        builds_pure ⟨⟨he.cons trivial, rfl⟩, .inr ⟨e, rfl⟩⟩
    | forLoop loops =>
      refine builds_then fun _ => Builds.bind (ih .forInit trivial) fun init hinit =>
        (expression.before _).bind fun condition hcondition => builds_then fun _ =>
          (expression.before _).bind fun increment hincrement => builds_then fun _ =>
            (statement (loops + 1)).bind fun body hbody => builds_pure ⟨?_, rfl⟩
      have hstart : Formed (optionStmtNodes init) := by
        rw [← optionNodes_stmt]
        exact Formed.option fun s hs => (hinit s hs).1
      have hstep : Formed (optionExprNodes increment) := by
        rw [← optionNodes_expr]
        exact Formed.option hincrement
      exact (((hstart.append (getD_formed hcondition)).append hstep).append hbody.1).cons
        ⟨fun s hs => (hinit s hs).2, hbody.2⟩
    | forInit =>
      refine builds_then fun o => ?_
      rcases o with _ | t
      · refine builds_then fun o => ?_
        rcases o with _ | t
        · exact (exprStatement.mono fun _ h => ⟨h.1.1, h.2⟩).some
        · exact varDecl.some
      · exact builds_none
    | whileLoop loops =>
      exact builds_then fun _ => expression.bind fun condition hcondition => builds_then fun _ =>
        (statement (loops + 1)).bind fun _ hbody =>
          builds_pure ⟨(hcondition.append hbody.1).cons hbody.2, rfl⟩
    | branch loops =>
      refine builds_then fun _ => expression.bind fun condition hcondition => builds_then fun _ =>
        (statement loops).bind fun yes hyes => ((statement loops).behind _).bind fun no hno =>
          builds_pure ⟨?_, rfl⟩
      have helse : Formed (optionStmtNodes no) := by
        rw [← optionNodes_stmt]
        exact Formed.option fun s hs => (hno s hs).1
      exact ((hcondition.append hyes.1).append helse).cons ⟨hyes.2, fun s hs => (hno s hs).2⟩
    | ret keyword =>
      refine (expression.before _).bind fun value hvalue => builds_then fun _ => builds_pure ⟨?_, rfl⟩
      have hall : Formed (optionExprNodes value) := by
        rw [← optionNodes_expr]
        exact Formed.option hvalue
      exact hall.cons trivial
    | blockRest loops =>
      exact Builds.bind (ih (.declarations loops) trivial) fun _ hbody => builds_then fun _ =>
        builds_pure hbody
    | declarations loops =>
      refine builds_then fun _ => builds_then fun _ => ?_
      split
      · exact builds_pure formed_nil
      · exact Builds.bind (ih (.declaration loops) trivial) fun _ hfirst =>
          Builds.bind (ih (.declarations loops) trivial) fun _ hrest =>
            builds_pure (formed_statements hfirst hrest)
    | program =>
      refine builds_then fun _ => ?_
      split
      · exact builds_pure formed_nil
      · exact Builds.bind (ih (.declaration 0) trivial) fun _ hfirst =>
          Builds.bind (ih .program trivial) fun _ hrest =>
            builds_pure (formed_statements hfirst hrest)

/-! ## 4. The whole parse -/

/-- **What a parse builds is formed**, at every depth: whatever the tokens are, and whether or not there
    were complaints. -/
theorem parse_formed (tokens : List Token) (nextId : Nat) :
    ∀ n ∈ stmtsNodes (parse tokens nextId).statements, n.Formed := by
  have hbuilds := rule_builds (fuelFor tokens.length) .program trivial
  show Formed _
  unfold parse
  rcases hrun : (program (fuelFor tokens.length)).run (Cursor.ofTokens tokens nextId)
    with ⟨e | statements, last⟩
  · exact formed_nil
  · exact hbuilds _ statements last hrun

/-- `var; while (nil) *a, -a;`, with a statement that is left out and an operand that is dropped. -/
theorem parse_formed_recovered :
    let word (k : Token.Kind) (w : String) : Token := ⟨k, w, ⟨1, 0⟩⟩
    let a := word .identifier "a"
    let comma := word .comma ","
    let minus := word .minus "-"
    let semicolon := word .semicolon ";"
    let tokens : List Token :=
      [word .kwVar "var", semicolon, word .kwWhile "while", word .leftParen "(", word .kwNil "nil",
        word .rightParen ")", word .star "*", a, comma, minus, a, semicolon]
    let pair : Expr := .binary (.literal .nil) comma (.unary minus (.read ⟨⟨1⟩, a⟩))
    parse tokens 0 = ⟨[.whileLoop (.literal .nil) (.expr pair)],
      [⟨.variableName, semicolon⟩, ⟨.missingLeft, word .star "*"⟩], 2⟩ ∧
    .expr pair ∈ stmtsNodes (parse tokens 0).statements ∧ (Node.expr pair).Formed := by
  intro word a comma minus semicolon tokens pair
  have hparse : parse tokens 0 = ⟨[.whileLoop (.literal .nil) (.expr pair)],
      [⟨.variableName, semicolon⟩, ⟨.missingLeft, word .star "*"⟩], 2⟩ := by cbv
  have hmem : Node.expr pair ∈ stmtsNodes (parse tokens 0).statements := by
    rw [hparse]
    simp [stmtsNodes, Stmt.nodes, pair, Expr.nodes]
  exact ⟨hparse, hmem, parse_formed tokens 0 _ hmem⟩

end Syntax

end Lox
