import Lox.Proofs.Grammar.Fuel

/-!
# Where the tokens of a parse come from

The parser makes no token up but the operator inside `+=` and its like, and that one stands where the
`+=` does. So what a tree says of places is about the tokens that were parsed.

* `Expr.Drawn ts`: all tokens of an expression are among `ts`, but for such operators.
* `Draws ts ok p`: with tokens of `ts` ahead, `p` complains about tokens of `ts` alone, and what it
  builds is `ok`.
* `rule_draws`: so does every rule, with a drawn tree; `parse_drawn`: so does the parser.
-/

namespace Lox

/-! ## 1. Trees -/

/-- A token, or the operator inside a token that assigns. -/
def OperatorOf (ts : List Token) (op : Token) : Prop :=
  op ∈ ts ∨ ∃ equals ∈ ts, Syntax.innerOperator? equals = some op

mutual

/-- **The tokens of an expression** are among `ts`, or operators inside tokens of `ts`. -/
def Expr.Drawn (ts : List Token) : Expr → Prop
  | .literal _ => True
  | .group inner => inner.Drawn ts
  | .unary op operand => op ∈ ts ∧ operand.Drawn ts
  | .binary left op right => left.Drawn ts ∧ OperatorOf ts op ∧ right.Drawn ts
  | .logical left op right => left.Drawn ts ∧ op ∈ ts ∧ right.Drawn ts
  | .conditional condition yes no => condition.Drawn ts ∧ yes.Drawn ts ∧ no.Drawn ts
  | .read ref => ref.token ∈ ts
  | .assign ref value => ref.token ∈ ts ∧ value.Drawn ts
  | .call callee paren args => callee.Drawn ts ∧ paren ∈ ts ∧ exprsDrawn ts args
  | .get object name => object.Drawn ts ∧ name ∈ ts
  | .set object name value => object.Drawn ts ∧ name ∈ ts ∧ value.Drawn ts
  | .this ref => ref.token ∈ ts
  | .super ref method => ref.token ∈ ts ∧ method ∈ ts
  | .lambda code => code.Drawn ts

/-- The tokens of expressions. -/
def exprsDrawn (ts : List Token) : List Expr → Prop
  | [] => True
  | e :: rest => e.Drawn ts ∧ exprsDrawn ts rest

/-- The tokens of an expression that may be missing. -/
def optionExprDrawn (ts : List Token) : Option Expr → Prop
  | none => True
  | some e => e.Drawn ts

/-- The tokens of a function. -/
def Code.Drawn (ts : List Token) : Code → Prop
  | .mk params body => (∀ t ∈ params, t ∈ ts) ∧ stmtsDrawn ts body

/-- The tokens of functions with names. -/
def funDeclsDrawn (ts : List Token) : List FunDecl → Prop
  | [] => True
  | .mk name code :: rest => name ∈ ts ∧ code.Drawn ts ∧ funDeclsDrawn ts rest

/-- The tokens of a statement. -/
def Stmt.Drawn (ts : List Token) : Stmt → Prop
  | .expr e => e.Drawn ts
  | .varDecl name init => name ∈ ts ∧ init.Drawn ts
  | .funDecl (.mk name code) => name ∈ ts ∧ code.Drawn ts
  | .classDecl name superclass methods =>
    name ∈ ts ∧ (∀ ref ∈ superclass, ref.token ∈ ts) ∧ funDeclsDrawn ts methods
  | .branch condition yes no => condition.Drawn ts ∧ yes.Drawn ts ∧ optionStmtDrawn ts no
  | .whileLoop condition body => condition.Drawn ts ∧ body.Drawn ts
  | .forLoop init condition increment body =>
    optionStmtDrawn ts init ∧ condition.Drawn ts ∧ optionExprDrawn ts increment ∧ body.Drawn ts
  | .block body => stmtsDrawn ts body
  | .ret keyword value => keyword ∈ ts ∧ optionExprDrawn ts value
  | .leave keyword => keyword ∈ ts
  | .next keyword => keyword ∈ ts

/-- The tokens of statements. -/
def stmtsDrawn (ts : List Token) : List Stmt → Prop
  | [] => True
  | s :: rest => s.Drawn ts ∧ stmtsDrawn ts rest

/-- The tokens of a statement that may be missing. -/
def optionStmtDrawn (ts : List Token) : Option Stmt → Prop
  | none => True
  | some s => s.Drawn ts

end

/-- The tokens of a function with a name. -/
def FunDecl.Drawn (ts : List Token) (f : FunDecl) : Prop := f.name ∈ ts ∧ f.code.Drawn ts

section Lists

variable {ts : List Token}

theorem exprsDrawn_iff {es : List Expr} : exprsDrawn ts es ↔ ∀ e ∈ es, e.Drawn ts := by
  induction es with
  | nil => simp [exprsDrawn]
  | cons e rest ih => rw [exprsDrawn, ih, List.forall_mem_cons]

theorem stmtsDrawn_iff {ss : List Stmt} : stmtsDrawn ts ss ↔ ∀ s ∈ ss, s.Drawn ts := by
  induction ss with
  | nil => simp [stmtsDrawn]
  | cons s rest ih => rw [stmtsDrawn, ih, List.forall_mem_cons]

theorem funDeclsDrawn_iff {fs : List FunDecl} : funDeclsDrawn ts fs ↔ ∀ f ∈ fs, f.Drawn ts := by
  induction fs with
  | nil => simp [funDeclsDrawn]
  | cons f rest ih =>
    obtain ⟨name, code⟩ := f
    rw [funDeclsDrawn, ih, List.forall_mem_cons, ← and_assoc]
    rfl

theorem optionExprDrawn_iff {o : Option Expr} : optionExprDrawn ts o ↔ ∀ e ∈ o, e.Drawn ts := by
  cases o <;> simp [optionExprDrawn]

theorem optionStmtDrawn_iff {o : Option Stmt} : optionStmtDrawn ts o ↔ ∀ s ∈ o, s.Drawn ts := by
  cases o <;> simp [optionStmtDrawn]

theorem getD_drawn {o : Option Expr} {l : Literal} (h : ∀ e ∈ o, e.Drawn ts) :
    (o.getD (.literal l)).Drawn ts := by
  cases o with
  | none => trivial
  | some e => exact h e rfl

end Lists

namespace Syntax

variable {ts : List Token}

theorem Level.join_drawn (l : Level) {left right : Expr} {op : Token} (hl : left.Drawn ts)
    (hop : op ∈ ts) (hr : right.Drawn ts) : (l.join left op right).Drawn ts := by
  cases l with
  | or | and => exact ⟨hl, hop, hr⟩
  | equality | comparison | term | factor => exact ⟨hl, .inl hop, hr⟩

theorem assignedValue_drawn {target value : Expr} {equals : Token} (ht : target.Drawn ts)
    (hop : equals ∈ ts) (hv : value.Drawn ts) : (assignedValue target equals value).Drawn ts := by
  unfold assignedValue
  split
  · next op hinner => exact ⟨ht, .inr ⟨equals, hop, hinner⟩, hv⟩
  · exact hv

/-! ## 2. Drawing -/

/-- All that a cursor holds is among `ts`. -/
structure Cursor.Within (ts : List Token) (s : Cursor) : Prop where
  ahead : ∀ t ∈ s.ahead, t ∈ ts
  eof : s.eof ∈ ts
  errors : ∀ e ∈ s.errors, e.token ∈ ts

/-- An outcome that says nothing of tokens but those of `ts`. -/
inductive Drawing {α : Type} (ts : List Token) (ok : α → Prop) : Except Failure α × Cursor → Prop
  | ok {x s} (hs : s.Within ts) (hx : ok x) : Drawing ts ok (.ok x, s)
  | error {e s} (hs : s.Within ts) (he : e.token ∈ ts) : Drawing ts ok (.error (.error e), s)
  | starved {s} (hs : s.Within ts) : Drawing ts ok (.error .starved, s)

/-- **With tokens of `ts` ahead**, `p` complains about tokens of `ts`, and what it builds is `ok`. -/
def Draws {α : Type} (ts : List Token) (ok : α → Prop) (p : Parse α) : Prop :=
  ∀ s, s.Within ts → Drawing ts ok (p.run s)

section Logic

variable {α β : Type} {ok : α → Prop} {ok' : β → Prop} {p : Parse α} {f : α → Parse β}

theorem Cursor.Within.front {s : Cursor} (h : s.Within ts) : s.front ∈ ts := by
  unfold Cursor.front
  cases hs : s.ahead with
  | nil => exact h.eof
  | cons t rest => exact h.ahead t (by rw [hs]; exact List.mem_cons_self)

/-- A complaint about a token of `ts`. -/
theorem Cursor.Within.complain {s : Cursor} (h : s.Within ts) {e : SyntaxError} (he : e.token ∈ ts) :
    ∀ e' ∈ s.errors ++ [e], e'.token ∈ ts :=
  List.forall_mem_append.mpr ⟨h.errors, List.forall_mem_singleton.mpr he⟩

theorem draws_starve : Draws ts ok starve := fun _ hs => .starved hs

theorem draws_pure {x : α} (h : ok x) : Draws ts ok (pure x) := fun _ hs => .ok hs h

/-- **A rule, then the rest**, which may count on what the rule built. -/
protected theorem Draws.bind (hp : Draws ts ok p) (hf : ∀ x, ok x → Draws ts ok' (f x)) :
    Draws ts ok' (p >>= f) := fun s hs => by
  rw [run_bind]
  have h := hp s hs
  generalize p.run s = r at h
  cases h with
  | ok hs hx => exact hf _ hx _ hs
  | error hs he => exact .error hs he
  | starved hs => exact .starved hs

protected theorem Draws.mono {ok₂ : α → Prop} (h : Draws ts ok p) (himp : ∀ x, ok x → ok₂ x) :
    Draws ts ok₂ p := fun s hs => by
  have h := h s hs
  generalize p.run s = r at h
  cases h with
  | ok hs hx => exact .ok hs (himp _ hx)
  | error hs he => exact .error hs he
  | starved hs => exact .starved hs

protected theorem Draws.map {g : α → β} (h : Draws ts ok p) (hg : ∀ x, ok x → ok' (g x)) :
    Draws ts ok' (g <$> p) := by
  rw [← bind_pure_comp]
  exact h.bind fun x hx => draws_pure (hg x hx)

end Logic

section Steps

variable {α : Type} {ok : α → Prop} {p : Parse α} {k : Token.Kind}

theorem draws_peek : Draws ts (· ∈ ts) peek := fun _ hs => .ok hs hs.front

theorem draws_check (k : Token.Kind) : Draws ts (fun _ => True) (check k) := fun _ hs => .ok hs trivial

theorem draws_checkSecond (k : Token.Kind) : Draws ts (fun _ => True) (checkSecond k) :=
  fun _ hs => .ok hs trivial

theorem draws_atEnd : Draws ts (fun _ => True) atEnd := fun _ hs => .ok hs trivial

theorem draws_refer (t : Token) : Draws ts (fun ref => ref.token = t) (refer t) :=
  fun _ hs => .ok ⟨hs.ahead, hs.eof, hs.errors⟩ rfl

theorem draws_fail (c : Complaint) : Draws ts ok (fail c) := fun _ hs => .error hs hs.front

theorem draws_report (c : Complaint) {t : Token} (ht : t ∈ ts) :
    Draws ts (fun _ => True) (report c t) :=
  fun _ hs => .ok ⟨hs.ahead, hs.eof, hs.complain ht⟩ trivial

theorem draws_acceptIf (q : Token.Kind → Bool) : Draws ts (fun o => ∀ t ∈ o, t ∈ ts) (acceptIf q) :=
  fun s hs => by
  rcases hahead : s.ahead with _ | ⟨t, rest⟩
  · rw [run_acceptIf_nil q hahead]
    exact .ok hs fun _ h => nomatch h
  · have hall := hs.ahead
    rw [hahead, List.forall_mem_cons] at hall
    rw [run_acceptIf_cons q hahead]
    split
    · refine .ok ⟨hall.2, hs.eof, hs.errors⟩ fun u hu => ?_
      cases hu
      exact hall.1
    · exact .ok hs fun _ h => nomatch h

theorem draws_accept (k : Token.Kind) : Draws ts (fun o => ∀ t ∈ o, t ∈ ts) (accept k) :=
  draws_acceptIf _

theorem draws_skip : Draws ts (fun _ => True) skip := (draws_acceptIf _).map fun _ _ => trivial

theorem draws_expect (k : Token.Kind) (c : Complaint) : Draws ts (· ∈ ts) (expect k c) := by
  refine (draws_accept k).bind fun o ho => ?_
  rcases o with _ | t
  · exact draws_fail c
  · exact draws_pure (ho t rfl)

theorem draws_limit (c : Complaint) (count : Nat) : Draws ts (fun _ => True) (limit c count) := by
  unfold limit
  split
  · exact draws_peek.bind fun t ht => draws_report c ht
  · exact draws_pure trivial

theorem draws_assignTo {target value : Expr} {equals : Token} (ht : target.Drawn ts)
    (hop : equals ∈ ts) (hv : value.Drawn ts) :
    Draws ts (Expr.Drawn ts) (assignTo target equals value) := by
  unfold assignTo
  split
  · refine (draws_refer _).bind fun ref href => draws_pure ⟨?_, hv⟩
    rw [href]
    exact ht
  · exact draws_pure ⟨ht.1, ht.2, hv⟩
  · exact (draws_report _ hop).bind fun _ _ => draws_pure ht

theorem draws_loopExit (loops : Nat) (x : LoopExit) {keyword : Token} (hk : keyword ∈ ts) :
    Draws ts (Stmt.Drawn ts) (loopExit loops x keyword) := by
  have houtside : Draws ts (fun _ => True) (complainOutside loops x keyword) := by
    unfold complainOutside
    split
    · exact draws_report _ hk
    · exact draws_pure trivial
  refine houtside.bind fun _ _ => (draws_expect _ _).bind fun _ _ => draws_pure ?_
  cases x <;> exact hk

theorem draws_superclassName : Draws ts (fun ref => ref.token ∈ ts) superclassName :=
  (draws_expect _ _).bind fun t ht => (draws_refer t).mono fun _ href => href ▸ ht

/-- A part that may be missing is `ok` where it is there. -/
theorem draws_none : Draws ts (fun o => ∀ x ∈ o, ok x) (pure none) := draws_pure fun _ h => nomatch h

protected theorem Draws.some (h : Draws ts ok p) :
    Draws ts (fun o => ∀ x ∈ o, ok x) (some <$> p) :=
  h.map fun _ hx _ hy => Option.some.inj hy ▸ hx

protected theorem Draws.before (k : Token.Kind) (h : Draws ts ok p) :
    Draws ts (fun o => ∀ x ∈ o, ok x) (before k p) := by
  refine (draws_check k).bind fun b _ => ?_
  split
  · exact draws_none
  · exact h.some

protected theorem Draws.behind (k : Token.Kind) (h : Draws ts ok p) :
    Draws ts (fun o => ∀ x ∈ o, ok x) (behind k p) := by
  refine (draws_accept k).bind fun o _ => ?_
  rcases o with _ | t
  · exact draws_none
  · exact h.some

protected theorem Draws.recovering (h : Draws ts ok p) :
    Draws ts (fun o => ∀ x ∈ o, ok x) (recovering p) := fun s hs => by
  rw [run_recovering]
  have h := h s hs
  generalize p.run s = r at h
  cases h with
  | ok hs hx =>
    refine .ok hs fun y hy => ?_
    cases hy
    exact hx
  | @error e s' hs' he =>
    obtain ⟨taken, htaken, -⟩ := resume_suffix s'.ahead
    have hresume : ∀ t ∈ resume s'.ahead, t ∈ ts := fun t ht =>
      hs'.ahead t (by rw [htaken]; exact List.mem_append_right _ ht)
    exact .ok ⟨hresume, hs'.eof, hs'.complain he⟩ fun _ h => nomatch h
  | starved hs => exact .starved hs

end Steps

/-! ## 3. Every rule -/

/-- What a rule is told is drawn. -/
def Rule.Given (ts : List Token) {α : Type} : Rule α → Prop
  | .moreAssignments left | .moreOperands _ left | .moreCalls left => left.Drawn ts
  | .ret keyword => keyword ∈ ts
  | _ => True

/-- What a rule builds is drawn. -/
def Rule.Drawn (ts : List Token) {α : Type} : Rule α → α → Prop
  | .expression | .moreAssignments _ | .assignment | .conditional | .operand _ | .moreOperands _ _
  | .operandWithin _ | .unary | .moreCalls _ | .primary => Expr.Drawn ts
  | .arguments => fun es => ∀ e ∈ es, e.Drawn ts
  | .parameterNames | .parameters => fun names => ∀ t ∈ names, t ∈ ts
  | .code _ => Code.Drawn ts
  | .funDecl _ => FunDecl.Drawn ts
  | .declaration _ | .forInit => fun o => ∀ s ∈ o, s.Drawn ts
  | .declarationOrFail _ | .classDecl | .varDecl | .statement _ | .exprStatement | .forLoop _
  | .whileLoop _ | .branch _ | .ret _ => Stmt.Drawn ts
  | .methodsRest => fun fs => ∀ f ∈ fs, f.Drawn ts
  | .blockRest _ | .declarations _ | .program => fun ss => ∀ s ∈ ss, s.Drawn ts

theorem parameterNames_draws : ∀ n, Draws ts (fun names => ∀ t ∈ names, t ∈ ts) (parameterNames n)
  | 0 => draws_starve
  | n + 1 => by
    rw [parameterNames]
    refine (draws_expect _ _).bind fun name hname => (draws_accept _).bind fun o _ => ?_
    rcases o with _ | t
    · exact draws_pure (List.forall_mem_singleton.mpr hname)
    · exact (parameterNames_draws n).bind fun names hnames =>
        draws_pure (List.forall_mem_cons.mpr ⟨hname, hnames⟩)

/-- A list that may be missing. -/
theorem forall_mem_getD {α : Type} {P : α → Prop} {o : Option (List α)} (h : ∀ l ∈ o, ∀ x ∈ l, P x) :
    ∀ x ∈ o.getD [], P x := by
  cases o with
  | none => exact fun _ h => nomatch h
  | some l => exact h l rfl

theorem parameters_draws (n : Nat) : Draws ts (fun names => ∀ t ∈ names, t ∈ ts) (parameters n) :=
  ((parameterNames_draws n).before .rightParen).bind fun _ hnames => (draws_limit _ _).bind fun _ _ =>
    (draws_expect _ _).bind fun _ _ => draws_pure (forall_mem_getD hnames)

section Rules

variable {n : Nat}

theorem primary_draws (hcode : ∀ f, Draws ts (Code.Drawn ts) (code n f))
    (hexpr : Draws ts (Expr.Drawn ts) (expression n))
    (hoperand : ∀ l, Draws ts (Expr.Drawn ts) (operand n l)) :
    Draws ts (Expr.Drawn ts) (primary (n + 1)) := by
  rw [primary]
  refine draws_peek.bind fun t ht => ?_
  cases t.kind with
  | kwFalse | kwTrue | kwNil | number | string =>
    exact draws_skip.bind fun _ _ => draws_pure trivial
  | kwThis | identifier =>
    refine draws_skip.bind fun _ _ => (draws_refer t).bind fun ref href => draws_pure ?_
    show ref.token ∈ ts
    rwa [href]
  | kwSuper =>
    refine draws_skip.bind fun _ _ => (draws_expect _ _).bind fun _ _ => (draws_expect _ _).bind
      fun method hmethod => (draws_refer t).bind fun ref href => draws_pure ⟨?_, hmethod⟩
    rwa [href]
  | kwFun => exact draws_skip.bind fun _ _ => (hcode .lambda).bind fun _ hc => draws_pure hc
  | leftParen =>
    exact draws_skip.bind fun _ _ => hexpr.bind fun _ he => (draws_expect _ _).bind fun _ _ =>
      draws_pure he
  | bangEqual | equalEqual | greater | greaterEqual | less | lessEqual | plus | star | slash =>
    exact draws_skip.bind fun _ _ => (draws_report _ ht).bind fun _ _ => (hoperand _).bind fun _ _ =>
      draws_pure trivial
  | _ => exact draws_fail _

theorem statement_draws {loops : Nat} (hfor : Draws ts (Stmt.Drawn ts) (forLoop n loops))
    (hif : Draws ts (Stmt.Drawn ts) (branch n loops))
    (hret : ∀ t ∈ ts, Draws ts (Stmt.Drawn ts) (ret n t))
    (hwhile : Draws ts (Stmt.Drawn ts) (whileLoop n loops))
    (hblock : Draws ts (fun ss => ∀ s ∈ ss, s.Drawn ts) (blockRest n loops))
    (hexpr : Draws ts (Stmt.Drawn ts) (exprStatement n)) :
    Draws ts (Stmt.Drawn ts) (statement (n + 1) loops) := by
  rw [statement]
  refine draws_peek.bind fun t ht => ?_
  cases t.kind with
  | kwFor => exact draws_skip.bind fun _ _ => hfor
  | kwIf => exact draws_skip.bind fun _ _ => hif
  | kwReturn => exact draws_skip.bind fun _ _ => hret t ht
  | kwWhile => exact draws_skip.bind fun _ _ => hwhile
  | leftBrace =>
    exact draws_skip.bind fun _ _ => hblock.bind fun _ hb => draws_pure (stmtsDrawn_iff.mpr hb)
  | kwBreak | kwContinue => exact draws_skip.bind fun _ _ => draws_loopExit loops _ ht
  | _ => exact hexpr

theorem declarationOrFail_draws {loops : Nat} (hclass : Draws ts (Stmt.Drawn ts) (classDecl n))
    (hfun : Draws ts (FunDecl.Drawn ts) (funDecl n .function))
    (hvar : Draws ts (Stmt.Drawn ts) (varDecl n))
    (hstmt : Draws ts (Stmt.Drawn ts) (statement n loops)) :
    Draws ts (Stmt.Drawn ts) (declarationOrFail (n + 1) loops) := by
  rw [declarationOrFail]
  refine (draws_accept _).bind fun o _ => ?_
  rcases o with _ | t
  · refine (draws_check _).bind fun _ _ => (draws_checkSecond _).bind fun _ _ => ?_
    split
    · refine (draws_accept _).bind fun _ _ => hfun.bind fun decl hf => draws_pure ?_
      cases decl
      exact hf
    · refine (draws_accept _).bind fun o _ => ?_
      rcases o with _ | t
      · exact hstmt
      · exact hvar
  · exact hclass

end Rules

/-- **Every rule draws** on the tokens ahead, and on what it is told. -/
theorem rule_draws : ∀ n {α : Type} (r : Rule α), r.Given ts → Draws ts (r.Drawn ts) (r.parse n)
  | 0, _, r => fun _ => by
    cases r with
    | parameters => exact parameters_draws 0
    | _ => exact draws_starve
  | n + 1, _, r => fun hgiven => by
    have ih := @rule_draws n
    have expression : Draws ts (Expr.Drawn ts) (expression n) := ih .expression trivial
    have assignment : Draws ts (Expr.Drawn ts) (assignment n) := ih .assignment trivial
    have statement (l : Nat) : Draws ts (Stmt.Drawn ts) (statement n l) := ih (.statement l) trivial
    cases r with
    | expression => exact assignment.bind fun e he => ih (.moreAssignments e) he
    | moreAssignments left =>
      refine (draws_accept _).bind fun o ho => ?_
      rcases o with _ | op
      · exact draws_pure hgiven
      · exact assignment.bind fun e he =>
          ih (.moreAssignments (.binary left op e)) ⟨hgiven, .inl (ho op rfl), he⟩
    | assignment =>
      refine Draws.bind (ih .conditional trivial) fun target ht => (draws_acceptIf _).bind fun o ho => ?_
      rcases o with _ | equals
      · exact draws_pure ht
      · exact assignment.bind fun _ hv =>
          draws_assignTo ht (ho equals rfl) (assignedValue_drawn ht (ho equals rfl) hv)
    | conditional =>
      refine Draws.bind (ih (.operand .or) trivial) fun condition hc => (draws_accept _).bind fun o _ => ?_
      rcases o with _ | t
      · exact draws_pure hc
      · exact expression.bind fun yes hyes => (draws_expect _ _).bind fun _ _ =>
          Draws.bind (ih .conditional trivial) fun _ hno => draws_pure ⟨hc, hyes, hno⟩
    | operand l =>
      exact Draws.bind (ih (.operandWithin l.tighter?) trivial) fun e he => ih (.moreOperands l e) he
    | moreOperands l left =>
      refine (draws_acceptIf _).bind fun o ho => ?_
      rcases o with _ | op
      · exact draws_pure hgiven
      · exact Draws.bind (ih (.operandWithin l.tighter?) trivial) fun e he =>
          ih (.moreOperands l (l.join left op e)) (l.join_drawn hgiven (ho op rfl) he)
    | operandWithin l =>
      rcases l with _ | l
      · exact ih .unary trivial
      · exact ih (.operand l) trivial
    | unary =>
      refine (draws_acceptIf _).bind fun o ho => ?_
      rcases o with _ | op
      · exact Draws.bind (ih .primary trivial) fun e he => ih (.moreCalls e) he
      · exact Draws.bind (ih .unary trivial) fun _ he => draws_pure ⟨ho op rfl, he⟩
    | moreCalls left =>
      refine (draws_accept _).bind fun o _ => ?_
      rcases o with _ | t
      · refine (draws_accept _).bind fun o _ => ?_
        rcases o with _ | t
        · exact draws_pure hgiven
        · exact (draws_expect _ _).bind fun name hname => ih (.moreCalls (.get left name)) ⟨hgiven, hname⟩
      · exact (Draws.before _ (ih .arguments trivial)).bind fun args hargs =>
          (draws_limit _ _).bind fun _ _ => (draws_expect _ _).bind fun paren hparen =>
            ih (.moreCalls (.call left paren (args.getD [])))
              ⟨hgiven, hparen, exprsDrawn_iff.mpr (forall_mem_getD hargs)⟩
    | arguments =>
      refine assignment.bind fun first hfirst => (draws_accept _).bind fun o _ => ?_
      rcases o with _ | t
      · exact draws_pure (List.forall_mem_singleton.mpr hfirst)
      · exact Draws.bind (ih .arguments trivial) fun _ hrest =>
          draws_pure (List.forall_mem_cons.mpr ⟨hfirst, hrest⟩)
    | primary =>
      exact primary_draws (fun f => ih (.code f) trivial) expression fun l => ih (.operand l) trivial
    | parameterNames => exact parameterNames_draws (n + 1)
    | parameters => exact parameters_draws (n + 1)
    | code f =>
      exact (draws_expect _ _).bind fun _ _ => (parameters_draws n).bind fun params hparams =>
        (draws_expect _ _).bind fun _ _ => Draws.bind (ih (.blockRest 0) trivial) fun _ hbody =>
          draws_pure ⟨hparams, stmtsDrawn_iff.mpr hbody⟩
    | funDecl f =>
      exact (draws_expect _ _).bind fun name hname => Draws.bind (ih (.code f) trivial) fun _ hc =>
        draws_pure ⟨hname, hc⟩
    | declaration loops => exact Draws.recovering (ih (.declarationOrFail loops) trivial)
    | declarationOrFail loops =>
      exact declarationOrFail_draws (ih .classDecl trivial) (ih (.funDecl .function) trivial)
        (ih .varDecl trivial) (statement loops)
    | classDecl =>
      exact (draws_expect _ _).bind fun name hname => (draws_superclassName.behind _).bind
        fun superclass hsuper => (draws_expect _ _).bind fun _ _ =>
          Draws.bind (ih .methodsRest trivial) fun methods hmethods => (draws_expect _ _).bind
            fun _ _ => draws_pure ⟨hname, hsuper, funDeclsDrawn_iff.mpr hmethods⟩
    | methodsRest =>
      refine (draws_check _).bind fun _ _ => draws_atEnd.bind fun _ _ => ?_
      split
      · exact draws_pure fun _ h => nomatch h
      · exact Draws.bind (ih (.funDecl .method) trivial) fun f hf =>
          Draws.bind (ih .methodsRest trivial) fun _ hrest =>
            draws_pure (List.forall_mem_cons.mpr ⟨hf, hrest⟩)
    | varDecl =>
      exact (draws_expect _ _).bind fun name hname => (expression.behind _).bind fun init hinit =>
        (draws_expect _ _).bind fun _ _ => draws_pure ⟨hname, getD_drawn hinit⟩
    | statement loops =>
      exact statement_draws (ih (.forLoop loops) trivial) (ih (.branch loops) trivial)
        (fun t ht => ih (.ret t) ht) (ih (.whileLoop loops) trivial) (ih (.blockRest loops) trivial)
        (ih .exprStatement trivial)
    | exprStatement =>
      exact expression.bind fun e he => (draws_expect _ _).bind fun _ _ => draws_pure he
    | forLoop loops =>
      exact (draws_expect _ _).bind fun _ _ => Draws.bind (ih .forInit trivial) fun init hinit =>
        (expression.before _).bind fun condition hc => (draws_expect _ _).bind fun _ _ =>
          (expression.before _).bind fun increment hi => (draws_expect _ _).bind fun _ _ =>
            (statement (loops + 1)).bind fun _ hbody => draws_pure
              ⟨optionStmtDrawn_iff.mpr hinit, getD_drawn hc, optionExprDrawn_iff.mpr hi, hbody⟩
    | forInit =>
      refine (draws_accept _).bind fun o _ => ?_
      rcases o with _ | t
      · refine (draws_accept _).bind fun o _ => ?_
        rcases o with _ | t
        · exact Draws.some (ih .exprStatement trivial)
        · exact Draws.some (ih .varDecl trivial)
      · exact draws_none
    | whileLoop loops =>
      exact (draws_expect _ _).bind fun _ _ => expression.bind fun condition hc =>
        (draws_expect _ _).bind fun _ _ => (statement (loops + 1)).bind fun _ hbody =>
          draws_pure ⟨hc, hbody⟩
    | branch loops =>
      exact (draws_expect _ _).bind fun _ _ => expression.bind fun condition hc =>
        (draws_expect _ _).bind fun _ _ => (statement loops).bind fun yes hyes =>
          ((statement loops).behind _).bind fun _ hno =>
            draws_pure ⟨hc, hyes, optionStmtDrawn_iff.mpr hno⟩
    | ret keyword =>
      exact (expression.before _).bind fun value hv => (draws_expect _ _).bind fun _ _ =>
        draws_pure ⟨hgiven, optionExprDrawn_iff.mpr hv⟩
    | blockRest loops =>
      exact Draws.bind (ih (.declarations loops) trivial) fun body hbody => (draws_expect _ _).bind
        fun _ _ => draws_pure hbody
    | declarations loops =>
      refine (draws_check _).bind fun _ _ => draws_atEnd.bind fun _ _ => ?_
      split
      · exact draws_pure fun _ h => nomatch h
      · exact Draws.bind (ih (.declaration loops) trivial) fun first hfirst =>
          Draws.bind (ih (.declarations loops) trivial) fun _ hrest =>
            draws_pure (List.forall_mem_append.mpr
              ⟨fun s hs => hfirst s (Option.mem_toList.mp hs), hrest⟩)
    | program =>
      refine draws_atEnd.bind fun _ _ => ?_
      split
      · exact draws_pure fun _ h => nomatch h
      · exact Draws.bind (ih (.declaration 0) trivial) fun first hfirst =>
          Draws.bind (ih .program trivial) fun _ hrest =>
            draws_pure (List.forall_mem_append.mpr
              ⟨fun s hs => hfirst s (Option.mem_toList.mp hs), hrest⟩)

/-! ## 4. The whole parse -/

/-- **What the parser says is about the tokens it was given**, if an end is among them. -/
theorem parse_drawn {tokens : List Token} (nextId : Nat) (hend : ∃ t ∈ tokens, t.kind = .eof) :
    (∀ s ∈ (parse tokens nextId).statements, s.Drawn tokens) ∧
      ∀ e ∈ (parse tokens nextId).errors, e.token ∈ tokens := by
  have hfind : ∃ t, tokens.find? (·.kind = .eof) = some t ∧ t ∈ tokens := by
    obtain ⟨u, hu, hk⟩ := hend
    rcases h : tokens.find? (·.kind = .eof) with _ | t
    · exact absurd hk (by simpa using List.find?_eq_none.mp h u hu)
    · exact ⟨t, h, List.mem_of_find?_eq_some h⟩
  obtain ⟨t, ht, hmem⟩ := hfind
  have hwithin : (Cursor.ofTokens tokens nextId).Within tokens := by
    refine ⟨fun u hu => (List.takeWhile_prefix _).subset hu, ?_, fun _ h => absurd h List.not_mem_nil⟩
    rw [Cursor.ofTokens, ht]
    exact hmem
  have hdraws := rule_draws (fuelFor tokens.length) .program trivial _ hwithin
  rw [Rule.parse] at hdraws
  unfold parse
  generalize (program (fuelFor tokens.length)).run _ = r at hdraws
  cases hdraws with
  | ok hs hx => exact ⟨hx, hs.errors⟩
  | error hs | starved hs => exact ⟨fun _ h => absurd h List.not_mem_nil, hs.errors⟩

end Syntax

end Lox
