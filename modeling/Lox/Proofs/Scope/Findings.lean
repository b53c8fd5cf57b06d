import Lox.Scope.Resolve

/-!
# What a walk finds out

A walk carries its scopes and its context along, and leaves what it enters. Here is what it finds out,
said of a tree and of the place it stands at: the context (`Context`) and the scopes around it.

* `Stmt.findings` and its kin: what is found out about a part of a program, and the scopes behind it.
* `Stmt.walk_does` and its kin: **a walk through a part of a program finds this out**, leaves these scopes
  behind it, and the function and the class it is in are those from before, whatever was complained
  about on the way.
* `resolve_eq`: what scoping finds out about a program.
-/

namespace Lox

/-! ## 1. Findings -/

/-- What is around a place, but for the scopes. -/
structure Context where
  function : FunctionContext
  ofClass : ClassContext
deriving DecidableEq, Repr

namespace Scopes

/-- A reference, looked up. -/
def look (scopes : Scopes) (ref : Reference) : Finding :=
  .reference ref (scopes.depthOf? ref.name)

/-- The complaint about a second declaration of a name in one scope. -/
def complaintsOn (scopes : Scopes) (name : Token) : List Finding :=
  if scopes.hasInnermost name.lexeme then
    [.complaint (.redeclared name.lexeme) name]
  else
    []

/-- A name brought in and completed at once. -/
def introduce (scopes : Scopes) (name : Token) : Scopes :=
  (scopes.declare name.lexeme).define name.lexeme

/-- Parameters brought in, in order, and the complaints about them. -/
def introduceAll (scopes : Scopes) : List Token → Scopes × List Finding
  | [] => (scopes, [])
  | name :: rest =>
    let (final, found) := introduceAll (scopes.introduce name) rest
    (final, scopes.complaintsOn name ++ found)

/-- A name that is read. -/
def readFindings (scopes : Scopes) (ref : Reference) : List Finding :=
  if scopes.isIncomplete ref.name then
    [.complaint .ownInitializer ref.token, scopes.look ref]
  else
    [scopes.look ref]

/-- A `this`. -/
def thisFindings (scopes : Scopes) (ctx : Context) (ref : Reference) : List Finding :=
  match ctx.ofClass with
  | .none => [.complaint .thisOutsideClass ref.token]
  | .base | .derived => [scopes.look ref]

/-- A `super`. -/
def superFindings (scopes : Scopes) (ctx : Context) (ref : Reference) : List Finding :=
  match ctx.ofClass with
  | .none => [.complaint .superOutsideClass ref.token]
  | .base => [.complaint .superWithoutSuperclass ref.token]
  | .derived => [scopes.look ref]

/-- The superclass of the class `name`. -/
def superclassFindings (scopes : Scopes) (name : Token) : Option Reference → List Finding
  | none => []
  | some ref =>
    (if ref.name = name.lexeme then [.complaint .selfInheritance ref.token] else [])
      ++ scopes.readFindings ref

/-- The scopes of the methods of a class. -/
def ofMethods (scopes : Scopes) (superclass : Option Reference) : Scopes :=
  match superclass with
  | none => [(thisName, true)] :: scopes
  | some _ => [(thisName, true)] :: [(superName, true)] :: scopes

end Scopes

/-- The complaints about a return. -/
def returnComplaints (ctx : Context) (keyword : Token) (hasValue : Bool) : List Finding :=
  (if ctx.function = .none then [.complaint .topLevelReturn keyword] else [])
    ++ (if hasValue ∧ ctx.function = .initializer then
      [.complaint .initializerReturn keyword] else [])

/-- The context of the body of a class. -/
def Context.inClass (ctx : Context) (superclass : Option Reference) : Context :=
  { ctx with ofClass := if superclass.isSome then .derived else .base }

mutual

/-- What scoping finds out about an expression. -/
def Expr.findings (ctx : Context) (scopes : Scopes) : Expr → List Finding
  | .literal _ => []
  | .group inner => inner.findings ctx scopes
  | .unary _ operand => operand.findings ctx scopes
  | .binary left _ right => left.findings ctx scopes ++ right.findings ctx scopes
  | .logical left _ right => left.findings ctx scopes ++ right.findings ctx scopes
  | .conditional condition yes no =>
    condition.findings ctx scopes ++ yes.findings ctx scopes ++ no.findings ctx scopes
  | .read ref => scopes.readFindings ref
  | .assign ref value => value.findings ctx scopes ++ [scopes.look ref]
  | .call callee _ args => callee.findings ctx scopes ++ exprFindings ctx scopes args
  | .get object _ => object.findings ctx scopes
  | .set object _ value => value.findings ctx scopes ++ object.findings ctx scopes
  | .this ref => scopes.thisFindings ctx ref
  | .super ref _ => scopes.superFindings ctx ref
  | .lambda code => code.findings { ctx with function := .function } scopes

/-- What scoping finds out about expressions, in order. -/
def exprFindings (ctx : Context) (scopes : Scopes) : List Expr → List Finding
  | [] => []
  | e :: rest => e.findings ctx scopes ++ exprFindings ctx scopes rest

/-- What scoping finds out about a function: its parameters and its body share one scope. -/
def Code.findings (ctx : Context) (scopes : Scopes) : Code → List Finding
  | .mk params body =>
    let (inner, found) := Scopes.introduceAll ([] :: scopes) params
    found ++ (bodyFindings ctx inner body).2

/-- What scoping finds out about methods. -/
def methodFindings (ctx : Context) (scopes : Scopes) : List FunDecl → List Finding
  | [] => []
  | .mk name code :: rest =>
    code.findings { ctx with function := .ofMethod name } scopes
      ++ methodFindings ctx scopes rest

/-- What scoping finds out about a statement, and the scopes behind it. -/
def Stmt.findings (ctx : Context) (scopes : Scopes) : Stmt → Scopes × List Finding
  | .expr e => (scopes, e.findings ctx scopes)
  | .varDecl name init =>
    let declared := scopes.declare name.lexeme
    (declared.define name.lexeme, scopes.complaintsOn name ++ init.findings ctx declared)
  | .funDecl (.mk name code) =>
    let inner := scopes.introduce name
    (inner,
      scopes.complaintsOn name ++ code.findings { ctx with function := .function } inner)
  | .classDecl name superclass methods =>
    let inner := scopes.introduce name
    (inner,
      scopes.complaintsOn name ++ inner.superclassFindings name superclass
        ++ methodFindings (ctx.inClass superclass) (inner.ofMethods superclass) methods)
  | .branch condition yes no =>
    let (middle, found) := yes.findings ctx scopes
    let (final, more) := optionFindings ctx middle no
    (final, condition.findings ctx scopes ++ found ++ more)
  | .whileLoop condition body =>
    let (final, found) := body.findings ctx scopes
    (final, condition.findings ctx scopes ++ found)
  | .forLoop init condition increment body =>
    let (inner, found) := optionFindings ctx ([] :: scopes) init
    (scopes,
      found ++ condition.findings ctx inner ++ optionExprFindings ctx inner increment
        ++ (body.findings ctx inner).2)
  | .block body => (scopes, (bodyFindings ctx ([] :: scopes) body).2)
  | .ret keyword value =>
    (scopes,
      returnComplaints ctx keyword value.isSome ++ optionExprFindings ctx scopes value)
  | .leave _ => (scopes, [])
  | .next _ => (scopes, [])

/-- What scoping finds out about statements in order, and the scopes behind them. -/
def bodyFindings (ctx : Context) (scopes : Scopes) : List Stmt → Scopes × List Finding
  | [] => (scopes, [])
  | s :: rest =>
    let (middle, found) := s.findings ctx scopes
    let (final, more) := bodyFindings ctx middle rest
    (final, found ++ more)

/-- What scoping finds out about a statement that may be missing. -/
def optionFindings (ctx : Context) (scopes : Scopes) : Option Stmt → Scopes × List Finding
  | none => (scopes, [])
  | some s => s.findings ctx scopes

/-- What scoping finds out about an expression that may be missing. -/
def optionExprFindings (ctx : Context) (scopes : Scopes) : Option Expr → List Finding
  | none => []
  | some e => e.findings ctx scopes

end

/-! ## 2. The scopes behind a statement -/

@[simp] theorem Scopes.tail_declare (scopes : Scopes) (name : String) :
    (scopes.declare name).tail = scopes.tail := by
  cases scopes <;> rfl

@[simp] theorem Scopes.tail_define (scopes : Scopes) (name : String) :
    (scopes.define name).tail = scopes.tail := by
  cases scopes <;> rfl

@[simp] theorem Scopes.tail_introduce (scopes : Scopes) (name : Token) :
    (scopes.introduce name).tail = scopes.tail := by
  rw [Scopes.introduce, tail_define, tail_declare]

@[simp] theorem Scopes.tail_introduceAll (scopes : Scopes) (names : List Token) :
    (scopes.introduceAll names).1.tail = scopes.tail := by
  induction names generalizing scopes with
  | nil => rfl
  | cons name rest ih =>
    show ((scopes.introduce name).introduceAll rest).1.tail = _
    rw [ih, tail_introduce]

mutual

/-- **Only the innermost scope grows** in a statement. -/
theorem Stmt.findings_tail (ctx : Context) (scopes : Scopes) :
    ∀ s : Stmt, (s.findings ctx scopes).1.tail = scopes.tail
  | .expr _ => rfl
  | .varDecl _ _ => by simp [Stmt.findings]
  | .funDecl (.mk _ _) => by simp [Stmt.findings]
  | .classDecl _ _ _ => by simp [Stmt.findings]
  | .branch _ yes no => by
    show (optionFindings ctx (yes.findings ctx scopes).1 no).1.tail = _
    rw [optionFindings_tail, yes.findings_tail]
  | .whileLoop _ body => body.findings_tail ctx scopes
  | .forLoop _ _ _ _ => rfl
  | .block _ => rfl
  | .ret _ _ => rfl
  | .leave _ => rfl
  | .next _ => rfl

theorem optionFindings_tail (ctx : Context) (scopes : Scopes) :
    ∀ s : Option Stmt, (optionFindings ctx scopes s).1.tail = scopes.tail
  | none => rfl
  | some s => s.findings_tail ctx scopes

end

theorem bodyFindings_tail (ctx : Context) (scopes : Scopes) (body : List Stmt) :
    (bodyFindings ctx scopes body).1.tail = scopes.tail := by
  induction body generalizing scopes with
  | nil => rfl
  | cons s rest ih =>
    show (bodyFindings ctx (s.findings ctx scopes).1 rest).1.tail = _
    rw [ih, s.findings_tail]

theorem Scopes.ofMethods_eq (scopes : Scopes) (ref : Option Reference) :
    scopes.ofMethods ref
      = [(thisName, true)] :: ref.elim scopes fun _ => [(superName, true)] :: scopes := by
  cases ref <;> rfl

/-! ## 3. Steps of a walk -/

/-- The context of the place that a walk has come to. -/
def Resolver.ctx (r : Resolver) : Context := ⟨r.function, r.ofClass⟩

/-- A resolver with other scopes, that has found out more. -/
def Resolver.after (r : Resolver) (scopes : Scopes) (found : List Finding) : Resolver :=
  { r with scopes, found := r.found ++ found.toArray }

namespace Resolver

variable (r : Resolver) (scopes : Scopes) (found : List Finding)

@[simp] theorem scopes_after : (r.after scopes found).scopes = scopes := rfl

@[simp] theorem after_after (scopes' : Scopes) (more : List Finding) :
    (r.after scopes found).after scopes' more = r.after scopes' (found ++ more) := by
  simp [after]

theorem after_self : r.after r.scopes [] = r := by simp [after]

end Resolver

/-- What a part of a walk does: the scopes that it leaves behind it, and what it finds out. -/
def Does (w : Walk Unit) (r : Resolver) (step : Scopes × List Finding) : Prop :=
  w.run r = ((), r.after step.1 step.2)

namespace Does

variable {r : Resolver} {w : Walk Unit} {scopes scopes' : Scopes} {found more : List Finding}

/-- One part after the other. -/
theorem bind {v : Unit → Walk Unit} (hw : Does w r (scopes, found))
    (hv : Does (v ()) (r.after scopes found) (scopes', more)) :
    Does (w >>= v) r (scopes', found ++ more) := by
  unfold Does at *
  rw [StateT.run_bind, hw]
  show (v ()).run _ = _
  rw [hv, Resolver.after_after]

theorem nothing (r : Resolver) : Does (pure ()) r (r.scopes, []) := by
  unfold Does
  rw [r.after_self]
  rfl

theorem find (f : Finding) (r : Resolver) : Does (Walk.find f) r (r.scopes, [f]) := rfl

theorem rescope (f : Scopes → Scopes) (r : Resolver) :
    Does (modify fun r => { r with scopes := f r.scopes }) r (f r.scopes, []) := by
  have hnothing : r.found ++ ([] : List Finding).toArray = r.found := Array.append_empty
  unfold Does Resolver.after
  rw [hnothing]
  rfl

theorem beginScope (r : Resolver) : Does Walk.beginScope r ([] :: r.scopes, []) := rescope _ r

theorem endScope (r : Resolver) : Does Walk.endScope r (r.scopes.tail, []) := rescope _ r

theorem markDefined (name : String) (r : Resolver) :
    Does (Walk.markDefined name) r (r.scopes.define name, []) := rescope (·.define name) r

theorem declare (name : Token) (r : Resolver) :
    Does (Walk.declare name) r (r.scopes.declare name.lexeme, r.scopes.complaintsOn name) := by
  show Does (if r.scopes.hasInnermost name.lexeme then _ else _) r _
  unfold Scopes.complaintsOn
  by_cases hdeclared : r.scopes.hasInnermost name.lexeme = true
  · have hsame : r.scopes.declare name.lexeme = r.scopes := by
      unfold Scopes.hasInnermost at hdeclared
      cases hscopes : r.scopes with
      | nil => rfl
      | cons s outer =>
        rw [hscopes] at hdeclared
        exact congrArg (· :: outer) (if_pos hdeclared)
    rw [if_pos hdeclared, if_pos hdeclared, hsame]
    exact find _ r
  · rw [if_neg hdeclared, if_neg hdeclared]
    exact rescope (·.declare name.lexeme) r

theorem introduce (name : Token) (r : Resolver) :
    Does (Walk.introduce name) r (r.scopes.introduce name, r.scopes.complaintsOn name) := by
  have h := (declare name r).bind (v := fun _ => Walk.markDefined name.lexeme) (markDefined _ _)
  rwa [List.append_nil] at h

theorem introduceAll (names : List Token) (r : Resolver) :
    Does (Walk.introduceAll names) r (r.scopes.introduceAll names) := by
  induction names generalizing r with
  | nil => exact nothing r
  | cons name rest ih => exact (introduce name r).bind (ih _)

theorem look (ref : Reference) (r : Resolver) :
    Does (Walk.look ref) r (r.scopes, [r.scopes.look ref]) := rfl

theorem read (ref : Reference) (r : Resolver) :
    Does (Walk.read ref) r (r.scopes, r.scopes.readFindings ref) := by
  show Does (if r.scopes.isIncomplete ref.name then
      Walk.complain .ownInitializer ref.token >>= fun _ => Walk.look ref
    else Walk.look ref) r _
  unfold Scopes.readFindings
  split
  · exact (find _ r).bind (look ref _)
  · exact look ref r

theorem this (ref : Reference) (r : Resolver) :
    Does (Walk.this ref) r (r.scopes, r.scopes.thisFindings r.ctx ref) := by
  obtain ⟨scopes, _, ofClass, found⟩ := r
  cases ofClass <;> rfl

theorem super (ref : Reference) (r : Resolver) :
    Does (Walk.super ref) r (r.scopes, r.scopes.superFindings r.ctx ref) := by
  obtain ⟨scopes, _, ofClass, found⟩ := r
  cases ofClass <;> rfl

theorem returns (keyword : Token) (hasValue : Bool) (r : Resolver) :
    Does (Walk.returns keyword hasValue) r (r.scopes, returnComplaints r.ctx keyword hasValue) := by
  obtain ⟨scopes, place, _, found⟩ := r
  cases place <;> cases hasValue <;> rfl

/-- The superclass of a class: its methods have one scope more around them, and the class is one with a
    superclass. -/
theorem superclass_run (name : Token) (ref : Option Reference) (r : Resolver) :
    (Walk.superclass name ref).run r
      = ((), { r with ofClass := if ref.isSome then .derived else r.ofClass }.after
          (ref.elim r.scopes fun _ => [(superName, true)] :: r.scopes)
          (r.scopes.superclassFindings name ref)) := by
  cases ref with
  | none => exact nothing r
  | some ref =>
    have hrest : ∀ r : Resolver, (do
          Walk.setClass .derived
          Walk.read ref
          Walk.beginScope
          Walk.markDefined superName).run r
        = ((), { r with ofClass := .derived }.after ([(superName, true)] :: r.scopes)
            (r.scopes.readFindings ref)) := fun r => by
      have h := (read ref { r with ofClass := .derived }).bind
        (v := fun _ => Walk.beginScope >>= fun _ => Walk.markDefined superName)
        ((beginScope _).bind (markDefined superName _))
      rwa [List.append_nil, List.append_nil] at h
    by_cases hself : ref.name = name.lexeme
    · have hfound : r.scopes.superclassFindings name (some ref)
          = .complaint .selfInheritance ref.token :: r.scopes.readFindings ref := by
        rw [Scopes.superclassFindings, if_pos hself]
        rfl
      rw [Walk.superclass, if_pos hself, hfound]
      show (Walk.complain .selfInheritance ref.token >>= fun _ => _ : Walk Unit).run r = _
      rw [StateT.run_bind]
      refine (hrest (r.after r.scopes [.complaint .selfInheritance ref.token])).trans ?_
      simp [Resolver.after]
    · have hfound : r.scopes.superclassFindings name (some ref) = r.scopes.readFindings ref := by
        rw [Scopes.superclassFindings, if_neg hself]
        rfl
      rw [Walk.superclass, if_neg hself, hfound]
      exact hrest r

/-- A function is left as it was entered. -/
theorem inFunction {kind : FunctionContext}
    (h : Does w { r with scopes := [] :: r.scopes, function := kind } (scopes, found))
    (hscopes : scopes.tail = r.scopes) :
    Does (do
      let enclosing := (← get).function
      Walk.setFunction kind
      Walk.beginScope
      w
      Walk.endScope
      Walk.setFunction enclosing) r (r.scopes, found) := by
  show (w >>= fun _ => Walk.endScope >>= fun _ => Walk.setFunction r.function).run
    { r with scopes := [] :: r.scopes, function := kind } = _
  rw [StateT.run_bind, h]
  show ((), Resolver.mk scopes.tail r.function r.ofClass (r.found ++ found.toArray)) = _
  rw [hscopes]
  rfl

/-- Methods are walked through in a scope with `this`. -/
theorem methods {methods : List FunDecl}
    (h : ∀ r, Does (walkMethods methods) r (r.scopes, methodFindings r.ctx r.scopes methods))
    (r : Resolver) :
    Does (do
      Walk.beginScope
      Walk.markDefined thisName
      walkMethods methods
      Walk.endScope) r
      (r.scopes, methodFindings r.ctx ([(thisName, true)] :: r.scopes) methods) := by
  have hall := (beginScope r).bind
    (v := fun _ => Walk.markDefined thisName >>= fun _ => walkMethods methods >>= fun _ =>
      Walk.endScope)
    ((markDefined thisName _).bind ((h _).bind (endScope _)))
  rwa [List.nil_append, List.nil_append, List.append_nil] at hall

/-- A class is left for the one around it. -/
theorem leaveClass {k : ClassContext} {entered : Resolver}
    (h : w.run entered = ((), { r with ofClass := k }.after scopes found)) :
    (w >>= fun _ => Walk.setClass r.ofClass).run entered = ((), r.after scopes found) := by
  rw [StateT.run_bind, h]
  rfl

theorem classDecl {methods : List FunDecl}
    (h : ∀ r, Does (walkMethods methods) r (r.scopes, methodFindings r.ctx r.scopes methods))
    (name : Token) (ref : Option Reference) (r : Resolver) :
    Does (Stmt.classDecl name ref methods).walk r
      ((Stmt.classDecl name ref methods).findings r.ctx r.scopes) := by
  have hname := introduce name { r with ofClass := .base }
  cases ref with
  | none =>
    have hinside := hname.bind (v := fun _ => do
      Walk.beginScope
      Walk.markDefined thisName
      walkMethods methods
      Walk.endScope) (Does.methods h _)
    rw [← List.append_nil (Scopes.complaintsOn _ _)] at hinside
    exact leaveClass (k := .base) hinside
  | some ref =>
    have hsuper := superclass_run name (some ref)
      ({ r with ofClass := .base }.after (r.scopes.introduce name) (r.scopes.complaintsOn name))
    -- from the name of the superclass on the class is one that has a superclass
    have hrest := (Does.methods h ({ r with ofClass := .derived }.after
      ([(superName, true)] :: r.scopes.introduce name)
      (r.scopes.complaintsOn name
        ++ (r.scopes.introduce name).superclassFindings name (some ref)))).bind
      (v := fun _ => Walk.endScope) (endScope _)
    rw [List.append_nil] at hrest
    refine leaveClass (k := .derived) (w := do
      Walk.introduce name
      Walk.superclass name (some ref)
      Walk.beginScope
      Walk.markDefined thisName
      walkMethods methods
      Walk.endScope
      Walk.endScope) ?_
    rw [StateT.run_bind, hname]
    show (Walk.superclass name (some ref) >>= fun _ => _ : Walk Unit).run
      ({ r with ofClass := .base }.after (r.scopes.introduce name) (r.scopes.complaintsOn name)) = _
    rw [StateT.run_bind, hsuper]
    refine (congrArg (StateT.run _) (Resolver.after_after _ _ _ _ _)).trans (hrest.trans ?_)
    exact congrArg (Prod.mk ()) (Resolver.after_after _ _ _ _ _)

end Does

/-- **What a part of a walk leaves behind it**: the function and the class from before, and some scopes. -/
structure Resolver.Restored (before : Resolver) (scopes : Scopes) (behind : Resolver) : Prop where
  function : behind.function = before.function
  ofClass : behind.ofClass = before.ofClass
  scopes : behind.scopes = scopes

theorem Does.restored {w : Walk Unit} {r : Resolver} {step : Scopes × List Finding}
    (h : Does w r step) : r.Restored step.1 (w.run r).2 := by
  rw [show w.run r = _ from h]
  exact ⟨rfl, rfl, rfl⟩

/-! ## 4. The walk -/

mutual

/-- **A walk through an expression** leaves no other scopes behind it. -/
theorem Expr.walk_does : ∀ (e : Expr) (r : Resolver),
    Does e.walk r (r.scopes, e.findings r.ctx r.scopes)
  | .literal _, r => .nothing r
  | .group inner, r => inner.walk_does r
  | .unary _ operand, r => operand.walk_does r
  | .binary left _ right, r => (left.walk_does r).bind (right.walk_does _)
  | .logical left _ right, r => (left.walk_does r).bind (right.walk_does _)
  | .conditional condition yes no, r => by
    have h := (condition.walk_does r).bind (v := fun _ => yes.walk >>= fun _ => no.walk)
      ((yes.walk_does _).bind (no.walk_does _))
    rwa [← List.append_assoc] at h
  | .read ref, r => .read ref r
  | .assign ref value, r => (value.walk_does r).bind (.look ref _)
  | .call callee _ args, r => (callee.walk_does r).bind (walkExprs_does args _)
  | .get object _, r => object.walk_does r
  | .set object _ value, r => (value.walk_does r).bind (object.walk_does _)
  | .this ref, r => .this ref r
  | .super ref _, r => .super ref r
  | .lambda code, r => code.walk_does .function r

theorem walkExprs_does : ∀ (es : List Expr) (r : Resolver),
    Does (walkExprs es) r (r.scopes, exprFindings r.ctx r.scopes es)
  | [], r => .nothing r
  | e :: rest, r => (e.walk_does r).bind (walkExprs_does rest _)

/-- **A walk through a function** leaves its scope, and comes back to the function around it. -/
theorem Code.walk_does : ∀ (c : Code) (kind : FunctionContext) (r : Resolver),
    Does (c.walk kind) r (r.scopes, c.findings { r.ctx with function := kind } r.scopes)
  | .mk params body, kind, r => by
    have h := (Does.introduceAll params { r with scopes := [] :: r.scopes, function := kind }).bind
      (v := fun _ => walkAll body) (walkAll_does body _)
    refine Does.inFunction h ?_
    rw [bodyFindings_tail]
    exact Scopes.tail_introduceAll _ _

theorem walkMethods_does : ∀ (methods : List FunDecl) (r : Resolver),
    Does (walkMethods methods) r (r.scopes, methodFindings r.ctx r.scopes methods)
  | [], r => .nothing r
  | .mk _ code :: rest, r => (code.walk_does _ r).bind (walkMethods_does rest _)

/-- **A walk through a statement** leaves the scopes behind it that it should. -/
theorem Stmt.walk_does : ∀ (s : Stmt) (r : Resolver),
    Does s.walk r (s.findings r.ctx r.scopes)
  | .expr e, r => e.walk_does r
  | .varDecl name init, r => by
    have h := (Does.declare name r).bind
      (v := fun _ => init.walk >>= fun _ => Walk.markDefined name.lexeme)
      ((init.walk_does _).bind (.markDefined _ _))
    rwa [List.append_nil] at h
  | .funDecl (.mk name code), r => (Does.introduce name r).bind (code.walk_does _ _)
  | .classDecl name superclass methods, r => .classDecl (walkMethods_does methods) name superclass r
  | .branch condition yes no, r => by
    have h := (condition.walk_does r).bind (v := fun _ => yes.walk >>= fun _ => walkOption no)
      ((yes.walk_does _).bind (walkOption_does no _))
    rwa [← List.append_assoc] at h
  | .whileLoop condition body, r => (condition.walk_does r).bind (body.walk_does _)
  | .forLoop init condition increment body, r => by
    have h := (Does.beginScope r).bind (v := fun _ => do
        walkOption init
        condition.walk
        walkOptionExpr increment
        body.walk
        Walk.endScope)
      ((walkOption_does init _).bind ((condition.walk_does _).bind
        ((walkOptionExpr_does increment _).bind ((body.walk_does _).bind (.endScope _)))))
    rw [List.nil_append, List.append_nil, ← List.append_assoc, ← List.append_assoc,
      Resolver.scopes_after, Stmt.findings_tail, Resolver.scopes_after, Resolver.scopes_after,
      Resolver.scopes_after, optionFindings_tail] at h
    exact h
  | .block body, r => by
    have h := (Does.beginScope r).bind (v := fun _ => walkAll body >>= fun _ => Walk.endScope)
      ((walkAll_does body _).bind (.endScope _))
    rw [List.nil_append, List.append_nil, Resolver.scopes_after, bodyFindings_tail] at h
    exact h
  | .ret keyword value, r => (Does.returns keyword _ r).bind (walkOptionExpr_does value _)
  | .leave _, r => .nothing r
  | .next _, r => .nothing r

theorem walkAll_does : ∀ (body : List Stmt) (r : Resolver),
    Does (walkAll body) r (bodyFindings r.ctx r.scopes body)
  | [], r => .nothing r
  | s :: rest, r => (s.walk_does r).bind (walkAll_does rest _)

theorem walkOption_does : ∀ (s : Option Stmt) (r : Resolver),
    Does (walkOption s) r (optionFindings r.ctx r.scopes s)
  | none, r => .nothing r
  | some s, r => s.walk_does r

theorem walkOptionExpr_does : ∀ (e : Option Expr) (r : Resolver),
    Does (walkOptionExpr e) r (r.scopes, optionExprFindings r.ctx r.scopes e)
  | none, r => .nothing r
  | some e, r => e.walk_does r

end

/-- **What scoping finds out about a program**, outside all functions, classes and scopes. -/
theorem resolve_eq (program : List Stmt) :
    resolve program = (bodyFindings ⟨.none, .none⟩ [] program).2 := by
  unfold resolve
  rw [walkAll_does program Resolver.initial]
  simp [Resolver.after, Resolver.initial, Resolver.ctx]

end Lox
