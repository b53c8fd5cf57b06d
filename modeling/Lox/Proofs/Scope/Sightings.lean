import Lox.Proofs.Scope.Walk

/-!
# Where the walk sees a reference

The walk of `Lox.Scope.Resolve` comes by every reference of a program, by those in copied parts more
than once, and notes a distance for some of them. Here the walk is followed for its references alone.

* `Sighting`: a reference that the walk comes by, with the context and the scopes around it there.
  `Sighting.depth?` is the distance that is noted, if one is.
* `Expr.sightings`, `Stmt.sightings`, `programSightings`: the sightings in the order of the walk.
  `looked_findings`: what is looked up at them is what the walk finds out, and so each thing found out
  about a reference was looked up at a sighting of it (`sighting_of_reference`).
* `Sighted a b seen`: the sightings are of references from `a` up to `b`, and two sightings of one
  reference are the same.
* `derives_sighted`: **a phrase is seen so**, whatever is around it. A copied part is walked in the
  context and the scopes of the part it is a copy of, since no expression changes either.
-/

namespace Lox

/-! ## 1. Sightings -/

/-- What a reference is used as. -/
inductive Usage where
  | name | this | super
deriving DecidableEq

/-- **A reference that the walk comes by**, and what is around it there. -/
structure Sighting where
  usage : Usage
  ref : Reference
  ctx : Context
  scopes : Scopes

namespace Sighting

/-- Whether the reference is looked up. A `this` or `super` that is complained of is not. -/
def looks (v : Sighting) : Bool :=
  match v.usage, v.ctx.ofClass with
  | .name, _ | .this, .base | .this, .derived | .super, .derived => true
  | _, _ => false

/-- The reference with what is found where it is looked up. -/
def looked? (v : Sighting) : Option (Reference × Option Nat) :=
  if v.looks then some (v.ref, v.scopes.depthOf? v.ref.name) else none

/-- **The distance that is noted**: none for a global name, and none where nothing is looked up. -/
def depth? (v : Sighting) : Option Nat := v.looked?.bind Prod.snd

end Sighting

mutual

/-- The sightings in an expression, in the order of the walk. -/
def Expr.sightings (ctx : Context) (scopes : Scopes) : Expr → List Sighting
  | .literal _ => []
  | .group inner => inner.sightings ctx scopes
  | .unary _ operand => operand.sightings ctx scopes
  | .binary left _ right => left.sightings ctx scopes ++ right.sightings ctx scopes
  | .logical left _ right => left.sightings ctx scopes ++ right.sightings ctx scopes
  | .conditional condition yes no =>
    condition.sightings ctx scopes ++ yes.sightings ctx scopes ++ no.sightings ctx scopes
  | .read ref => [⟨.name, ref, ctx, scopes⟩]
  | .assign ref value => value.sightings ctx scopes ++ [⟨.name, ref, ctx, scopes⟩]
  | .call callee _ args => callee.sightings ctx scopes ++ exprSightings ctx scopes args
  | .get object _ => object.sightings ctx scopes
  | .set object _ value => value.sightings ctx scopes ++ object.sightings ctx scopes
  | .this ref => [⟨.this, ref, ctx, scopes⟩]
  | .super ref _ => [⟨.super, ref, ctx, scopes⟩]
  | .lambda code => code.sightings { ctx with function := .function } scopes

/-- The sightings in expressions. -/
def exprSightings (ctx : Context) (scopes : Scopes) : List Expr → List Sighting
  | [] => []
  | e :: rest => e.sightings ctx scopes ++ exprSightings ctx scopes rest

/-- The sightings in an expression that may be missing. -/
def optionExprSightings (ctx : Context) (scopes : Scopes) : Option Expr → List Sighting
  | none => []
  | some e => e.sightings ctx scopes

/-- The sightings in a function. -/
def Code.sightings (ctx : Context) (scopes : Scopes) : Code → List Sighting
  | .mk params body => bodySightings ctx (Scopes.introduceAll ([] :: scopes) params).1 body

/-- The sightings in methods. -/
def methodSightings (ctx : Context) (scopes : Scopes) : List FunDecl → List Sighting
  | [] => []
  | .mk name code :: rest =>
    code.sightings { ctx with function := .ofMethod name } scopes ++ methodSightings ctx scopes rest

/-- The sightings in a statement, in the order of the walk. -/
def Stmt.sightings (ctx : Context) (scopes : Scopes) : Stmt → List Sighting
  | .expr e => e.sightings ctx scopes
  | .varDecl name init => init.sightings ctx (scopes.declare name.lexeme)
  | .funDecl (.mk name code) =>
    code.sightings { ctx with function := .function } (scopes.introduce name)
  | .classDecl name superclass methods =>
    let inner := scopes.introduce name
    superclass.toList.map (⟨.name, ·, ctx.inClass superclass, inner⟩)
      ++ methodSightings (ctx.inClass superclass) (inner.ofMethods superclass) methods
  | .branch condition yes no =>
    condition.sightings ctx scopes ++ yes.sightings ctx scopes
      ++ optionSightings ctx (yes.findings ctx scopes).1 no
  | .whileLoop condition body => condition.sightings ctx scopes ++ body.sightings ctx scopes
  | .forLoop init condition increment body =>
    let inner := (optionFindings ctx ([] :: scopes) init).1
    optionSightings ctx ([] :: scopes) init ++ condition.sightings ctx inner
      ++ optionExprSightings ctx inner increment ++ body.sightings ctx inner
  | .block body => bodySightings ctx ([] :: scopes) body
  | .ret _ value => optionExprSightings ctx scopes value
  | .leave _ => []
  | .next _ => []

/-- The sightings in statements, each in the scopes behind those in front of it. -/
def bodySightings (ctx : Context) (scopes : Scopes) : List Stmt → List Sighting
  | [] => []
  | s :: rest => s.sightings ctx scopes ++ bodySightings ctx (s.findings ctx scopes).1 rest

/-- The sightings in a statement that may be missing. -/
def optionSightings (ctx : Context) (scopes : Scopes) : Option Stmt → List Sighting
  | none => []
  | some s => s.sightings ctx scopes

end

/-- The sightings in a program, outside all functions, classes and scopes. -/
def programSightings (program : List Stmt) : List Sighting :=
  bodySightings ⟨.none, .none⟩ [] program

/-! ## 2. Sightings and findings -/

/-- The reference that a finding is about, with what was found. -/
def Finding.reference? : Finding → Option (Reference × Option Nat)
  | .reference ref depth => some (ref, depth)
  | .complaint _ _ => none

/-- The references that some findings are about, in order. -/
def lookedUp (found : List Finding) : List (Reference × Option Nat) := found.filterMap Finding.reference?

/-- What is looked up at some sightings, in order. -/
def lookedAt (seen : List Sighting) : List (Reference × Option Nat) := seen.filterMap Sighting.looked?

section Findings

variable {found more : List Finding} {seen other : List Sighting} {ctx : Context} {scopes : Scopes}

theorem lookedUp_append : lookedUp (found ++ more) = lookedUp found ++ lookedUp more :=
  List.filterMap_append

theorem lookedAt_append : lookedAt (seen ++ other) = lookedAt seen ++ lookedAt other :=
  List.filterMap_append

theorem lookedUp_complaintsOn (scopes : Scopes) (name : Token) : lookedUp (scopes.complaintsOn name) = [] := by
  unfold Scopes.complaintsOn
  split <;> rfl

theorem lookedUp_introduceAll (params : List Token) (scopes : Scopes) :
    lookedUp (scopes.introduceAll params).2 = [] := by
  induction params generalizing scopes with
  | nil => rfl
  | cons name rest ih =>
    show lookedUp (scopes.complaintsOn name ++ ((scopes.introduce name).introduceAll rest).2) = []
    rw [lookedUp_append, lookedUp_complaintsOn, ih]
    rfl

theorem lookedUp_returnComplaints (ctx : Context) (keyword : Token) (hasValue : Bool) :
    lookedUp (returnComplaints ctx keyword hasValue) = [] := by
  unfold returnComplaints
  rw [lookedUp_append]
  split <;> split <;> rfl

theorem lookedUp_readFindings (scopes : Scopes) (ref : Reference) :
    lookedUp (scopes.readFindings ref) = [(ref, scopes.depthOf? ref.name)] := by
  unfold Scopes.readFindings
  split <;> rfl

theorem lookedUp_superclassFindings (scopes : Scopes) (name : Token) (ctx : Context)
    (superclass : Option Reference) : lookedUp (scopes.superclassFindings name superclass)
      = lookedAt (superclass.toList.map (⟨.name, ·, ctx, scopes⟩)) := by
  cases superclass with
  | none => rfl
  | some ref =>
    show lookedUp ((if _ then _ else _) ++ scopes.readFindings ref) = _
    rw [lookedUp_append, lookedUp_readFindings]
    split <;> rfl

theorem mem_lookedUp {ref : Reference} {depth : Option Nat} :
    (ref, depth) ∈ lookedUp found ↔ .reference ref depth ∈ found := by
  refine List.mem_filterMap.trans ⟨?_, fun h => ⟨_, h, rfl⟩⟩
  rintro ⟨_ | _, hf, heq⟩ <;> cases heq
  exact hf

/-- What was found out about a reference was looked up at a sighting of it. -/
theorem sighting_of_reference (h : lookedUp found = lookedAt seen) {ref : Reference}
    {depth : Option Nat} (hr : .reference ref depth ∈ found) :
    ∃ v ∈ seen, v.ref = ref ∧ v.depth? = depth := by
  have hmem := mem_lookedUp.mpr hr
  rw [h] at hmem
  obtain ⟨v, hv, hlooked⟩ := List.mem_filterMap.mp hmem
  refine ⟨v, hv, ?_, by rw [Sighting.depth?, hlooked]; rfl⟩
  unfold Sighting.looked? at hlooked
  split at hlooked <;> cases hlooked
  rfl

/-- A distance that is noted at a sighting is found out. -/
theorem reference_of_sighting (h : lookedUp found = lookedAt seen) {v : Sighting} (hv : v ∈ seen)
    {k : Nat} (hk : v.depth? = some k) : .reference v.ref (some k) ∈ found := by
  refine mem_lookedUp.mp (h ▸ List.mem_filterMap.mpr ⟨v, hv, ?_⟩)
  unfold Sighting.depth? Sighting.looked? at hk
  unfold Sighting.looked?
  split at hk
  · next hlooks => rw [if_pos hlooks, show v.scopes.depthOf? v.ref.name = some k from hk]
  · cases hk

end Findings

mutual

theorem Expr.looked_findings (ctx : Context) (scopes : Scopes) : ∀ e : Expr,
    lookedUp (e.findings ctx scopes) = lookedAt (e.sightings ctx scopes)
  | .literal _ => rfl
  | .group inner => inner.looked_findings ctx scopes
  | .unary _ operand => operand.looked_findings ctx scopes
  | .binary left _ right | .logical left _ right => by
    rw [Expr.findings, Expr.sightings, lookedUp_append, lookedAt_append,
      left.looked_findings ctx scopes, right.looked_findings ctx scopes]
  | .conditional condition yes no => by
    rw [Expr.findings, Expr.sightings, lookedUp_append, lookedUp_append, lookedAt_append,
      lookedAt_append, condition.looked_findings ctx scopes, yes.looked_findings ctx scopes,
      no.looked_findings ctx scopes]
  | .read ref => lookedUp_readFindings scopes ref
  | .assign ref value => by
    rw [Expr.findings, Expr.sightings, lookedUp_append, lookedAt_append,
      value.looked_findings ctx scopes]
    rfl
  | .call callee _ args => by
    rw [Expr.findings, Expr.sightings, lookedUp_append, lookedAt_append,
      callee.looked_findings ctx scopes, exprs_looked_findings ctx scopes args]
  | .get object _ => object.looked_findings ctx scopes
  | .set object _ value => by
    rw [Expr.findings, Expr.sightings, lookedUp_append, lookedAt_append,
      value.looked_findings ctx scopes, object.looked_findings ctx scopes]
  | .this ref => by
    obtain ⟨_, ofClass⟩ := ctx
    cases ofClass <;> rfl
  | .super ref _ => by
    obtain ⟨_, ofClass⟩ := ctx
    cases ofClass <;> rfl
  | .lambda code => code.looked_findings _ scopes

theorem exprs_looked_findings (ctx : Context) (scopes : Scopes) : ∀ es : List Expr,
    lookedUp (exprFindings ctx scopes es) = lookedAt (exprSightings ctx scopes es)
  | [] => rfl
  | e :: rest => by
    rw [exprFindings, exprSightings, lookedUp_append, lookedAt_append,
      e.looked_findings ctx scopes, exprs_looked_findings ctx scopes rest]

theorem optionExpr_looked_findings (ctx : Context) (scopes : Scopes) : ∀ o : Option Expr,
    lookedUp (optionExprFindings ctx scopes o) = lookedAt (optionExprSightings ctx scopes o)
  | none => rfl
  | some e => e.looked_findings ctx scopes

theorem Code.looked_findings (ctx : Context) (scopes : Scopes) : ∀ c : Code,
    lookedUp (c.findings ctx scopes) = lookedAt (c.sightings ctx scopes)
  | .mk params body => by
    rw [findings_code, Code.sightings, lookedUp_append, lookedUp_introduceAll, List.nil_append,
      body_looked_findings ctx _ body]

theorem methods_looked_findings (ctx : Context) (scopes : Scopes) : ∀ fs : List FunDecl,
    lookedUp (methodFindings ctx scopes fs) = lookedAt (methodSightings ctx scopes fs)
  | [] => rfl
  | .mk name code :: rest => by
    rw [methodFindings, methodSightings, lookedUp_append, lookedAt_append,
      code.looked_findings _ scopes, methods_looked_findings ctx scopes rest]

/-- **What is looked up at the sightings** is what the walk finds out. -/
theorem Stmt.looked_findings (ctx : Context) (scopes : Scopes) : ∀ s : Stmt,
    lookedUp (s.findings ctx scopes).2 = lookedAt (s.sightings ctx scopes)
  | .expr e => e.looked_findings ctx scopes
  | .varDecl name init => by
    show lookedUp (scopes.complaintsOn name ++ init.findings ctx (scopes.declare name.lexeme)) = _
    rw [lookedUp_append, lookedUp_complaintsOn, List.nil_append, init.looked_findings ctx _]
    rfl
  | .funDecl (.mk name code) => by
    show lookedUp (scopes.complaintsOn name ++ code.findings _ (scopes.introduce name)) = _
    rw [lookedUp_append, lookedUp_complaintsOn, List.nil_append, code.looked_findings _ _]
    rfl
  | .classDecl name superclass methods => by
    show lookedUp (scopes.complaintsOn name
      ++ (scopes.introduce name).superclassFindings name superclass ++ methodFindings _ _ methods) = _
    rw [lookedUp_append, lookedUp_append, lookedUp_complaintsOn, List.nil_append, Stmt.sightings,
      lookedAt_append, methods_looked_findings _ _ methods, lookedUp_superclassFindings _ _ _]
  | .branch condition yes no => by
    rw [findings_branch, Stmt.sightings, lookedUp_append, lookedUp_append, lookedAt_append,
      lookedAt_append, condition.looked_findings ctx scopes, yes.looked_findings ctx scopes,
      option_looked_findings ctx _ no]
  | .whileLoop condition body => by
    rw [findings_whileLoop, Stmt.sightings, lookedUp_append, lookedAt_append,
      condition.looked_findings ctx scopes, body.looked_findings ctx scopes]
  | .forLoop init condition increment body => by
    rw [findings_forLoop, Stmt.sightings, lookedUp_append, lookedUp_append, lookedUp_append,
      lookedAt_append, lookedAt_append, lookedAt_append, option_looked_findings ctx _ init,
      condition.looked_findings ctx _, optionExpr_looked_findings ctx _ increment,
      body.looked_findings ctx _]
  | .block body => body_looked_findings ctx _ body
  | .ret keyword value => by
    show lookedUp (returnComplaints ctx keyword value.isSome ++ optionExprFindings ctx scopes value) = _
    rw [lookedUp_append, lookedUp_returnComplaints, List.nil_append,
      optionExpr_looked_findings ctx scopes value]
    rfl
  | .leave _ => rfl
  | .next _ => rfl

theorem body_looked_findings (ctx : Context) (scopes : Scopes) : ∀ ss : List Stmt,
    lookedUp (bodyFindings ctx scopes ss).2 = lookedAt (bodySightings ctx scopes ss)
  | [] => rfl
  | s :: rest => by
    rw [bodyFindings_cons, bodySightings, lookedUp_append, lookedAt_append,
      s.looked_findings ctx scopes, body_looked_findings ctx _ rest]

theorem option_looked_findings (ctx : Context) (scopes : Scopes) : ∀ o : Option Stmt,
    lookedUp (optionFindings ctx scopes o).2 = lookedAt (optionSightings ctx scopes o)
  | none => rfl
  | some s => s.looked_findings ctx scopes

end

/-! ## 3. What the rules derive is seen alike -/

/-- **The sightings are of references from `a` up to `b`**, and two of one reference are the same. -/
structure Sighted (a b : Nat) (seen : List Sighting) : Prop where
  range : ∀ v ∈ seen, a ≤ v.ref.id.index ∧ v.ref.id.index < b
  same : ∀ v ∈ seen, ∀ v' ∈ seen, v.ref.id = v'.ref.id → v = v'

namespace Sighted

variable {a b c : Nat} {seen other : List Sighting}

theorem nil : Sighted a b [] :=
  ⟨fun _ h => absurd h List.not_mem_nil, fun _ h => absurd h List.not_mem_nil⟩

theorem of_subset (h : Sighted a b seen) (hs : other ⊆ seen) : Sighted a b other :=
  ⟨fun v hv => h.range v (hs hv), fun v hv v' hv' => h.same v (hs hv) v' (hs hv')⟩

theorem mono {a' b' : Nat} (h : Sighted a b seen) (ha : a' ≤ a) (hb : b ≤ b') :
    Sighted a' b' seen := by
  refine ⟨fun v hv => ?_, h.same⟩
  have := h.range v hv
  omega

/-- References of different stretches are different. -/
theorem apart (h : Sighted a b seen) (h' : Sighted b c other) {v v' : Sighting} (hv : v ∈ seen)
    (hv' : v' ∈ other) : v.ref.id ≠ v'.ref.id := fun hid => by
  have hlt := (h.range v hv).2
  have hle := (h'.range v' hv').1
  rw [hid] at hlt
  omega

theorem append (h : Sighted a b seen) (h' : Sighted b c other) (hab : a ≤ b) (hbc : b ≤ c) :
    Sighted a c (seen ++ other) := by
  refine ⟨List.forall_mem_append.mpr ⟨(h.mono (Nat.le_refl a) hbc).range,
    (h'.mono hab (Nat.le_refl c)).range⟩, fun v hv v' hv' hid => ?_⟩
  rcases List.mem_append.mp hv with hv | hv <;> rcases List.mem_append.mp hv' with hv' | hv'
  · exact h.same v hv v' hv' hid
  · exact absurd hid (h.apart h' hv hv')
  · exact absurd hid.symm (h.apart h' hv' hv)
  · exact h'.same v hv v' hv' hid

/-- One reference, seen once. -/
theorem one (usage : Usage) (t : Token) (ctx : Context) (scopes : Scopes) :
    Sighted a (a + 1) [⟨usage, ⟨⟨a⟩, t⟩, ctx, scopes⟩] := by
  refine ⟨fun v hv => ?_, fun v hv v' hv' _ => ?_⟩
  · obtain rfl := List.mem_singleton.mp hv
    exact ⟨Nat.le_refl a, Nat.lt_succ_self a⟩
  · exact (List.mem_singleton.mp hv).trans (List.mem_singleton.mp hv').symm

end Sighted

namespace Syntax

/-- The sightings in a phrase of a symbol. -/
def treeSightings (ctx : Context) (scopes : Scopes) : (s : Symbol) → s.Tree → List Sighting
  | .primary, e | .call, e | .unary, e | .within _, e | .operand _, e | .conditional, e
  | .assignment, e | .expression, e => Expr.sightings ctx scopes e
  | .arguments, es | .argumentList, es => exprSightings ctx scopes es
  | .optionalExpression, o => optionExprSightings ctx scopes o
  | .names, _ | .parameterList, _ => []
  | .code, c => Code.sightings ctx scopes c
  | .function, f => Code.sightings ctx scopes (FunDecl.code f)
  | .methods, fs => methodSightings ctx scopes fs
  | .superclass, o => (Option.toList o).map (⟨.name, ·, ctx, scopes⟩)
  | .loopStart, o => optionSightings ctx scopes o
  | .variable, s | .expressionStatement, s | .statement _, s | .declaration _, s =>
    Stmt.sightings ctx scopes s
  | .declarations _, ss => bodySightings ctx scopes ss

/-- A phrase with the references from `a` up to `b` is seen so, whatever is around it. -/
def TreeSighted (a b : Nat) (s : Symbol) (x : s.Tree) : Prop :=
  a ≤ b ∧ ∀ ctx scopes, Sighted a b (treeSightings ctx scopes s x)

theorem TreeSighted.nothing {a : Nat} {s : Symbol} {x : s.Tree}
    (h : ∀ ctx scopes, treeSightings ctx scopes s x = []) : TreeSighted a a s x :=
  ⟨Nat.le_refl a, fun ctx scopes => by rw [h ctx scopes]; exact .nil⟩

/-- Two phrases behind each other. -/
theorem TreeSighted.append {a b c : Nat} {s t u : Symbol} {x : s.Tree} {y : t.Tree} {z : u.Tree}
    (hx : TreeSighted a b s x) (hy : TreeSighted b c t y)
    (h : ∀ ctx scopes, treeSightings ctx scopes u z
      = treeSightings ctx scopes s x ++ treeSightings ctx scopes t y) : TreeSighted a c u z :=
  ⟨Nat.le_trans hx.1 hy.1, fun ctx scopes => by
    rw [h ctx scopes]
    exact (hx.2 ctx scopes).append (hy.2 ctx scopes) hx.1 hy.1⟩

theorem getD_sightings (ctx : Context) (scopes : Scopes) (o : Option Expr) (l : Literal) :
    (o.getD (.literal l)).sightings ctx scopes = optionExprSightings ctx scopes o := by
  cases o <;> rfl

/-- What is seen in the value of an assignment is seen in its two sides. -/
theorem Assigned.sightings_subset {target value w : Expr} {equals : Token}
    (h : Assigned target equals value w) (ctx : Context) (scopes : Scopes) :
    w.sightings ctx scopes ⊆ target.sightings ctx scopes ++ value.sightings ctx scopes := by
  cases h with
  | plain => exact List.subset_append_right _ _
  | joined => exact fun v hv => hv

/-- **What the rules derive is seen so.** -/
theorem derives_sighted {g : ElseRule} {s : Symbol} {a b : Nat} {ts : List Token} {x : s.Tree}
    (h : Derives g s a ts x b) : TreeSighted a b s x := by
  induction h with
  | literal | noArguments | noExpression | lastName | noParameters | noMethods | noSuperclass
  | noStart | leave | next | noDeclarations | bareVariable => exact .nothing fun _ _ => rfl
  | callee _ ih | unsigned _ ih | tightest _ ih | tighter _ ih | single _ ih | noChoice _ ih
  | noAssignment _ ih | oneAssignment _ ih | someExpression _ ih | someArguments _ _ ih
  | someParameters _ _ ih | expressionStart _ ih | simple _ ih | statement _ ih
  | sign _ _ ih | property _ _ _ ih | group _ _ _ ih | function _ _ ih | expressionStatement _ _ ih
  | variableStart _ _ ih | varDecl _ _ ih | moreNames _ _ _ ih | ret _ _ _ ih => exact ih
  | this => exact ⟨Nat.le_succ _, fun ctx scopes => .one .this _ ctx scopes⟩
  | super => exact ⟨Nat.le_succ _, fun ctx scopes => .one .super _ ctx scopes⟩
  | name | superclass => exact ⟨Nat.le_succ _, fun ctx scopes => .one .name _ ctx scopes⟩
  | lambda _ _ ih => exact ⟨ih.1, fun ctx scopes => ih.2 _ scopes⟩
  | apply _ _ _ _ ihe ihargs => exact ihe.append ihargs fun _ _ => rfl
  | lastArgument _ ih =>
    exact ih.append (.nothing (s := .argumentList) (x := []) fun _ _ => rfl) fun _ _ => rfl
  | moreArguments _ _ _ ihe ihes => exact ihe.append ihes fun _ _ => rfl
  | @join _ _ _ l _ _ _ _ _ _ _ _ ihl ihr =>
    refine ihl.append ihr fun _ _ => ?_
    cases l <;> rfl
  | choice _ _ _ _ _ ihe ihyes ihno =>
    refine ⟨Nat.le_trans (Nat.le_trans ihe.1 ihyes.1) ihno.1, fun ctx scopes => ?_⟩
    have hfirst := (ihe.2 ctx scopes).append (ihyes.2 ctx scopes) ihe.1 ihyes.1
    exact hfirst.append (ihno.2 ctx scopes) (Nat.le_trans ihe.1 ihyes.1) ihno.1
  | @assign _ _ n _ _ _ _ _ _ hw ih =>
    have hle := ih.1
    refine ⟨by omega, fun ctx scopes => ?_⟩
    -- the target is seen in front of the value only where it is a part of it
    have htarget := (Sighted.one .name n ctx scopes).append (ih.2 ctx scopes) (Nat.le_succ _) ih.1
    exact (htarget.of_subset (hw.sightings_subset ctx scopes)).append (.one .name n ctx scopes)
      (by omega) (Nat.le_succ _)
  | set _ _ _ _ hw ihe ihv =>
    refine ⟨Nat.le_trans ihe.1 ihv.1, fun ctx scopes => ?_⟩
    -- the object is seen in the value once more if it is copied, in the same scopes
    refine ((ihe.2 ctx scopes).append (ihv.2 ctx scopes) ihe.1 ihv.1).of_subset fun v hv => ?_
    rcases List.mem_append.mp hv with hv | hv
    · exact hw.sightings_subset ctx scopes hv
    · exact List.mem_append_left _ hv
  | comma _ _ _ ihl ihr => exact ihl.append ihr fun _ _ => rfl
  | code _ _ _ _ _ _ ihns ihbody =>
    exact ⟨Nat.le_trans ihns.1 ihbody.1, fun ctx scopes =>
      (ihbody.2 ctx _).mono ihns.1 (Nat.le_refl _)⟩
  | @moreMethods _ _ _ _ f _ _ _ _ ihf ihfs =>
    obtain ⟨name, code⟩ := f
    exact ⟨Nat.le_trans ihf.1 ihfs.1, fun ctx scopes =>
      (ihf.2 _ scopes).append (ihfs.2 ctx scopes) ihf.1 ihfs.1⟩
  | initializedVariable _ _ _ _ ih => exact ⟨ih.1, fun ctx scopes => ih.2 ctx _⟩
  | forLoop _ _ _ _ _ _ _ _ ihinit ihcond ihinc ihbody =>
    have hinit := ihinit.1
    have hcond := ihcond.1
    have hinc := ihinc.1
    have hbody := ihbody.1
    refine ⟨by omega, fun ctx scopes => ?_⟩
    show Sighted _ _ ((Stmt.forLoop _ _ _ _).sightings ctx scopes)
    rw [Stmt.sightings, getD_sightings]
    refine .append (.append (.append (ihinit.2 ctx _) (ihcond.2 ctx _) hinit hcond)
      (ihinc.2 ctx _) ?_ hinc) (ihbody.2 ctx _) ?_ hbody <;> omega
  | whileLoop _ _ _ _ _ ihcond ihbody => exact ihcond.append ihbody fun _ _ => rfl
  | branch _ _ _ _ _ ihcond ihyes =>
    exact ihcond.append ihyes fun _ _ => List.append_nil _
  | branchElse _ _ _ _ _ _ _ _ ihcond ihyes ihno =>
    refine ⟨Nat.le_trans (Nat.le_trans ihcond.1 ihyes.1) ihno.1, fun ctx scopes => ?_⟩
    have hyes := (ihcond.2 ctx scopes).append (ihyes.2 ctx scopes) ihcond.1 ihyes.1
    exact hyes.append (ihno.2 ctx _) (Nat.le_trans ihcond.1 ihyes.1) ihno.1
  | block _ _ _ ih => exact ⟨ih.1, fun ctx scopes => ih.2 ctx ([] :: scopes)⟩
  | classDecl _ _ _ _ _ _ ihsup ihms =>
    refine ⟨Nat.le_trans ihsup.1 ihms.1, fun ctx scopes => ?_⟩
    exact (ihsup.2 _ _).append (ihms.2 _ _) ihsup.1 ihms.1
  | @funDecl _ _ _ _ _ f _ _ ih =>
    obtain ⟨name, code⟩ := f
    exact ⟨ih.1, fun ctx scopes => ih.2 _ _⟩
  | moreDeclarations _ _ ihs ihss =>
    exact ⟨Nat.le_trans ihs.1 ihss.1, fun ctx scopes =>
      (ihs.2 ctx scopes).append (ihss.2 ctx _) ihs.1 ihss.1⟩

end Syntax

end Lox
