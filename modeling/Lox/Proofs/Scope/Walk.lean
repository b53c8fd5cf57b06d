import Lox.Proofs.Scope.Shapes

/-!
# The walk and the places it comes by

A walk carries scopes with flags; a place carries layers of names. This file ties the two together.

* `Covers scopes layers`: the scopes bind exactly the names of the layers.
* `Stmt.findings_fst`: **the scopes behind a statement** are those in front of it, and the name it
  declares. Nothing else of the context of a walk is ever changed.
* `Inside.findings`: what is found out about a part, at its place, is among what is found out about
  the whole; `Occurs.findings` says so for a program.
-/

namespace Lox

/-! ## 1. Scopes and layers -/

/-- Scopes bind exactly the names of some layers. -/
inductive Covers : Scopes → List Layer → Prop where
  | nil : Covers [] []
  | cons {s l scopes layers} (h : ∀ n, s.binds n = true ↔ n ∈ l.names) (hc : Covers scopes layers) :
      Covers (s :: scopes) (l :: layers)

theorem Bindings.binds_put {α : Type} (b : Bindings α) (n m : String) (a : α) :
    (b.put n a).binds m = true ↔ n = m ∨ b.binds m = true := by
  unfold Bindings.binds
  rw [find?_put]
  by_cases h : n = m
  · simp [h]
  · simp [h]

/-- A name brought into a scope that may have it already. -/
theorem Scope.binds_declared (s : Scope) (name n : String) :
    Bindings.binds (if s.binds name then s else s.put name false) n = true ↔
      s.binds n = true ∨ n = name := by
  by_cases hb : s.binds name = true
  · rw [if_pos hb]
    refine ⟨.inl, fun h => h.elim id fun hn => ?_⟩
    rw [hn]
    exact hb
  · rw [if_neg hb, Bindings.binds_put, or_comm, eq_comm (a := n)]

namespace Covers

variable {scopes : Scopes} {layers : List Layer} {p : Place}

theorem ne_nil_iff (h : Covers scopes layers) : scopes ≠ [] ↔ layers ≠ [] := by
  cases h with
  | nil => exact ⟨fun h => absurd rfl h, fun h => absurd rfl h⟩
  | cons => exact ⟨fun _ => List.cons_ne_nil _ _, fun _ => List.cons_ne_nil _ _⟩

theorem depthOf? (h : Covers scopes layers) (name : String) :
    scopes.depthOf? name = depthIn layers name := by
  induction h with
  | nil => rfl
  | @cons s l _ _ hs _ ih =>
    rw [Scopes.depthOf?, depthIn, ih]
    by_cases hl : name ∈ l.names
    · rw [if_pos hl, if_pos ((hs name).mpr hl)]
    · rw [if_neg hl, if_neg fun hb => hl ((hs name).mp hb)]

theorem declare (h : Covers scopes p.layers) (name : String) :
    Covers (scopes.declare name) (p.declare name).layers := by
  obtain ⟨ctx, layers⟩ := p
  cases h with
  | nil => exact .nil
  | @cons s l _ _ hs hc =>
    refine .cons (fun n => ?_) hc
    rw [Scope.binds_declared, hs n]
    show _ ↔ n ∈ l.names ++ [name]
    rw [List.mem_append, List.mem_singleton]

/-- A name brought in and completed. -/
theorem introduce (h : Covers scopes p.layers) (name : Token) :
    Covers (scopes.introduce name) (p.declare name.lexeme).layers := by
  obtain ⟨ctx, layers⟩ := p
  cases h with
  | nil => exact .nil
  | @cons s l _ _ hs hc =>
    refine .cons (fun n => ?_) hc
    rw [Bindings.binds_put, Scope.binds_declared, hs n]
    show _ ↔ n ∈ l.names ++ [name.lexeme]
    rw [List.mem_append, List.mem_singleton]
    exact ⟨fun h => h.elim (fun h => .inr h.symm) id, .inr⟩

theorem push (h : Covers scopes p.layers) (r : Region) :
    Covers ([] :: scopes) (p.push r []).layers :=
  .cons (fun _ => ⟨(nomatch ·), (nomatch ·)⟩) h

theorem ofMethods (h : Covers scopes p.layers) (s : Stmt) (superclass : Option Reference) :
    Covers (scopes.ofMethods superclass) (p.inClass s superclass).layers := by
  have hone : ∀ (name n : String), Bindings.binds [(name, true)] n = true ↔ n ∈ [name] := by
    intro name n
    rw [List.mem_singleton]
    unfold Bindings.binds Bindings.find?
    by_cases h : name = n
    · simp [h]
    · simp [h, Ne.symm h]
  cases superclass with
  | none => exact .cons (hone _) h
  | some ref => exact .cons (hone _) (.cons (hone _) h)

end Covers

/-! ## 2. The scopes behind a statement -/

/-- Scopes with one more name, if any, in the innermost. -/
def Scopes.adding (scopes : Scopes) : Option String → Scopes
  | none => scopes
  | some name => (scopes.declare name).define name

/-- Places behind a statement. -/
def Place.behind (p : Place) : Option String → Place
  | none => p
  | some name => p.declare name

/-- **The scopes behind a statement** are those in front of it, and the name it declares. -/
theorem Stmt.findings_fst {P : Token → Prop} (ctx : Context) :
    ∀ (s : Stmt) (scopes : Scopes), s.Shaped P →
      (s.findings ctx scopes).1 = scopes.adding s.declared?
  | .expr _, scopes, _ => by rw [Stmt.findings]; rfl
  | .varDecl _ _, scopes, _ => by rw [Stmt.findings]; rfl
  | .funDecl (.mk _ _), scopes, _ => by rw [Stmt.findings]; rfl
  | .classDecl _ _ _, scopes, _ => by rw [Stmt.findings]; rfl
  | .branch c yes none, scopes, h => by
    have hyes := findings_fst ctx yes scopes h.2.1
    rw [h.2.2.1] at hyes
    rw [Stmt.findings]
    exact hyes
  | .branch c yes (some no), scopes, h => by
    have hyes := findings_fst ctx yes scopes h.2.1
    have hno := findings_fst ctx no scopes h.2.2.2.1
    rw [h.2.2.1] at hyes
    rw [h.2.2.2.2] at hno
    rw [Stmt.findings]
    show (no.findings ctx (yes.findings ctx scopes).1).1 = _
    rw [hyes]
    exact hno
  | .whileLoop c body, scopes, h => by
    have hbody := findings_fst ctx body scopes h.2.1
    rw [h.2.2] at hbody
    rw [Stmt.findings]
    exact hbody
  | .forLoop _ _ _ _, scopes, _ => by rw [Stmt.findings]; rfl
  | .block _, scopes, _ => by rw [Stmt.findings]; rfl
  | .ret _ _, scopes, _ => by rw [Stmt.findings]; rfl
  | .leave _, scopes, _ => by rw [Stmt.findings]; rfl
  | .next _, scopes, _ => by rw [Stmt.findings]; rfl

theorem Covers.adding {scopes : Scopes} {p : Place} (h : Covers scopes p.layers) :
    ∀ name, Covers (scopes.adding name) (p.behind name).layers
  | none => h
  | some name => h.introduce ⟨.identifier, name, ⟨0, 0⟩⟩

/-! ## 3. Lists of statements -/

section Lists

variable {P : Token → Prop} {ctx : Context} {scopes : Scopes}

theorem bodyFindings_cons (s : Stmt) (rest : List Stmt) :
    bodyFindings ctx scopes (s :: rest) =
      ((bodyFindings ctx (s.findings ctx scopes).1 rest).1,
        (s.findings ctx scopes).2 ++ (bodyFindings ctx (s.findings ctx scopes).1 rest).2) := by
  rw [bodyFindings]

/-- Outside all scopes nothing is brought in. -/
theorem bodyFindings_top {ss : List Stmt} (hs : stmtsShaped P ss) :
    (bodyFindings ctx [] ss).1 = [] := by
  induction ss with
  | nil => rfl
  | cons s rest ih =>
    rw [bodyFindings_cons, s.findings_fst ctx [] hs.1]
    cases s.declared? <;> exact ih hs.2

/-- Behind statements in a scope with some names. -/
theorem Covers.body (ctx : Context) {ss : List Stmt} {p : Place} {r : Region} {names : List String}
    (h : Covers scopes (p.push r names).layers) (hs : stmtsShaped P ss) :
    Covers (bodyFindings ctx scopes ss).1 (p.push r (names ++ declaredBy ss)).layers := by
  induction ss generalizing scopes names with
  | nil =>
    rw [bodyFindings]
    simpa [declaredBy] using h
  | cons s rest ih =>
    rw [bodyFindings_cons, s.findings_fst ctx scopes hs.1]
    have hadd := h.adding s.declared?
    cases hd : s.declared? with
    | none =>
      rw [hd] at hadd
      have hrest := ih hadd hs.2
      simpa [declaredBy, hd] using hrest
    | some name =>
      rw [hd] at hadd
      have hrest : Covers _ (p.push r ((names ++ [name]) ++ declaredBy rest)).layers :=
        ih hadd hs.2
      simpa [declaredBy, hd] using hrest

/-- Each statement is walked with the names in front of it. -/
theorem findings_mem_body {before after : List Stmt} {s : Stmt} {f : Finding}
    (h : f ∈ (s.findings ctx (bodyFindings ctx scopes before).1).2) :
    f ∈ (bodyFindings ctx scopes (before ++ s :: after)).2 := by
  induction before generalizing scopes with
  | nil =>
    rw [List.nil_append, bodyFindings_cons]
    rw [bodyFindings] at h
    exact List.mem_append_left _ h
  | cons t rest ih =>
    rw [List.cons_append, bodyFindings_cons]
    rw [bodyFindings_cons] at h
    exact List.mem_append_right _ (ih h)

theorem Covers.introduceAll {params : List Token} {p : Place} {r : Region} {names : List String}
    (h : Covers scopes (p.push r names).layers) :
    Covers (scopes.introduceAll params).1
      (p.push r (names ++ params.map Token.lexeme)).layers := by
  induction params generalizing scopes names with
  | nil => simpa [Scopes.introduceAll] using h
  | cons t rest ih =>
    have hrest : Covers _
        (p.push r ((names ++ [t.lexeme]) ++ rest.map Token.lexeme)).layers := ih (h.introduce t)
    simpa [Scopes.introduceAll] using hrest

end Lists

/-! ## 4. Parts of a program -/

/-- What scoping finds out about a part of a program. -/
def Node.findings (ctx : Context) (scopes : Scopes) : Node → List Finding
  | .expr e => e.findings ctx scopes
  | .code c => c.findings ctx scopes
  | .stmt s => (s.findings ctx scopes).2

theorem mem_exprFindings {ctx : Context} {scopes : Scopes} {es : List Expr} {f : Finding} :
    f ∈ exprFindings ctx scopes es ↔ ∃ e ∈ es, f ∈ e.findings ctx scopes := by
  induction es with
  | nil => simp [exprFindings]
  | cons e rest ih => simp [exprFindings, ih]

theorem mem_methodFindings {ctx : Context} {scopes : Scopes} {methods : List FunDecl}
    {f : Finding} : f ∈ methodFindings ctx scopes methods ↔
      ∃ m c, FunDecl.mk m c ∈ methods ∧
        f ∈ c.findings { ctx with function := .ofMethod m } scopes := by
  induction methods with
  | nil => simp [methodFindings]
  | cons d rest ih =>
    obtain ⟨n, k⟩ := d
    rw [methodFindings, List.mem_append, ih]
    constructor
    · rintro (h | ⟨m, c, hm, h⟩)
      · exact ⟨n, k, List.mem_cons_self, h⟩
      · exact ⟨m, c, List.mem_cons_of_mem _ hm, h⟩
    · rintro ⟨m, c, hm, h⟩
      cases hm with
      | head => exact .inl h
      | tail _ hm => exact .inr ⟨m, c, hm, h⟩

@[simp] theorem Place.declare_ctx (p : Place) (name : String) : (p.declare name).ctx = p.ctx := by
  obtain ⟨ctx, layers⟩ := p
  cases layers <;> rfl

section Equations

variable (ctx : Context) (scopes : Scopes)

theorem findings_code (params : List Token) (body : List Stmt) :
    (Code.mk params body).findings ctx scopes =
      (Scopes.introduceAll ([] :: scopes) params).2 ++
        (bodyFindings ctx (Scopes.introduceAll ([] :: scopes) params).1 body).2 := by
  rw [Code.findings]

theorem findings_branch (condition : Expr) (yes : Stmt) (no : Option Stmt) :
    ((Stmt.branch condition yes no).findings ctx scopes).2 =
      condition.findings ctx scopes ++ (yes.findings ctx scopes).2 ++
        (optionFindings ctx (yes.findings ctx scopes).1 no).2 := by
  rw [Stmt.findings]

theorem findings_whileLoop (condition : Expr) (body : Stmt) :
    ((Stmt.whileLoop condition body).findings ctx scopes).2 =
      condition.findings ctx scopes ++ (body.findings ctx scopes).2 := by
  rw [Stmt.findings]

theorem findings_forLoop (init : Option Stmt) (condition : Expr) (increment : Option Expr)
    (body : Stmt) :
    ((Stmt.forLoop init condition increment body).findings ctx scopes).2 =
      (optionFindings ctx ([] :: scopes) init).2 ++
        condition.findings ctx (optionFindings ctx ([] :: scopes) init).1 ++
        optionExprFindings ctx (optionFindings ctx ([] :: scopes) init).1 increment ++
        (body.findings ctx (optionFindings ctx ([] :: scopes) init).1).2 := by
  rw [Stmt.findings]

end Equations

/-- The scope of a loop, behind what it starts with. -/
theorem Covers.start {P : Token → Prop} (ctx : Context) {scopes : Scopes} {p : Place} {r : Region}
    {init : Option Stmt} (h : Covers scopes p.layers) (hs : startShaped P init) :
    Covers (optionFindings ctx ([] :: scopes) init).1
      (p.push r (declaredBy init.toList)).layers := by
  cases init with
  | none =>
    rw [optionFindings]
    exact h.push r
  | some s =>
    have hbody := (h.push r).body ctx (show stmtsShaped P [s] from ⟨hs, trivial⟩)
    rwa [bodyFindings_cons, bodyFindings] at hbody

/-- **What is found out about a part** is found out about the whole. -/
theorem Inside.findings {P : Token → Prop} {node child : Node} {p q : Place} {scopes : Scopes}
    (h : Inside node p child q) (hs : node.Shaped P) (hc : Covers scopes p.layers) :
    ∃ inner, Covers inner q.layers ∧
      ∀ f ∈ child.findings q.ctx inner, f ∈ node.findings p.ctx scopes := by
  cases h with
  | group | operand | getObject | lambda | expression =>
    exact ⟨scopes, hc, fun f hf => hf⟩
  | binaryLeft | logicalLeft | callee | assigned | setValue | whileCondition =>
    exact ⟨scopes, hc, fun f hf => List.mem_append_left _ hf⟩
  | binaryRight | logicalRight | choiceNo | setObject =>
    exact ⟨scopes, hc, fun f hf => List.mem_append_right _ hf⟩
  | choiceCondition =>
    exact ⟨scopes, hc, fun f hf => List.mem_append_left _ (List.mem_append_left _ hf)⟩
  | choiceYes =>
    exact ⟨scopes, hc, fun f hf => List.mem_append_left _ (List.mem_append_right _ hf)⟩
  | argument he =>
    exact ⟨scopes, hc, fun f hf => List.mem_append_right _ (mem_exprFindings.mpr ⟨_, he, hf⟩)⟩
  | @body _ params before s after =>
    have hparams : Covers (Scopes.introduceAll ([] :: scopes) params).1 _ :=
      (hc.push (.call (.mk params (before ++ s :: after)))).introduceAll
    have hbefore : stmtsShaped P before := stmtsShaped_before (And.right hs)
    exact ⟨_, hparams.body p.ctx hbefore, fun f hf => List.mem_append_right _ (findings_mem_body hf)⟩
  | initializer =>
    refine ⟨_, hc.declare _, fun f hf => List.mem_append_right _ ?_⟩
    rwa [Place.declare_ctx] at hf
  | function =>
    refine ⟨_, hc.introduce _, fun f hf => List.mem_append_right _ ?_⟩
    rwa [Place.inFunction, Place.declare_ctx] at hf
  | superclass =>
    refine ⟨_, hc.introduce _, fun f hf => ?_⟩
    refine List.mem_append_left _ (List.mem_append_right _ (List.mem_append_right _ ?_))
    exact hf
  | @method _ name superclass methods m c hm =>
    refine ⟨_, (hc.introduce name).ofMethods _ superclass, fun f hf =>
      List.mem_append_right _ (mem_methodFindings.mpr ⟨m, c, hm, ?_⟩)⟩
    rwa [Place.inFunction, Place.inClass, Place.declare_ctx] at hf
  | branchCondition =>
    refine ⟨scopes, hc, fun f hf => ?_⟩
    rw [Node.findings, findings_branch]
    exact List.mem_append_left _ (List.mem_append_left _ hf)
  | branchYes =>
    refine ⟨scopes, hc, fun f hf => ?_⟩
    rw [Node.findings, findings_branch]
    exact List.mem_append_left _ (List.mem_append_right _ hf)
  | @branchNo _ c yes no =>
    refine ⟨scopes, hc, fun f hf => ?_⟩
    have hyes := yes.findings_fst p.ctx scopes (And.left (And.right hs))
    rw [(And.left (And.right (And.right hs)) : yes.declared? = none)] at hyes
    rw [Node.findings, findings_branch, hyes]
    exact List.mem_append_right _ hf
  | whileBody =>
    refine ⟨scopes, hc, fun f hf => ?_⟩
    rw [Node.findings, findings_whileLoop]
    exact List.mem_append_right _ hf
  | loopStart =>
    refine ⟨_, hc.push _, fun f hf => ?_⟩
    rw [Node.findings, findings_forLoop]
    exact List.mem_append_left _ (List.mem_append_left _ (List.mem_append_left _ hf))
  | loopCondition =>
    refine ⟨_, hc.start p.ctx (And.left hs), fun f hf => ?_⟩
    rw [Node.findings, findings_forLoop]
    exact List.mem_append_left _ (List.mem_append_left _ (List.mem_append_right _ hf))
  | loopIncrement =>
    refine ⟨_, hc.start p.ctx (And.left hs), fun f hf => ?_⟩
    rw [Node.findings, findings_forLoop]
    exact List.mem_append_left _ (List.mem_append_right _ hf)
  | loopBody =>
    refine ⟨_, hc.start p.ctx (And.left hs), fun f hf => ?_⟩
    rw [Node.findings, findings_forLoop]
    exact List.mem_append_right _ hf
  | @block _ before s after =>
    have hbefore : stmtsShaped P before := stmtsShaped_before hs
    exact ⟨_, (hc.push _).body p.ctx hbefore, fun f hf => findings_mem_body hf⟩
  | returned =>
    refine ⟨scopes, hc, fun f hf => List.mem_append_right _ hf⟩

/-- **What is found out about a program** says so of each of its parts. -/
theorem Occurs.findings {P : Token → Prop} {program : List Stmt} {node : Node} {p : Place}
    (h : Occurs program node p) (hs : stmtsShaped P program) :
    ∃ scopes, Covers scopes p.layers ∧
      ∀ f ∈ node.findings p.ctx scopes, f ∈ resolve program := by
  induction h with
  | @top s hmem =>
    obtain ⟨before, after, rfl⟩ := List.append_of_mem hmem
    have hbefore : stmtsShaped P before := stmtsShaped_before hs
    refine ⟨[], .nil, fun f hf => ?_⟩
    rw [resolve_eq]
    refine findings_mem_body ?_
    rwa [bodyFindings_top hbefore]
  | inside h hi ih =>
    obtain ⟨scopes, hc, hfound⟩ := ih
    obtain ⟨inner, hinner, hpart⟩ := hi.findings (h.shaped hs) hc
    exact ⟨inner, hinner, fun f hf => hfound f (hpart f hf)⟩

end Lox
