import Mathlib
import Lox.Proofs.Scope.Walk

/-!
# The rules of scoping

Which programs scoping refuses, said of the places of a program and not of the walk.

* `ObeysRules`: the rules, one field each.
* `Lawful`: what they ask of one node at its place; `obeysRules_iff` gathers it.
* A complaint is about the node at hand or found inside it (`complaint_inside`), and a node without a
  complaint keeps the rules (`lawful_of_clean`). Both together are `resolve_accepts_exactly`.
-/

namespace Lox

/-! ## 1. The rules -/

mutual

/-- The names that an expression reads outside the functions in it. -/
def Expr.reads : Expr → List String
  | .literal _ => []
  | .group inner => inner.reads
  | .unary _ operand => operand.reads
  | .binary left _ right => left.reads ++ right.reads
  | .logical left _ right => left.reads ++ right.reads
  | .conditional condition yes no => condition.reads ++ yes.reads ++ no.reads
  | .read ref => [ref.name]
  | .assign _ value => value.reads
  | .call callee _ args => callee.reads ++ exprReads args
  | .get object _ => object.reads
  | .set object _ value => object.reads ++ value.reads
  | .this _ => []
  | .super _ _ => []
  | .lambda _ => []

/-- The names that expressions read outside the functions in them. -/
def exprReads : List Expr → List String
  | [] => []
  | e :: rest => e.reads ++ exprReads rest

end

theorem mem_exprReads {es : List Expr} {n : String} :
    n ∈ exprReads es ↔ ∃ e ∈ es, n ∈ e.reads := by
  induction es with
  | nil => simp [exprReads]
  | cons e rest ih => simp [exprReads, ih]

/-- **The static rules of a program.** -/
structure ObeysRules (program : List Stmt) : Prop where
  /-- No name is declared twice in a block. -/
  blocks : ∀ body p, Occurs program (.stmt (.block body)) p → (declaredBy body).Nodup
  /-- No name is declared twice in the scope of a loop. -/
  loops : ∀ init condition increment body p,
    Occurs program (.stmt (.forLoop init condition increment body)) p →
      (declaredBy init.toList).Nodup
  /-- No name is declared twice among the parameters and the body of a function. -/
  functions : ∀ params body p, Occurs program (.code (.mk params body)) p →
    (params.map Token.lexeme ++ declaredBy body).Nodup
  /-- No variable of a scope reads itself where it is made. -/
  initializers : ∀ name init p, Occurs program (.stmt (.varDecl name init)) p → p.layers ≠ [] →
    name.lexeme ∉ init.reads
  /-- A return stands in a function, and one with a value not in an initializer. -/
  returns : ∀ keyword value p, Occurs program (.stmt (.ret keyword value)) p →
    p.ctx.function ≠ .none ∧ (value.isSome = true → p.ctx.function ≠ .initializer)
  /-- A `this` stands in a class. -/
  this : ∀ ref p, Occurs program (.expr (.this ref)) p → p.ctx.ofClass ≠ .none
  /-- A `super` stands in a class, the innermost of which has a superclass. -/
  super : ∀ ref method p, Occurs program (.expr (.super ref method)) p → p.ctx.ofClass = .derived
  /-- No class is its own superclass. -/
  superclasses : ∀ name ref methods p,
    Occurs program (.stmt (.classDecl name (some ref) methods)) p → ref.name ≠ name.lexeme

/-- What the rules ask of a node at a place. -/
def Lawful : Node → Place → Prop
  | .stmt (.block body), _ => (declaredBy body).Nodup
  | .stmt (.varDecl name init), p => p.layers ≠ [] → name.lexeme ∉ init.reads
  | .stmt (.ret _ value), p =>
    p.ctx.function ≠ .none ∧ (value.isSome = true → p.ctx.function ≠ .initializer)
  | .stmt (.classDecl name superclass _), _ => ∀ ref, superclass = some ref → ref.name ≠ name.lexeme
  | .code (.mk params body), _ => (params.map Token.lexeme ++ declaredBy body).Nodup
  | .expr (.this _), p => p.ctx.ofClass ≠ .none
  | .expr (.super _ _), p => p.ctx.ofClass = .derived
  | _, _ => True

theorem declaredBy_toList_nodup (init : Option Stmt) : (declaredBy init.toList).Nodup := by
  cases init with
  | none => exact List.nodup_nil
  | some s => cases h : s.declared? <;> simp [declaredBy, h]

theorem obeysRules_iff {program : List Stmt} :
    ObeysRules program ↔ ∀ node p, Occurs program node p → Lawful node p := by
  constructor
  · intro h node p ho
    unfold Lawful
    split
    · exact h.blocks _ _ ho
    · exact h.initializers _ _ _ ho
    · exact h.returns _ _ _ ho
    · intro ref href
      subst href
      exact h.superclasses _ _ _ _ ho
    · exact h.functions _ _ _ ho
    · exact h.this _ _ ho
    · exact h.super _ _ _ ho
    · trivial
  · intro h
    exact {
      blocks := fun _ _ ho => h _ _ ho
      loops := fun init _ _ _ _ _ => declaredBy_toList_nodup init
      functions := fun _ _ _ ho => h _ _ ho
      initializers := fun _ _ _ ho => h _ _ ho
      returns := fun _ _ _ ho => h _ _ ho
      this := fun _ _ ho => h _ _ ho
      super := fun _ _ _ ho => h _ _ ho
      superclasses := fun _ _ _ _ ho => h _ _ ho _ rfl }

/-! ## 2. Complaints -/

/-- No complaint is among some findings. -/
def Clean (found : List Finding) : Prop := ∀ c t, Finding.complaint c t ∉ found

theorem complaintsOf_eq_nil {found : List Finding} : complaintsOf found = [] ↔ Clean found := by
  unfold complaintsOf Clean
  rw [List.filterMap_eq_nil_iff]
  constructor
  · intro h c t hf
    cases h _ hf
  · intro h f hf
    cases f with
    | complaint c t => exact absurd hf (h c t)
    | reference ref d => rfl

theorem Clean.left {a b : List Finding} (h : Clean (a ++ b)) : Clean a :=
  fun c t hf => h c t (List.mem_append_left _ hf)

theorem Clean.right {a b : List Finding} (h : Clean (a ++ b)) : Clean b :=
  fun c t hf => h c t (List.mem_append_right _ hf)

theorem hasInnermost_iff {scopes : Scopes} {p : Place} {r : Region} {names : List String}
    (h : Covers scopes (p.push r names).layers) (n : String) :
    scopes.hasInnermost n = true ↔ n ∈ names := by
  cases h with
  | cons hs _ => exact hs n

theorem complaintsOn_clean {scopes : Scopes} {name : Token} :
    Clean (scopes.complaintsOn name) ↔ scopes.hasInnermost name.lexeme = false := by
  unfold Scopes.complaintsOn
  cases h : scopes.hasInnermost name.lexeme with
  | false => simp [Clean]
  | true =>
    simp only [if_true, Bool.true_eq_false, iff_false]
    exact fun hc => hc _ _ List.mem_cons_self

/-! ## 3. A node without a complaint keeps the rules -/

section Lawful

variable {P : Token → Prop} {ctx : Context} {scopes : Scopes} {p : Place} {r : Region}
  {names : List String}

/-- A declaration without a complaint is the first of its name. -/
theorem declared_fresh {s : Stmt} {name : String} (hd : s.declared? = some name)
    (hclean : Clean (s.findings ctx scopes).2) : scopes.hasInnermost name = false := by
  cases s with
  | varDecl n init =>
    cases hd
    rw [Stmt.findings] at hclean
    exact complaintsOn_clean.mp hclean.left
  | funDecl d =>
    obtain ⟨n, c⟩ := d
    cases hd
    rw [Stmt.findings] at hclean
    exact complaintsOn_clean.mp hclean.left
  | classDecl n sup methods =>
    cases hd
    rw [Stmt.findings] at hclean
    exact complaintsOn_clean.mp hclean.left.left
  | _ => cases hd

/-- A name that a scope has not can be added to its names. -/
theorem nodup_snoc {name : String} (hc : Covers scopes (p.push r names).layers) (hn : names.Nodup)
    (hfresh : scopes.hasInnermost name = false) : (names ++ [name]).Nodup := by
  refine List.nodup_append.mpr ⟨hn, by simp, ?_⟩
  intro a ha b hb hab
  rw [List.mem_singleton.mp hb] at hab
  rw [hab] at ha
  have h := (hasInnermost_iff hc name).mpr ha
  rw [hfresh] at h
  cases h

/-- Statements walked without a complaint declare no name of their scope again. -/
theorem body_nodup {ss : List Stmt} (hs : stmtsShaped P ss)
    (hc : Covers scopes (p.push r names).layers) (hn : names.Nodup)
    (hclean : Clean (bodyFindings ctx scopes ss).2) : (names ++ declaredBy ss).Nodup := by
  induction ss generalizing scopes names with
  | nil => simpa [declaredBy] using hn
  | cons s rest ih =>
    rw [bodyFindings_cons] at hclean
    have hrest := hclean.right
    rw [s.findings_fst ctx scopes hs.1] at hrest
    have hadd := hc.adding s.declared?
    cases hd : s.declared? with
    | none =>
      rw [hd] at hadd hrest
      simpa [declaredBy, hd] using ih hs.2 hadd hn hrest
    | some name =>
      rw [hd] at hadd hrest
      have hn' := nodup_snoc hc hn (declared_fresh hd hclean.left)
      have hall : ((names ++ [name]) ++ declaredBy rest).Nodup := ih hs.2 hadd hn' hrest
      simpa [declaredBy, hd] using hall

/-- Parameters brought in without a complaint are the first of their name. -/
theorem params_nodup {params : List Token} (hc : Covers scopes (p.push r names).layers)
    (hn : names.Nodup) (hclean : Clean (scopes.introduceAll params).2) :
    (names ++ params.map Token.lexeme).Nodup := by
  induction params generalizing scopes names with
  | nil => simpa using hn
  | cons t rest ih =>
    rw [Scopes.introduceAll] at hclean
    have hn' := nodup_snoc hc hn (complaintsOn_clean.mp hclean.left)
    have hall : ((names ++ [t.lexeme]) ++ rest.map Token.lexeme).Nodup :=
      ih (hc.introduce t) hn' hclean.right
    simpa using hall

mutual

/-- A read of an incomplete name is a complaint. -/
theorem Expr.reads_complete {ctx : Context} {scopes : Scopes} :
    ∀ (e : Expr), Clean (e.findings ctx scopes) →
      ∀ n ∈ e.reads, scopes.isIncomplete n = false
  | .literal _, _, _, hn => absurd hn List.not_mem_nil
  | .group inner, h, n, hn => inner.reads_complete h n hn
  | .unary _ operand, h, n, hn => operand.reads_complete h n hn
  | .binary left _ right, h, n, hn =>
    (List.mem_append.mp hn).elim (left.reads_complete (Clean.left h) n)
      (right.reads_complete (Clean.right h) n)
  | .logical left _ right, h, n, hn =>
    (List.mem_append.mp hn).elim (left.reads_complete (Clean.left h) n)
      (right.reads_complete (Clean.right h) n)
  | .conditional condition yes no, h, n, hn =>
    (List.mem_append.mp hn).elim
      (fun hn => (List.mem_append.mp hn).elim
        (condition.reads_complete (Clean.left (Clean.left h)) n)
        (yes.reads_complete (Clean.right (Clean.left h)) n))
      (no.reads_complete (Clean.right h) n)
  | .read ref, h, n, hn => by
    obtain rfl := List.mem_singleton.mp hn
    rw [Expr.findings, Scopes.readFindings] at h
    cases hi : scopes.isIncomplete ref.name with
    | false => rfl
    | true =>
      rw [hi] at h
      exact absurd List.mem_cons_self (h _ _)
  | .assign _ value, h, n, hn => value.reads_complete (Clean.left h) n hn
  | .call callee _ args, h, n, hn =>
    (List.mem_append.mp hn).elim (callee.reads_complete (Clean.left h) n)
      (exprReads_complete args (Clean.right h) n)
  | .get object _, h, n, hn => object.reads_complete h n hn
  | .set object _ value, h, n, hn =>
    (List.mem_append.mp hn).elim (object.reads_complete (Clean.right h) n)
      (value.reads_complete (Clean.left h) n)
  | .this _, _, _, hn => absurd hn List.not_mem_nil
  | .super _ _, _, _, hn => absurd hn List.not_mem_nil
  | .lambda _, _, _, hn => absurd hn List.not_mem_nil

theorem exprReads_complete {ctx : Context} {scopes : Scopes} :
    ∀ (es : List Expr), Clean (exprFindings ctx scopes es) →
      ∀ n ∈ exprReads es, scopes.isIncomplete n = false
  | [], _, _, hn => absurd hn List.not_mem_nil
  | e :: rest, h, n, hn =>
    (List.mem_append.mp hn).elim (e.reads_complete (Clean.left h) n)
      (exprReads_complete rest (Clean.right h) n)

end

/-- A name just brought into a scope is incomplete. -/
theorem isIncomplete_declare {name : String} (hscopes : scopes ≠ [])
    (hfresh : scopes.hasInnermost name = false) :
    (scopes.declare name).isIncomplete name = true := by
  cases scopes with
  | nil => exact absurd rfl hscopes
  | cons s outer =>
    have hs : s.binds name = false := hfresh
    show ((if s.binds name then s else s.put name false).find? name == some false) = true
    rw [hs]
    simp

/-- **A node without a complaint keeps the rules.** -/
theorem lawful_of_clean {node : Node} (hs : node.Shaped P) (hc : Covers scopes p.layers)
    (hclean : Clean (node.findings p.ctx scopes)) : Lawful node p := by
  cases node with
  | expr e =>
    cases e with
    | this ref =>
      intro hnone
      rw [Node.findings, Expr.findings, Scopes.thisFindings, hnone] at hclean
      exact hclean _ _ List.mem_cons_self
    | super ref method =>
      show p.ctx.ofClass = .derived
      rw [Node.findings, Expr.findings, Scopes.superFindings] at hclean
      cases hk : p.ctx.ofClass with
      | derived => rfl
      | none | base =>
        rw [hk] at hclean
        exact absurd List.mem_cons_self (hclean _ _)
    | _ => trivial
  | code c =>
    obtain ⟨params, body⟩ := c
    rw [Node.findings, findings_code] at hclean
    have hpush := hc.push (.call (.mk params body))
    have hparams := params_nodup hpush List.nodup_nil hclean.left
    exact body_nodup (And.right hs) hpush.introduceAll hparams hclean.right
  | stmt s =>
    cases s with
    | block body =>
      have hbody := body_nodup hs (hc.push (.block (.block body))) List.nodup_nil hclean
      rwa [List.nil_append] at hbody
    | varDecl name init =>
      intro hlayers hread
      have hscopes : scopes ≠ [] := hc.ne_nil_iff.mpr hlayers
      have hfresh := complaintsOn_clean.mp (Clean.left hclean)
      have hcomplete := init.reads_complete (Clean.right hclean) _ hread
      rw [isIncomplete_declare hscopes hfresh] at hcomplete
      cases hcomplete
    | ret keyword value =>
      have h : Clean (returnComplaints p.ctx keyword value.isSome) := Clean.left hclean
      unfold returnComplaints at h
      refine ⟨fun hnone => ?_, fun hsome hinit => ?_⟩
      · rw [if_pos hnone] at h
        exact h.left _ _ List.mem_cons_self
      · have hvalue := h.right
        rw [if_pos ⟨hsome, hinit⟩] at hvalue
        exact hvalue _ _ List.mem_cons_self
    | classDecl name superclass methods =>
      intro ref href hname
      subst href
      have h : Clean ((scopes.introduce name).superclassFindings name (some ref)) :=
        Clean.right (Clean.left hclean)
      rw [Scopes.superclassFindings, if_pos hname] at h
      exact h.left _ _ List.mem_cons_self
    | _ => trivial

end Lawful

/-! ## 4. A complaint is about the node at hand or inside it -/

section Inside

variable {P : Token → Prop} {ctx : Context} {scopes : Scopes} {p : Place} {r : Region}
  {names : List String} {c : StaticComplaint} {t : Token}

/-- Every name of the innermost scope is complete. -/
def Complete (scopes : Scopes) : Prop := ∀ n, scopes.isIncomplete n = false

/-- What the walk of a node takes from what is around it: an expression reads no incomplete name,
    and a statement declares no name a second time. -/
def Settled (scopes : Scopes) : Node → Prop
  | .expr e => ∀ n ∈ e.reads, scopes.isIncomplete n = false
  | .code _ => True
  | .stmt s => Complete scopes ∧ ∀ n, s.declared? = some n → scopes.hasInnermost n = false

theorem complete_push : Complete ([] :: scopes) := fun _ => rfl

theorem Complete.adding (h : Complete scopes) : ∀ name, Complete (scopes.adding name)
  | none => h
  | some name => by
    intro n
    cases scopes with
    | nil => rfl
    | cons s outer =>
      have hn : (s.find? n == some false) = false := h n
      show ((Bindings.put (if s.binds name then s else s.put name false) name true).find? n
        == some false) = false
      rw [Bindings.find?_put]
      by_cases heq : name = n
      · rw [if_pos heq]
        rfl
      · rw [if_neg heq]
        split
        · exact hn
        · rwa [Bindings.find?_put_ne _ _ heq]

/-- A name brought in leaves the others complete. -/
theorem Complete.declare {name n : String} (h : Complete scopes) (hn : scopes ≠ [] → name ≠ n) :
    (scopes.declare name).isIncomplete n = false := by
  cases scopes with
  | nil => rfl
  | cons s outer =>
    have hs : (s.find? n == some false) = false := h n
    show ((if s.binds name then s else s.put name false).find? n == some false) = false
    split
    · exact hs
    · rwa [Bindings.find?_put_ne _ _ (hn (List.cons_ne_nil s outer))]

theorem Complete.body {ss : List Stmt} (h : Complete scopes) (hs : stmtsShaped P ss) :
    Complete (bodyFindings ctx scopes ss).1 := by
  induction ss generalizing scopes with
  | nil => exact h
  | cons s rest ih =>
    rw [bodyFindings_cons, s.findings_fst ctx scopes hs.1]
    exact ih (h.adding _) hs.2

theorem Complete.introduceAll {params : List Token} (h : Complete scopes) :
    Complete (scopes.introduceAll params).1 := by
  induction params generalizing scopes with
  | nil => exact h
  | cons t rest ih => exact ih (h.adding (some t.lexeme))

theorem Complete.start (ctx : Context) (scopes : Scopes) {init : Option Stmt}
    (hs : startShaped P init) : Complete (optionFindings ctx ([] :: scopes) init).1 := by
  cases init with
  | none => exact complete_push
  | some s =>
    rw [optionFindings, s.findings_fst ctx _ hs]
    exact complete_push.adding _

theorem mem_bodyFindings {ss : List Stmt} {f : Finding} (h : f ∈ (bodyFindings ctx scopes ss).2) :
    ∃ before s after, ss = before ++ s :: after ∧
      f ∈ (s.findings ctx (bodyFindings ctx scopes before).1).2 := by
  induction ss generalizing scopes with
  | nil => cases h
  | cons s rest ih =>
    rw [bodyFindings_cons] at h
    rcases List.mem_append.mp h with h | h
    · exact ⟨[], s, rest, rfl, h⟩
    · obtain ⟨before, s', after, rfl, hf⟩ := ih h
      exact ⟨s :: before, s', after, rfl, by rwa [bodyFindings_cons]⟩

/-- A complaint about statements with names of their own each is inside one of them. -/
theorem complaint_in_body {ss : List Stmt} (hs : stmtsShaped P ss)
    (hc : Covers scopes (p.push r names).layers) (hset : Complete scopes)
    (hn : (names ++ declaredBy ss).Nodup)
    (hf : .complaint c t ∈ (bodyFindings ctx scopes ss).2) :
    ∃ before s after inner, ss = before ++ s :: after ∧
      Covers inner (p.push r (names ++ declaredBy before)).layers ∧ Settled inner (.stmt s) ∧
      .complaint c t ∈ (s.findings ctx inner).2 := by
  obtain ⟨before, s, after, rfl, hin⟩ := mem_bodyFindings hf
  have hbefore : stmtsShaped P before := stmtsShaped_before hs
  have hcovers := hc.body ctx hbefore
  refine ⟨before, s, after, _, rfl, hcovers, ⟨hset.body hbefore, fun n hd => ?_⟩, hin⟩
  rw [Bool.eq_false_iff]
  intro hagain
  have hmem := (hasInnermost_iff hcovers n).mp hagain
  -- `n` stands both in front of `s` and at it
  have hsplit : names ++ declaredBy (before ++ s :: after)
      = (names ++ declaredBy before) ++ (n :: declaredBy after) := by
    simp [declaredBy, hd]
  rw [hsplit] at hn
  exact (List.nodup_append.mp hn).2.2 n hmem n List.mem_cons_self rfl

/-- Parameters with names of their own each are no complaint. -/
theorem introduceAll_clean {params : List Token} (hc : Covers scopes (p.push r names).layers)
    (hn : (names ++ params.map Token.lexeme).Nodup) : Clean (scopes.introduceAll params).2 := by
  induction params generalizing scopes names with
  | nil => exact fun _ _ hf => nomatch hf
  | cons t rest ih =>
    have hsplit : names ++ (t :: rest).map Token.lexeme
        = (names ++ [t.lexeme]) ++ rest.map Token.lexeme := by simp
    have hrest := hn
    rw [hsplit] at hrest
    have hfresh : scopes.hasInnermost t.lexeme = false := by
      rw [Bool.eq_false_iff]
      intro hin
      have hmem := (hasInnermost_iff hc _).mp hin
      exact (List.nodup_append.mp hn).2.2 _ hmem _ List.mem_cons_self rfl
    intro c u hf
    rcases List.mem_append.mp hf with hf | hf
    · exact complaintsOn_clean.mpr hfresh c u hf
    · exact ih (hc.introduce t) hrest c u hf

theorem Expr.complaint_inside {e : Expr} (hc : Covers scopes p.layers)
    (hset : Settled scopes (.expr e)) (hl : Lawful (.expr e) p)
    (hf : .complaint c t ∈ (Node.expr e).findings p.ctx scopes) :
    ∃ child q inner, Inside (.expr e) p child q ∧ Covers inner q.layers ∧ Settled inner child ∧
      .complaint c t ∈ child.findings q.ctx inner := by
  cases e with
  | literal l => cases hf
  | group inner => exact ⟨_, _, scopes, .group, hc, hset, hf⟩
  | unary op e => exact ⟨_, _, scopes, .operand, hc, hset, hf⟩
  | binary l op r =>
    rcases List.mem_append.mp hf with hf | hf
    · exact ⟨_, _, scopes, .binaryLeft, hc, fun n hn => hset n (List.mem_append_left _ hn), hf⟩
    · exact ⟨_, _, scopes, .binaryRight, hc, fun n hn => hset n (List.mem_append_right _ hn), hf⟩
  | logical l op r =>
    rcases List.mem_append.mp hf with hf | hf
    · exact ⟨_, _, scopes, .logicalLeft, hc, fun n hn => hset n (List.mem_append_left _ hn), hf⟩
    · exact ⟨_, _, scopes, .logicalRight, hc, fun n hn => hset n (List.mem_append_right _ hn), hf⟩
  | conditional condition yes no =>
    rcases List.mem_append.mp hf with hf | hf
    · rcases List.mem_append.mp hf with hf | hf
      · exact ⟨_, _, scopes, .choiceCondition, hc,
          fun n hn => hset n (List.mem_append_left _ (List.mem_append_left _ hn)), hf⟩
      · exact ⟨_, _, scopes, .choiceYes, hc,
          fun n hn => hset n (List.mem_append_left _ (List.mem_append_right _ hn)), hf⟩
    · exact ⟨_, _, scopes, .choiceNo, hc, fun n hn => hset n (List.mem_append_right _ hn), hf⟩
  | read ref =>
    have hcomplete := hset ref.name List.mem_cons_self
    rw [Node.findings, Expr.findings, Scopes.readFindings, hcomplete] at hf
    simp [Scopes.look] at hf
  | assign ref value =>
    rcases List.mem_append.mp hf with hf | hf
    · exact ⟨_, _, scopes, .assigned, hc, hset, hf⟩
    · simp [Scopes.look] at hf
  | call f paren args =>
    rcases List.mem_append.mp hf with hf | hf
    · exact ⟨_, _, scopes, .callee, hc, fun n hn => hset n (List.mem_append_left _ hn), hf⟩
    · obtain ⟨e, he, hf⟩ := mem_exprFindings.mp hf
      exact ⟨_, _, scopes, .argument he, hc,
        fun n hn => hset n (List.mem_append_right _ (mem_exprReads.mpr ⟨e, he, hn⟩)), hf⟩
  | get o n => exact ⟨_, _, scopes, .getObject, hc, hset, hf⟩
  | set o n v =>
    rcases List.mem_append.mp hf with hf | hf
    · exact ⟨_, _, scopes, .setValue, hc, fun n hn => hset n (List.mem_append_right _ hn), hf⟩
    · exact ⟨_, _, scopes, .setObject, hc, fun n hn => hset n (List.mem_append_left _ hn), hf⟩
  | this ref =>
    rw [Node.findings, Expr.findings, Scopes.thisFindings] at hf
    cases hk : p.ctx.ofClass with
    | none => exact absurd hk hl
    | base | derived =>
      rw [hk] at hf
      simp [Scopes.look] at hf
  | super ref method =>
    have hk : p.ctx.ofClass = .derived := hl
    rw [Node.findings, Expr.findings, Scopes.superFindings, hk] at hf
    simp [Scopes.look] at hf
  | lambda code => exact ⟨_, _, scopes, .lambda, hc, trivial, hf⟩

theorem Code.complaint_inside {k : Code} (hs : k.Shaped P) (hc : Covers scopes p.layers)
    (hl : Lawful (.code k) p) (hf : .complaint c t ∈ (Node.code k).findings p.ctx scopes) :
    ∃ child q inner, Inside (.code k) p child q ∧ Covers inner q.layers ∧ Settled inner child ∧
      .complaint c t ∈ child.findings q.ctx inner := by
  obtain ⟨params, body⟩ := k
  rw [Node.findings, findings_code] at hf
  have hpush := hc.push (.call (.mk params body))
  have hparams : Clean (Scopes.introduceAll ([] :: scopes) params).2 :=
    introduceAll_clean hpush (List.nodup_append.mp hl).1
  rcases List.mem_append.mp hf with hf | hf
  · exact absurd hf (hparams c t)
  · obtain ⟨before, s, after, inner, rfl, hinner, hset, hf⟩ :=
      complaint_in_body (And.right hs) hpush.introduceAll complete_push.introduceAll hl hf
    exact ⟨_, _, inner, .body, hinner, hset, hf⟩

theorem Stmt.complaint_inside {s : Stmt} (hs : s.Shaped P) (hc : Covers scopes p.layers)
    (hset : Settled scopes (.stmt s)) (hl : Lawful (.stmt s) p)
    (hf : .complaint c t ∈ (Node.stmt s).findings p.ctx scopes) :
    ∃ child q inner, Inside (.stmt s) p child q ∧ Covers inner q.layers ∧ Settled inner child ∧
      .complaint c t ∈ child.findings q.ctx inner := by
  obtain ⟨hcomplete, hfresh⟩ := hset
  -- a statement in a place without a scope of its own
  have hsub : ∀ s' : Stmt, s'.declared? = none → Settled scopes (.stmt s') := fun s' hd =>
    ⟨hcomplete, fun n hn => by rw [hd] at hn; cases hn⟩
  have hreads : ∀ e : Expr, Settled scopes (.expr e) := fun e n _ => hcomplete n
  cases s with
  | expr e => exact ⟨_, _, scopes, .expression, hc, hreads e, hf⟩
  | varDecl name init =>
    rcases List.mem_append.mp hf with hf | hf
    · exact absurd hf (complaintsOn_clean.mpr (hfresh _ rfl) c t)
    · refine ⟨_, _, _, .initializer, hc.declare _, fun n hn => ?_, ?_⟩
      · refine hcomplete.declare fun hne => ?_
        rintro rfl
        exact hl (hc.ne_nil_iff.mp hne) hn
      · rwa [Place.declare_ctx]
  | funDecl d =>
    obtain ⟨name, k⟩ := d
    rcases List.mem_append.mp hf with hf | hf
    · exact absurd hf (complaintsOn_clean.mpr (hfresh _ rfl) c t)
    · refine ⟨_, _, _, .function, hc.introduce name, trivial, ?_⟩
      rwa [Place.inFunction, Place.declare_ctx]
  | classDecl name superclass methods =>
    rcases List.mem_append.mp hf with hf | hf
    · rcases List.mem_append.mp hf with hf | hf
      · exact absurd hf (complaintsOn_clean.mpr (hfresh _ rfl) c t)
      · cases superclass with
        | none => cases hf
        | some ref =>
          rw [Scopes.superclassFindings, if_neg (hl ref rfl), List.nil_append] at hf
          exact ⟨_, _, _, .superclass, hc.introduce name,
            fun n _ => hcomplete.adding (some name.lexeme) n, hf⟩
    · obtain ⟨m, k, hm, hf⟩ := mem_methodFindings.mp hf
      refine ⟨_, _, _, .method hm, (hc.introduce name).ofMethods _ superclass, trivial, ?_⟩
      rwa [Place.inFunction, Place.inClass, Place.declare_ctx]
  | branch condition yes no =>
    obtain ⟨-, hyes, hd, hno⟩ := hs
    have hmiddle := yes.findings_fst p.ctx scopes hyes
    rw [hd] at hmiddle
    rw [Node.findings, findings_branch, hmiddle] at hf
    rcases List.mem_append.mp hf with hf | hf
    · rcases List.mem_append.mp hf with hf | hf
      · exact ⟨_, _, scopes, .branchCondition, hc, hreads _, hf⟩
      · exact ⟨_, _, scopes, .branchYes, hc, hsub yes hd, hf⟩
    · cases no with
      | none => cases hf
      | some no => exact ⟨_, _, scopes, .branchNo, hc, hsub no hno.2, hf⟩
  | whileLoop condition body =>
    rw [Node.findings, findings_whileLoop] at hf
    rcases List.mem_append.mp hf with hf | hf
    · exact ⟨_, _, scopes, .whileCondition, hc, hreads _, hf⟩
    · exact ⟨_, _, scopes, .whileBody, hc, hsub body hs.2.2, hf⟩
  | forLoop init condition increment body =>
    obtain ⟨hinit, -, -, -, hd⟩ := hs
    have hstart := Complete.start p.ctx scopes hinit
    rw [Node.findings, findings_forLoop] at hf
    rcases List.mem_append.mp hf with hf | hf
    · rcases List.mem_append.mp hf with hf | hf
      · rcases List.mem_append.mp hf with hf | hf
        · cases init with
          | none => cases hf
          | some s =>
            exact ⟨_, _, _, .loopStart, hc.push _, ⟨complete_push, fun n _ => rfl⟩, hf⟩
        · exact ⟨_, _, _, .loopCondition, hc.start p.ctx hinit, fun n _ => hstart n, hf⟩
      · cases increment with
        | none => cases hf
        | some i =>
          exact ⟨_, _, _, .loopIncrement, hc.start p.ctx hinit, fun n _ => hstart n, hf⟩
    · refine ⟨_, _, _, .loopBody, hc.start p.ctx hinit, ⟨hstart, fun n hn => ?_⟩, hf⟩
      rw [hd] at hn
      cases hn
  | block body =>
    obtain ⟨before, s, after, inner, rfl, hinner, hset, hf⟩ :=
      complaint_in_body hs (hc.push (.block (.block body))) complete_push hl hf
    exact ⟨_, _, inner, .block, hinner, hset, hf⟩
  | ret keyword value =>
    obtain ⟨hfunction, hvalue⟩ := hl
    rcases List.mem_append.mp hf with hf | hf
    · unfold returnComplaints at hf
      rw [if_neg hfunction, if_neg fun h => hvalue h.1 h.2] at hf
      cases hf
    · cases value with
      | none => cases hf
      | some e => exact ⟨_, _, scopes, .returned, hc, hreads e, hf⟩
  | leave keyword => cases hf
  | next keyword => cases hf

/-- **A complaint about a lawful node is inside it.** -/
theorem complaint_inside {node : Node} (hs : node.Shaped P) (hc : Covers scopes p.layers)
    (hset : Settled scopes node) (hl : Lawful node p)
    (hf : .complaint c t ∈ node.findings p.ctx scopes) :
    ∃ child q inner, Inside node p child q ∧ Covers inner q.layers ∧ Settled inner child ∧
      .complaint c t ∈ child.findings q.ctx inner := by
  cases node with
  | expr e => exact e.complaint_inside hc hset hl hf
  | code k => exact k.complaint_inside hs hc hl hf
  | stmt s => exact s.complaint_inside hs hc hset hl hf

end Inside

/-! ## 5. Programs -/

/-- A part is smaller than the whole. -/
theorem Inside.size_lt {node child : Node} {p q : Place} (h : Inside node p child q) :
    sizeOf child < sizeOf node := by
  have hmiddle : ∀ (before after : List Stmt) (s : Stmt),
      sizeOf s < sizeOf (before ++ s :: after) := fun before after s =>
    List.sizeOf_lt_of_mem (List.mem_append_right _ List.mem_cons_self)
  cases h with
  | argument he =>
    have := List.sizeOf_lt_of_mem he
    simp
    omega
  | method hm =>
    have := List.sizeOf_lt_of_mem hm
    simp at this ⊢
    omega
  | @body _ _ before s after =>
    have := hmiddle before after s
    simp
    omega
  | @block _ before s after =>
    have := hmiddle before after s
    simp
    omega
  | _ =>
    simp
    try omega

/-- **Where all parts are lawful there is no complaint.** The induction is on the size of the node. -/
theorem clean_of_lawful {P : Token → Prop} {program : List Stmt} (hs : stmtsShaped P program)
    (hl : ∀ node p, Occurs program node p → Lawful node p) :
    ∀ k node p scopes, sizeOf node < k → Occurs program node p → Covers scopes p.layers →
      Settled scopes node → Clean (node.findings p.ctx scopes)
  | 0, _, _, _, hk, _, _, _ => absurd hk (Nat.not_lt_zero _)
  | k + 1, node, p, scopes, hk, ho, hc, hset => by
    intro c t hf
    obtain ⟨child, q, inner, hi, hinner, hset, hf⟩ :=
      complaint_inside (ho.shaped hs) hc hset (hl node p ho) hf
    have hsize := hi.size_lt
    exact clean_of_lawful hs hl k child q inner (by omega) (ho.inside hi) hinner hset c t hf

/-- **A program without a complaint keeps the rules, and no other does.** -/
theorem resolve_clean_iff {P : Token → Prop} {program : List Stmt} (hs : stmtsShaped P program) :
    Clean (resolve program) ↔ ObeysRules program := by
  rw [obeysRules_iff]
  constructor
  · intro hclean node p ho
    obtain ⟨scopes, hc, hfound⟩ := ho.findings hs
    exact lawful_of_clean (ho.shaped hs) hc fun c t hf => hclean c t (hfound _ hf)
  · intro hl c t hf
    rw [resolve_eq] at hf
    obtain ⟨before, s, after, rfl, hin⟩ := mem_bodyFindings hf
    have hbefore : stmtsShaped P before := stmtsShaped_before hs
    rw [bodyFindings_top hbefore] at hin
    have ho : Occurs (before ++ s :: after) (.stmt s) .top :=
      .top (List.mem_append_right _ List.mem_cons_self)
    have hset : Settled [] (.stmt s) := ⟨fun _ => rfl, fun _ _ => rfl⟩
    exact clean_of_lawful hs hl _ _ _ [] (Nat.lt_succ_self _) ho .nil hset c t hin

/-! ## 6. Programs that parse -/

/-- What is parsed without a complaint has the shape of a program. -/
theorem parse_shaped {tokens : List Token} {nextId : Nat} {P : Token → Prop}
    (h : (Syntax.parse tokens nextId).errors = []) (hP : ∀ t ∈ tokens, P t) :
    stmtsShaped P (Syntax.parse tokens nextId).statements :=
  Syntax.derives_shaped (Syntax.parse_derives h) fun t ht =>
    hP t ((List.takeWhile_sublist _).subset ht)

/-- **Scoping accepts exactly the programs that keep its rules.** Whatever it complains about on the way,
    a walk through a part of the program leaves the function, the class and the scopes that it came
    with, but for the name that a statement declares in the innermost scope. It comes to every node with
    the context and the scopes of the node's place. -/
theorem resolve_accepts_exactly (tokens : List Token) (nextId : Nat)
    (h : (Syntax.parse tokens nextId).errors = []) :
    let program := (Syntax.parse tokens nextId).statements
    (complaintsOf (resolve program) = [] ↔ ObeysRules program) ∧
    (∀ s p, Occurs program (.stmt s) p → ∀ r : Resolver,
      r.Restored (r.scopes.adding s.declared?) (s.walk.run r).2) ∧
    (∀ e p, Occurs program (.expr e) p → ∀ r : Resolver, r.Restored r.scopes (e.walk.run r).2) ∧
    (∀ c p, Occurs program (.code c) p → ∀ kind, ∀ r : Resolver,
      r.Restored r.scopes ((c.walk kind).run r).2) ∧
    (∀ node p, Occurs program node p → ∃ scopes, Covers scopes p.layers ∧
      ∀ f ∈ node.findings p.ctx scopes, f ∈ resolve program) := by
  intro program
  have hs : stmtsShaped (fun _ => True) program := parse_shaped h fun _ _ => trivial
  refine ⟨complaintsOf_eq_nil.trans (resolve_clean_iff hs), fun s p ho r => ?_,
    fun e _ _ r => (e.walk_does r).restored, fun c _ _ kind r => (c.walk_does kind r).restored,
    fun node p ho => ho.findings hs⟩
  have hwalk := (s.walk_does r).restored
  rwa [s.findings_fst r.ctx r.scopes (ho.shaped hs)] at hwalk

/-- `fun f(a) { return a; }` keeps the rules. -/
theorem resolve_accepts_function :
    let word (k : Token.Kind) (w : String) : Token := ⟨k, w, ⟨1, 0⟩⟩
    let tokens : List Token := [word .kwFun "fun", word .identifier "f", word .leftParen "(",
      word .identifier "a", word .rightParen ")", word .leftBrace "\x7b", word .kwReturn "return",
      word .identifier "a", word .semicolon ";", word .rightBrace "\x7d"]
    (Syntax.parse tokens 0).errors = [] ∧
    ObeysRules [.funDecl (.mk (word .identifier "f") (.mk [word .identifier "a"]
      [.ret (word .kwReturn "return") (some (.read ⟨⟨0⟩, word .identifier "a"⟩))]))] := by
  intro word tokens
  have hparse : Syntax.parse tokens 0 =
      ⟨[.funDecl (.mk (word .identifier "f") (.mk [word .identifier "a"]
        [.ret (word .kwReturn "return") (some (.read ⟨⟨0⟩, word .identifier "a"⟩))]))], [], 1⟩ := by
    cbv
  have herrors : (Syntax.parse tokens 0).errors = [] := by rw [hparse]
  have hrules := (resolve_accepts_exactly tokens 0 herrors).1
  rw [hparse] at hrules
  exact ⟨herrors, hrules.mp (by decide)⟩

end Lox
