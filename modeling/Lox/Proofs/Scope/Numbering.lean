import Lox.Machine
import Lox.Proofs.Scope.Rules
import Lox.Proofs.Scope.Sightings
import Lox.Proofs.Token.Spelling

/-!
# References and their distances

A reference has a number of its own, so what scoping finds out about it can be kept in a table.

* `Numbered a b found`: the findings are about references from `a` up to `b`, and say one thing of
  each. A compound assignment has its target twice in the tree, and both say the same.
* `derives_numbered`: what is found out about a phrase is so, whatever the scopes around it.
* `Loaded d k program`: the table `d` has, for every reference of the program, the distance of the
  innermost layer that has its name, and all its references are below `k`.
-/

namespace Lox

/-! ## 1. Numbers -/

/-- Findings about references from `a` up to `b`, one thing about each. -/
structure Numbered (a b : Nat) (found : List Finding) : Prop where
  range : ∀ ref d, .reference ref d ∈ found → a ≤ ref.id.index ∧ ref.id.index < b
  single : ∀ ref ref' d d', .reference ref d ∈ found → .reference ref' d' ∈ found →
    ref.id = ref'.id → d = d'

/-- Findings are numbered if what they are about is seen so. -/
theorem Sighted.numbered {a b : Nat} {found : List Finding} {seen : List Sighting}
    (h : Sighted a b seen) (hlooked : lookedUp found = lookedAt seen) : Numbered a b found := by
  refine ⟨fun ref d hr => ?_, fun ref ref' d d' hr hr' hid => ?_⟩
  · obtain ⟨v, hv, rfl, -⟩ := sighting_of_reference hlooked hr
    exact h.range v hv
  · obtain ⟨v, hv, rfl, rfl⟩ := sighting_of_reference hlooked hr
    obtain ⟨v', hv', rfl, rfl⟩ := sighting_of_reference hlooked hr'
    rw [h.same v hv v' hv' hid]

/-! ## 2. What the rules derive is numbered -/

namespace Syntax

/-- What scoping finds out about a phrase of a symbol. -/
def treeFindings (ctx : Context) (scopes : Scopes) : (s : Symbol) → s.Tree → List Finding
  | .primary, e | .call, e | .unary, e | .within _, e | .operand _, e | .conditional, e
  | .assignment, e | .expression, e => Expr.findings ctx scopes e
  | .arguments, es | .argumentList, es => exprFindings ctx scopes es
  | .optionalExpression, o => optionExprFindings ctx scopes o
  | .names, _ | .parameterList, _ => []
  | .code, c => Code.findings ctx scopes c
  | .function, f => Code.findings ctx scopes (FunDecl.code f)
  | .methods, fs => methodFindings ctx scopes fs
  | .superclass, o => o.elim [] scopes.readFindings
  | .loopStart, o => (optionFindings ctx scopes o).2
  | .variable, s | .expressionStatement, s | .statement _, s | .declaration _, s =>
    (Stmt.findings ctx scopes s).2
  | .declarations _, ss => (bodyFindings ctx scopes ss).2

/-- A phrase takes the numbers from `a` up to `b`, whatever the scopes around it. -/
def TreeNumbered (a b : Nat) (s : Symbol) (x : s.Tree) : Prop :=
  a ≤ b ∧ ∀ ctx scopes, Numbered a b (treeFindings ctx scopes s x)

theorem tree_looked_findings (ctx : Context) (scopes : Scopes) : ∀ (s : Symbol) (x : s.Tree),
    lookedUp (treeFindings ctx scopes s x) = lookedAt (treeSightings ctx scopes s x)
  | .primary, e | .call, e | .unary, e | .within _, e | .operand _, e | .conditional, e
  | .assignment, e | .expression, e => Expr.looked_findings ctx scopes e
  | .arguments, es | .argumentList, es => exprs_looked_findings ctx scopes es
  | .optionalExpression, o => optionExpr_looked_findings ctx scopes o
  | .names, _ | .parameterList, _ => rfl
  | .code, c => Code.looked_findings ctx scopes c
  | .function, f => Code.looked_findings ctx scopes (FunDecl.code f)
  | .methods, fs => methods_looked_findings ctx scopes fs
  | .superclass, none => rfl
  | .superclass, some ref => lookedUp_readFindings scopes ref
  | .loopStart, o => option_looked_findings ctx scopes o
  | .variable, s | .expressionStatement, s | .statement _, s | .declaration _, s =>
    Stmt.looked_findings ctx scopes s
  | .declarations _, ss => body_looked_findings ctx scopes ss

/-- **What the rules derive is numbered**, as it is seen. -/
theorem derives_numbered {g : ElseRule} {s : Symbol} {a b : Nat} {ts : List Token} {x : s.Tree}
    (h : Derives g s a ts x b) : TreeNumbered a b s x :=
  ⟨(derives_sighted h).1, fun ctx scopes =>
    ((derives_sighted h).2 ctx scopes).numbered (tree_looked_findings ctx scopes s x)⟩

/-- **What is found out about a program** is about its own numbers. -/
theorem Derives.resolve_numbered {g : ElseRule} {a b : Nat} {ts : List Token} {program : List Stmt}
    (h : Derives g .program a ts program b) : Numbered a b (resolve program) := by
  rw [resolve_eq]
  exact (derives_numbered h).2 ⟨.none, .none⟩ []

end Syntax

/-! ## 3. The table -/

namespace Distances

theorem noteAll_cons (d : Distances) (f : Finding) (rest : List Finding) :
    d.noteAll (f :: rest) = noteAll (match f with
      | .reference ref (some distance) => d.note ref.id distance
      | _ => d) rest := rfl

theorem noteAll_append (d : Distances) (found more : List Finding) :
    d.noteAll (found ++ more) = (d.noteAll found).noteAll more := List.foldl_append

/-- **What stands in the table** was noted, or stood there before. -/
theorem find?_noteAll {d : Distances} {found : List Finding} {id : RefId} {k : Nat}
    (h : (d.noteAll found).find? id = some k) :
    d.find? id = some k ∨ ∃ ref, ref.id = id ∧ .reference ref (some k) ∈ found := by
  induction found generalizing d with
  | nil => exact .inl h
  | cons f rest ih =>
    rw [noteAll_cons] at h
    rcases ih h with hd | ⟨ref, hid, hmem⟩
    · split at hd
      · next ref distance =>
        rw [find?_note] at hd
        split at hd
        · next hid =>
          cases hd
          exact .inr ⟨ref, hid, List.mem_cons_self⟩
        · exact .inl hd
      · exact .inl hd
    · exact .inr ⟨ref, hid, List.mem_cons_of_mem f hmem⟩

/-- A reference on which the findings agree with the table is left as it is. -/
theorem find?_noteAll_same {d : Distances} {found : List Finding} {id : RefId}
    (h : ∀ ref depth, .reference ref depth ∈ found → ref.id = id → d.find? id = depth) :
    (d.noteAll found).find? id = d.find? id := by
  induction found generalizing d with
  | nil => rfl
  | cons f rest ih =>
    rw [noteAll_cons]
    have hnote : (match f with
        | .reference ref (some distance) => d.note ref.id distance
        | _ => d).find? id = d.find? id := by
      split
      · next ref distance =>
        rw [find?_note]
        split
        · next hid => exact (h ref _ List.mem_cons_self hid).symm
        · rfl
      · rfl
    rw [ih, hnote]
    intro ref depth hr hid
    rw [hnote]
    exact h ref depth (List.mem_cons_of_mem _ hr) hid

/-- **A reference that the table has not** gets what the findings say of it. -/
theorem find?_noteAll_new {d : Distances} {found : List Finding} {ref : Reference}
    {depth : Option Nat} (hnew : d.find? ref.id = none) (hmem : .reference ref depth ∈ found)
    (h : ∀ ref' depth', .reference ref' depth' ∈ found → ref'.id = ref.id → depth' = depth) :
    (d.noteAll found).find? ref.id = depth := by
  cases depth with
  | none =>
    rw [find?_noteAll_same, hnew]
    intro ref' depth' hr hid
    rw [hnew, h ref' depth' hr hid]
  | some k =>
    induction found generalizing d with
    | nil => cases hmem
    | cons f rest ih =>
      have hrest : ∀ ref' depth', .reference ref' depth' ∈ rest → ref'.id = ref.id →
          depth' = some k := fun ref' depth' hr => h ref' depth' (List.mem_cons_of_mem _ hr)
      rw [noteAll_cons]
      -- once noted, the later findings agree
      have hnoted : ∀ d' : Distances, d'.find? ref.id = some k →
          (d'.noteAll rest).find? ref.id = some k := by
        intro d' hd
        rw [find?_noteAll_same, hd]
        intro ref' depth' hr hid
        rw [hd, hrest ref' depth' hr hid]
      split
      · next ref' k' =>
        by_cases hid : ref'.id = ref.id
        · have hk := h ref' (some k') List.mem_cons_self hid
          refine hnoted _ ?_
          rw [find?_note, if_pos hid, hk]
        · have hne : (Finding.reference ref (some k)) ≠ .reference ref' (some k') := by
            rintro ⟨⟩
            exact hid rfl
          refine ih ?_ ((List.mem_cons.mp hmem).resolve_left hne) hrest
          rw [find?_note, if_neg hid, hnew]
      · next hf =>
        have hne : (Finding.reference ref (some k)) ≠ f := by
          rintro rfl
          exact hf ref k rfl
        exact ih hnew ((List.mem_cons.mp hmem).resolve_left hne) hrest

end Distances

/-! ## 4. Programs in the table -/

/-- The reference that an expression is about. -/
def Node.reference? : Node → Option Reference
  | .expr (.read ref) | .expr (.assign ref _) | .expr (.this ref) | .expr (.super ref _) => some ref
  | _ => none

/-- **A table fits a program.** It has, for each reference, how far out the innermost layer is that
    has its name, and no reference is above `k`. -/
structure Loaded (d : Distances) (k : Nat) (program : List Stmt) : Prop where
  shaped : stmtsShaped Token.Spelled program
  rules : ObeysRules program
  below : ∀ node p ref, Occurs program node p → node.reference? = some ref → ref.id.index < k
  fits : ∀ node p ref, Occurs program node p → node.reference? = some ref →
    d.find? ref.id = depthIn p.layers ref.name

theorem Loaded.mono {d d' : Distances} {k k' : Nat} {program : List Stmt} (h : Loaded d k program)
    (hk : k ≤ k') (hd : ∀ id, id.index < k → d'.find? id = d.find? id) : Loaded d' k' program where
  shaped := h.shaped
  rules := h.rules
  below node p ref ho href := Nat.lt_of_lt_of_le (h.below node p ref ho href) hk
  fits node p ref ho href := by rw [hd _ (h.below node p ref ho href), h.fits node p ref ho href]

/-- Every reference is found out about, with the layers of its place. -/
theorem reference_found {P : Token → Prop} {program : List Stmt} (hs : stmtsShaped P program)
    (hrules : ObeysRules program) {node : Node} {p : Place} {ref : Reference}
    (ho : Occurs program node p) (href : node.reference? = some ref) :
    .reference ref (depthIn p.layers ref.name) ∈ resolve program := by
  obtain ⟨scopes, hc, hfound⟩ := ho.findings hs
  refine hfound _ ?_
  rw [← hc.depthOf? ref.name]
  unfold Node.reference? at href
  split at href <;> cases href
  · show _ ∈ scopes.readFindings ref
    unfold Scopes.readFindings
    split
    · exact List.mem_cons_of_mem _ List.mem_cons_self
    · exact List.mem_cons_self
  · exact List.mem_append_right _ List.mem_cons_self
  · have hclass := hrules.this _ _ ho
    show _ ∈ scopes.thisFindings p.ctx ref
    unfold Scopes.thisFindings
    cases hk : p.ctx.ofClass with
    | none => exact absurd hk hclass
    | base | derived => exact List.mem_cons_self
  · have hclass := hrules.super _ _ _ ho
    show _ ∈ scopes.superFindings p.ctx ref
    rw [Scopes.superFindings, hclass]
    exact List.mem_cons_self

section Parsed

variable {tokens : List Token} {nextId : Nat} {d : Distances}

/-- What is noted about a program is about its own numbers. -/
theorem find?_noteAll_parsed (h : (Syntax.parse tokens nextId).errors = []) {id : RefId}
    (hid : id.index < nextId ∨ (Syntax.parse tokens nextId).nextId ≤ id.index) :
    (d.noteAll (resolve (Syntax.parse tokens nextId).statements)).find? id = d.find? id := by
  refine Distances.find?_noteAll_same fun ref depth hr heq => ?_
  have hrange := (Syntax.parse_derives h).resolve_numbered.range ref depth hr
  rw [heq] at hrange
  omega

/-- What is noted about a reference is what was found out about it. -/
theorem noted_of_parse (h : (Syntax.parse tokens nextId).errors = [])
    (hd : ∀ id : RefId, nextId ≤ id.index → d.find? id = none) {ref : Reference}
    {depth : Option Nat} (hf : .reference ref depth ∈ resolve (Syntax.parse tokens nextId).statements) :
    (d.noteAll (resolve (Syntax.parse tokens nextId).statements)).find? ref.id = depth := by
  have hnumbered := (Syntax.parse_derives h).resolve_numbered
  exact Distances.find?_noteAll_new (hd ref.id (hnumbered.range ref _ hf).1) hf
    fun ref' depth' hr hid => hnumbered.single ref' ref depth' _ hr hf hid

/-- **A program that is accepted fits the table** it is noted in. -/
theorem loaded_of_parse (h : (Syntax.parse tokens nextId).errors = [])
    (hspelled : ∀ t ∈ tokens, t.Spelled)
    (hclean : complaintsOf (resolve (Syntax.parse tokens nextId).statements) = [])
    (hd : ∀ id : RefId, nextId ≤ id.index → d.find? id = none) :
    Loaded (d.noteAll (resolve (Syntax.parse tokens nextId).statements))
      (Syntax.parse tokens nextId).nextId (Syntax.parse tokens nextId).statements := by
  have hs := parse_shaped h hspelled
  have hrules := (resolve_clean_iff hs).mp (complaintsOf_eq_nil.mp hclean)
  have hnumbered := (Syntax.parse_derives h).resolve_numbered
  refine ⟨hs, hrules, fun node p ref ho href => ?_, fun node p ref ho href => ?_⟩
  · exact (hnumbered.range ref _ (reference_found hs hrules ho href)).2
  · exact noted_of_parse h hd (reference_found hs hrules ho href)

end Parsed

end Lox
