import Mathlib.Data.List.Nodup
import Mathlib.Logic.Equiv.Basic
import Lox.Proofs.Likeness.Trees
import Lox.Proofs.Scope.Methods
import Lox.Proofs.Scope.Numbering

/-!
# A local variable with another name

* `NewName`: another name for the variable or the parameter that a token declares, and the distances at
  which scoping has found the references of a program.
* `Expr.rename`, `Stmt.rename` and the rest: **a program with the new name.** It stands at the
  declaration, and at the references that scoping binds to it: those whose distance leads to the scope
  in which the declaration stands. The scopes around a place are marked for this, the innermost first.
* `NewName.Binds`: which references these are, said of the places of the program.
* `NewName.likeness`: what the new name makes a program differ in.
* `StmtsLike.of_rename`: a program with the new name is like the program.
-/

namespace Lox

/-! ## 1. Where a variable is declared -/

/-- Whether a statement makes the variable that a token declares. -/
def Stmt.makes (decl : Token) : Stmt → Bool
  | .varDecl name _ => name == decl
  | _ => false

/-- **Whether a token declares a variable or a parameter of a scope.** -/
def Region.declares (decl : Token) : Region → Bool
  | .block (.block body) => body.any (·.makes decl)
  | .loop (.forLoop init _ _ _) => init.any (·.makes decl)
  | .call (.mk params body) => params.contains decl || body.any (·.makes decl)
  | _ => false

/-- In which scopes around a place a token declares a variable or a parameter. -/
def Place.marks (decl : Token) (p : Place) : List Bool := p.layers.map (·.region.declares decl)

@[simp] theorem Place.marks_declare (decl : Token) (p : Place) (name : String) :
    (p.declare name).marks decl = p.marks decl := by
  obtain ⟨ctx, layers⟩ := p
  cases layers <;> rfl

/-- The marks of the scopes of the methods of a class: it makes `super` and `this` in them. -/
def classMarks (superclass : Option Reference) (marks : List Bool) : List Bool :=
  match superclass with
  | none => false :: marks
  | some _ => false :: false :: marks

theorem Place.marks_inClass (decl : Token) (p : Place) (s : Stmt) (superclass : Option Reference) :
    (p.inClass s superclass).marks decl = classMarks superclass (p.marks decl) := by
  cases superclass <;> rfl

/-! ## 2. The new name -/

/-- **Another name** for the variable or the parameter that a token declares. -/
structure NewName where
  /-- How far out scoping has found the references of the program. -/
  distances : Distances
  decl : Token
  name : String
  decl_plain : Plain decl.lexeme
  name_plain : Plain name

/-- A token with another name. -/
def Token.named (t : Token) (name : String) : Token := { t with lexeme := name }

/-- A reference with another name. -/
def Reference.named (ref : Reference) (name : String) : Reference :=
  { ref with token := ref.token.named name }

namespace NewName

/-- The declaration gets the new name, any other token stays. -/
def token (R : NewName) (t : Token) : Token := if t = R.decl then t.named R.name else t

/-- **A reference gets the new name** if the scope that it means is marked. -/
def reference (R : NewName) (marks : List Bool) (ref : Reference) : Reference :=
  if ref.name = R.decl.lexeme ∧ ((R.distances.find? ref.id).bind fun k => marks[k]?) = some true then
    ref.named R.name
  else
    ref

end NewName

mutual

/-- An expression with the new name. -/
def Expr.rename (R : NewName) (marks : List Bool) : Expr → Expr
  | .literal l => .literal l
  | .group inner => .group (inner.rename R marks)
  | .unary op operand => .unary op (operand.rename R marks)
  | .binary left op right => .binary (left.rename R marks) op (right.rename R marks)
  | .logical left op right => .logical (left.rename R marks) op (right.rename R marks)
  | .conditional condition yes no =>
    .conditional (condition.rename R marks) (yes.rename R marks) (no.rename R marks)
  | .read ref => .read (R.reference marks ref)
  | .assign ref value => .assign (R.reference marks ref) (value.rename R marks)
  | .call callee paren args => .call (callee.rename R marks) paren (renameExprs R marks args)
  | .get object name => .get (object.rename R marks) name
  | .set object name value => .set (object.rename R marks) name (value.rename R marks)
  | .this ref => .this ref
  | .super ref method => .super ref method
  | .lambda code => .lambda (code.rename R marks)

/-- Expressions with the new name. -/
def renameExprs (R : NewName) (marks : List Bool) : List Expr → List Expr
  | [] => []
  | e :: rest => e.rename R marks :: renameExprs R marks rest

/-- A function with the new name: its parameters and its body share one scope. -/
def Code.rename (R : NewName) (marks : List Bool) : Code → Code
  | .mk params body =>
    let marks := (Region.call (.mk params body)).declares R.decl :: marks
    .mk (params.map R.token) (renameAll R marks body)

/-- Methods with the new name. -/
def renameMethods (R : NewName) (marks : List Bool) : List FunDecl → List FunDecl
  | [] => []
  | .mk name code :: rest => .mk name (code.rename R marks) :: renameMethods R marks rest

/-- A statement with the new name. Global names stay. -/
def Stmt.rename (R : NewName) (marks : List Bool) : Stmt → Stmt
  | .expr e => .expr (e.rename R marks)
  | .varDecl name init =>
    .varDecl (if marks = [] then name else R.token name) (init.rename R marks)
  | .funDecl (.mk name code) => .funDecl (.mk name (code.rename R marks))
  | .classDecl name superclass methods =>
    .classDecl name (superclass.map (R.reference marks))
      (renameMethods R (classMarks superclass marks) methods)
  | .branch condition yes no =>
    .branch (condition.rename R marks) (yes.rename R marks) (renameOption R marks no)
  | .whileLoop condition body => .whileLoop (condition.rename R marks) (body.rename R marks)
  | .forLoop init condition increment body =>
    let marks := (Region.loop (.forLoop init condition increment body)).declares R.decl :: marks
    .forLoop (renameOption R marks init) (condition.rename R marks)
      (renameOptionExpr R marks increment) (body.rename R marks)
  | .block body =>
    .block (renameAll R ((Region.block (.block body)).declares R.decl :: marks) body)
  | .ret keyword value => .ret keyword (renameOptionExpr R marks value)
  | .leave keyword => .leave keyword
  | .next keyword => .next keyword

/-- **Statements with the new name.** -/
def renameAll (R : NewName) (marks : List Bool) : List Stmt → List Stmt
  | [] => []
  | s :: rest => s.rename R marks :: renameAll R marks rest

/-- A statement that may be missing, with the new name. -/
def renameOption (R : NewName) (marks : List Bool) : Option Stmt → Option Stmt
  | none => none
  | some s => some (s.rename R marks)

/-- An expression that may be missing, with the new name. -/
def renameOptionExpr (R : NewName) (marks : List Bool) : Option Expr → Option Expr
  | none => none
  | some e => some (e.rename R marks)

end

/-! ## 3. What differs -/

/-- **Scoping binds a reference to the declaration**: the scope in which the declaration stands lies as
    far out as scoping has found. -/
def NewName.Binds (R : NewName) (program : List Stmt) (ref : Reference) : Prop :=
  ref.name = R.decl.lexeme ∧ ∃ node p k l, Occurs program node p ∧ node.reference? = some ref ∧
    R.distances.find? ref.id = some k ∧ p.layers[k]? = some l ∧ l.region.declares R.decl = true

/-- Two names change places. -/
def Renaming.swap (m n : String) (hm : Plain m) (hn : Plain n) : Renaming where
  new := Equiv.swap m n
  injective := (Equiv.swap m n).injective
  this := Equiv.swap_apply_of_ne_of_ne hm.1.symm hn.1.symm

namespace NewName

variable (R : NewName)

/-- How the names of a scope change. -/
def key (marked : Bool) : Renaming :=
  if marked then .swap R.decl.lexeme R.name R.decl_plain R.name_plain else .same

/-- How the names of the scopes around a place change, with some more scopes further out. -/
def keys (outer : Nat) (marks : List Bool) : List Renaming :=
  marks.map R.key ++ List.replicate outer .same

theorem key_decl : (R.key true).new R.decl.lexeme = R.name := Equiv.swap_apply_left _ _

/-- No other name changes. -/
theorem key_other {n : String} {marked : Bool} (hn : n ≠ R.name)
    (h : marked = true → n ≠ R.decl.lexeme) : (R.key marked).new n = n := by
  cases marked with
  | false => rfl
  | true => exact Equiv.swap_apply_of_ne_of_ne (h rfl) hn

/-- Names that are not the new one stay apart in whatever scopes they are. -/
theorem key_inj {marked marked' : Bool} {m n : String} (hm : m ≠ R.name) (hn : n ≠ R.name)
    (h : (R.key marked).new m = (R.key marked').new n) : m = n := by
  by_cases hmd : m = R.decl.lexeme
  · by_cases hnd : n = R.decl.lexeme
    · rw [hmd, hnd]
    · rw [R.key_other hn fun _ => hnd] at h
      cases marked with
      | false => exact h
      | true =>
        rw [hmd, R.key_decl] at h
        exact absurd h.symm hn
  · rw [R.key_other hm fun _ => hmd] at h
    by_cases hnd : n = R.decl.lexeme
    · cases marked' with
      | false => exact h
      | true =>
        rw [hnd, R.key_decl] at h
        exact absurd h hm
    · rwa [R.key_other hn fun _ => hnd] at h

/-- **What the new name makes a program differ in.** Where `others` holds, the new name may be a name of
    another program. -/
def likeness (program : List Stmt) (others : Prop) : Likeness where
  scope r := ∃ marked, r = R.key marked
  names n := others ∨ n ≠ R.name
  ref keys ref ref' := (others ∨ ref.name ≠ R.name) ∧
    ref'.name = spelled keys (R.distances.find? ref.id) ref.name ∧
    (ref' = ref ∨ R.Binds program ref ∧ ref' = ref.named R.name)
  pos p p' := p' = p
  undefined t t' := TokenLike (fun p p' => p' = p) t t' ∨
    ∃ ref, R.Binds program ref ∧ t = ref.token ∧ t' = ref.token.named R.name
  same := ⟨false, rfl⟩
  names_this := .inr R.name_plain.1.symm
  names_super := .inr R.name_plain.2.symm
  pos_refl _ := rfl
  undefined_token := .inl
  ref_pos := by
    rintro keys ref ref' ⟨-, -, rfl | ⟨-, rfl⟩⟩ <;> rfl
  ref_undefined := by
    rintro keys ref ref' ⟨-, -, rfl | ⟨h, rfl⟩⟩
    · exact .inl ⟨rfl, rfl, rfl⟩
    · exact .inr ⟨ref, h, rfl, rfl⟩

section Keys

variable {marks : List Bool} {outer : Nat} {ref : Reference}

/-- Scopes that are not marked keep their names, as those do that are further out. -/
theorem key_at (d : Option Nat) :
    ((d.bind fun k => (R.keys outer marks)[k]?).getD .same)
      = R.key ((d.bind fun k => marks[k]?).getD false) := by
  cases d with
  | none => rfl
  | some k =>
    show ((marks.map R.key ++ List.replicate outer .same)[k]?).getD .same
      = R.key ((marks[k]?).getD false)
    have hlength : (marks.map R.key).length = marks.length := List.length_map _
    by_cases hk : k < marks.length
    · rw [List.getElem?_append_left (by omega), List.getElem?_map, List.getElem?_eq_getElem hk]
      rfl
    · have hnone : marks[k]? = none := List.getElem?_eq_none (by omega)
      rw [List.getElem?_append_right (by omega), hnone]
      cases hr : (List.replicate outer Renaming.same)[k - (marks.map R.key).length]? with
      | none => rfl
      | some r => exact List.eq_of_mem_replicate (List.mem_of_getElem? hr)

/-- **A reference** has the name that the variable it means has. -/
theorem reference_name (h : ref.name ≠ R.name) :
    (R.reference marks ref).name
      = spelled (R.keys outer marks) (R.distances.find? ref.id) ref.name := by
  unfold reference spelled
  rw [R.key_at]
  split
  · next hmeant =>
    rw [hmeant.2, hmeant.1]
    exact R.key_decl.symm
  · next hother =>
    refine (R.key_other h fun hmarked hname => hother ⟨hname, ?_⟩).symm
    cases hb : (R.distances.find? ref.id).bind fun k => marks[k]? with
    | none =>
      rw [hb] at hmarked
      cases hmarked
    | some b =>
      rw [hb] at hmarked
      rw [show b = true from hmarked]

end Keys

end NewName

/-! ## 4. One declaration a scope -/

section Scopes

variable {R : NewName} {marks : List Bool} {params : List Token} {body : List Stmt}

/-- Of the statements in a marked scope, the one that declares the name is the declaration, and in any
    other scope none is. -/
def Stmt.Alone (R : NewName) (marks : List Bool) (s : Stmt) : Prop :=
  ∀ marked, marks.head? = some marked →
    (s.makes R.decl = true ↔ marked = true ∧ s.declared? = some R.decl.lexeme)

theorem Stmt.declared_of_makes {s : Stmt} {decl : Token} (h : s.makes decl = true) :
    s.declared? = some decl.lexeme := by
  cases s with
  | varDecl name init =>
    obtain rfl : name = decl := eq_of_beq h
    rfl
  | _ => cases h

theorem Stmt.alone_of_none {s : Stmt} (h : s.declared? = none) : s.Alone R marks := by
  intro marked _
  rw [h]
  refine ⟨fun hmakes => ?_, fun hnone => nomatch hnone.2⟩
  rw [Stmt.declared_of_makes hmakes] at h
  cases h

/-- Two statements of one scope do not declare one name. -/
theorem declared_unique (h : (declaredBy body).Nodup) {s s' : Stmt} {n : String} (hs : s ∈ body)
    (hs' : s' ∈ body) (hn : s.declared? = some n) (hn' : s'.declared? = some n) : s = s' := by
  have hmem : ∀ {ss : List Stmt} {s : Stmt}, s ∈ ss → s.declared? = some n → n ∈ declaredBy ss :=
    fun hs hn => List.mem_filterMap.mpr ⟨_, hs, hn⟩
  induction body with
  | nil => cases hs
  | cons first rest ih =>
    have hrest : (declaredBy rest).Nodup := h.sublist (List.Sublist.filterMap _ (List.sublist_cons_self _ _))
    have hfirst : first.declared? = some n → n ∉ declaredBy rest := by
      intro hd hmore
      unfold declaredBy at h
      rw [List.filterMap_cons_some hd] at h
      exact (List.nodup_cons.mp h).1 hmore
    rcases List.mem_cons.mp hs with rfl | hin
    · rcases List.mem_cons.mp hs' with rfl | hin'
      · rfl
      · exact absurd (hmem hin' hn') (hfirst hn)
    · rcases List.mem_cons.mp hs' with rfl | hin'
      · exact absurd (hmem hin hn) (hfirst hn')
      · exact ih hrest hin hin'

/-- **The declaration is alone** among the parameters and the statements of a function. -/
theorem call_alone (R : NewName) (marks : List Bool) (h : (params.map Token.lexeme ++ declaredBy body).Nodup) :
    (∀ t ∈ params, t = R.decl ↔
      (Region.call (.mk params body)).declares R.decl = true ∧ t.lexeme = R.decl.lexeme) ∧
    ∀ s ∈ body, s.Alone R ((Region.call (.mk params body)).declares R.decl :: marks) := by
  obtain ⟨hparams, hbody, hapart⟩ := List.nodup_append.mp h
  have hdeclares : (Region.call (.mk params body)).declares R.decl = true ↔
      R.decl ∈ params ∨ ∃ s ∈ body, s.makes R.decl = true := by
    simp [Region.declares]
  have hnot : ∀ t ∈ params, ∀ s ∈ body, s.declared? ≠ some t.lexeme := fun t ht s hs hd =>
    hapart _ (List.mem_map_of_mem ht) _ (List.mem_filterMap.mpr ⟨s, hs, hd⟩) rfl
  rw [hdeclares]
  refine ⟨fun t ht => ⟨?_, ?_⟩, fun s hs marked hmarked => ?_⟩
  · rintro rfl
    exact ⟨.inl ht, rfl⟩
  · rintro ⟨hdecl | ⟨s, hs, hmakes⟩, hname⟩
    · exact List.inj_on_of_nodup_map hparams ht hdecl hname
    · exact absurd (hname ▸ Stmt.declared_of_makes hmakes) (hnot t ht s hs)
  · obtain rfl : _ = marked := Option.some.inj hmarked
    rw [hdeclares]
    refine ⟨fun hmakes => ⟨.inr ⟨s, hs, hmakes⟩, Stmt.declared_of_makes hmakes⟩, ?_⟩
    rintro ⟨hdecl | ⟨s', hs', hmakes⟩, hd⟩
    · exact absurd hd (hnot _ hdecl s hs)
    · rw [declared_unique hbody hs hs' hd (Stmt.declared_of_makes hmakes)]
      exact hmakes

/-- What a loop starts with is the only statement of its scope. -/
theorem loop_alone (s : Stmt) {condition : Expr} {increment : Option Expr} {body : Stmt} :
    s.Alone R ((Region.loop (.forLoop (some s) condition increment body)).declares R.decl :: marks) := by
  intro marked hmarked
  obtain rfl : _ = marked := Option.some.inj hmarked
  exact ⟨fun h => ⟨h, Stmt.declared_of_makes h⟩, fun h => h.1⟩

theorem block_alone (h : (declaredBy body).Nodup) :
    ∀ s ∈ body, s.Alone R ((Region.block (.block body)).declares R.decl :: marks) := by
  have hcall : ([].map Token.lexeme ++ declaredBy body).Nodup := h
  exact (call_alone R marks hcall).2

end Scopes

/-! ## 5. The program with the new name -/

section Rename

variable {R : NewName} {program : List Stmt} {others : Prop} {outer : Nat}

/-- **The new name occurs nowhere** in a program that keeps the rules of scoping. -/
structure NewName.Fresh (R : NewName) (program : List Stmt) : Prop where
  shaped : stmtsShaped (fun t => t.Spelled ∧ t.lexeme ≠ R.name) program
  rules : ObeysRules program

/-- A part of a program, with the marks of the scopes around it. -/
def MarkedAt (R : NewName) (program : List Stmt) (node : Node) (marks : List Bool) : Prop :=
  ∃ p, Occurs program node p ∧ p.marks R.decl = marks

/-- One step down the tree, in the same scopes. -/
theorem MarkedAt.into {node child : Node} {marks : List Bool} (h : MarkedAt R program node marks)
    {q : Place → Place} (hi : ∀ p, Inside node p child (q p))
    (hq : ∀ p, (q p).marks R.decl = p.marks R.decl) : MarkedAt R program child marks := by
  obtain ⟨p, ho, rfl⟩ := h
  exact ⟨q p, ho.inside (hi p), hq p⟩

theorem MarkedAt.shaped {node : Node} {marks : List Bool} (h : MarkedAt R program node marks)
    (hfresh : R.Fresh program) : node.Shaped fun t => t.Spelled ∧ t.lexeme ≠ R.name := by
  obtain ⟨p, ho, -⟩ := h
  exact ho.shaped hfresh.shaped

variable {node : Node} {ref : Reference} {marks : List Bool}

/-- A reference, which scoping binds to the declaration or to something else. -/
theorem MarkedAt.reference (h : MarkedAt R program node marks) (href : node.reference? = some ref)
    (hne : ref.name ≠ R.name) :
    (R.likeness program others).ref (R.keys outer marks) ref (R.reference marks ref) := by
  refine ⟨.inr hne, R.reference_name hne, ?_⟩
  unfold NewName.reference
  split
  · next hmeant =>
    obtain ⟨p, ho, rfl⟩ := h
    obtain ⟨k, hk, hmark⟩ := Option.bind_eq_some_iff.mp hmeant.2
    unfold Place.marks at hmark
    rw [List.getElem?_map] at hmark
    obtain ⟨l, hl, hdeclares⟩ := Option.map_eq_some_iff.mp hmark
    exact .inr ⟨⟨hmeant.1, node, p, k, l, ho, href, hk, hl, hdeclares⟩, rfl⟩
  · exact .inl rfl

/-- A `this` or a `super` stays. -/
theorem MarkedAt.reference_stays (h : MarkedAt R program node marks)
    (href : node.reference? = some ref)
    (hword : ref.name = thisName ∨ ref.name = superName) :
    (R.likeness program others).ref (R.keys outer marks) ref ref := by
  have hdecl : ref.name ≠ R.decl.lexeme := by
    rcases hword with hword | hword <;> rw [hword]
    · exact R.decl_plain.1.symm
    · exact R.decl_plain.2.symm
  have hname : ref.name ≠ R.name := by
    rcases hword with hword | hword <;> rw [hword]
    · exact R.name_plain.1.symm
    · exact R.name_plain.2.symm
  have hstays : R.reference marks ref = ref := if_neg fun hmeant => hdecl hmeant.1
  have hlike : (R.likeness program others).ref (R.keys outer marks) ref (R.reference marks ref) :=
    h.reference href hname
  rwa [hstays] at hlike

theorem token_like (t : Token) : (R.likeness program others).Token t t := ⟨rfl, rfl, rfl⟩

theorem innermost_top : innermost (R.keys outer []) = .same := by
  cases outer <;> rfl

/-- The name that a declaration brings in. -/
theorem token_declared {marked : Bool} {t : Token} (hne : t.lexeme ≠ R.name)
    (h : t = R.decl ↔ marked = true ∧ t.lexeme = R.decl.lexeme) :
    (R.likeness program others).Declared (R.key marked) t (R.token t) := by
  unfold NewName.token
  split
  · next hdecl =>
    obtain ⟨rfl, -⟩ := h.mp hdecl
    rw [hdecl] at hne ⊢
    exact ⟨⟨rfl, R.key_decl.symm, rfl⟩, .inr hne⟩
  · next hother =>
    refine ⟨⟨rfl, (R.key_other hne fun hmarked hname => ?_).symm, rfl⟩, .inr hne⟩
    exact hother (h.mpr ⟨hmarked, hname⟩)

/-- The name of a function or a class stays. -/
theorem name_stays {s : Stmt} {t : Token} (hne : t.lexeme ≠ R.name)
    (hd : s.declared? = some t.lexeme) (hmakes : s.makes R.decl = false)
    (halone : s.Alone R marks) : (innermost (R.keys outer marks)).new t.lexeme = t.lexeme := by
  cases marks with
  | nil =>
    rw [innermost_top]
    rfl
  | cons marked rest =>
    refine R.key_other hne fun hmarked hname => ?_
    have hdecl := (halone marked rfl).mpr ⟨hmarked, by rw [hd, hname]⟩
    rw [hmakes] at hdecl
    cases hdecl

mutual

theorem Expr.rename_like (hfresh : R.Fresh program) (e : Expr) {marks : List Bool} (h : MarkedAt R program (.expr e) marks) :
    ExprLike (R.likeness program others) (R.keys outer marks) e (e.rename R marks) :=
  match e with
  | .literal _ => .literal
  | .group inner => .group (inner.rename_like hfresh (h.into (fun _ => .group) fun _ => rfl))
  | .unary op operand =>
    .unary (token_like op) (operand.rename_like hfresh (h.into (fun _ => .operand) fun _ => rfl))
  | .binary left op right =>
    .binary (left.rename_like hfresh (h.into (fun _ => .binaryLeft) fun _ => rfl)) (token_like op)
      (right.rename_like hfresh (h.into (fun _ => .binaryRight) fun _ => rfl))
  | .logical left op right =>
    .logical (left.rename_like hfresh (h.into (fun _ => .logicalLeft) fun _ => rfl)) (token_like op)
      (right.rename_like hfresh (h.into (fun _ => .logicalRight) fun _ => rfl))
  | .conditional condition yes no =>
    .conditional (condition.rename_like hfresh (h.into (fun _ => .choiceCondition) fun _ => rfl))
      (yes.rename_like hfresh (h.into (fun _ => .choiceYes) fun _ => rfl))
      (no.rename_like hfresh (h.into (fun _ => .choiceNo) fun _ => rfl))
  | .read _ => .read (h.reference rfl (h.shaped hfresh).2.2)
  | .assign _ value =>
    .assign (h.reference rfl (h.shaped hfresh).1.2.2)
      (value.rename_like hfresh (h.into (fun _ => .assigned) fun _ => rfl))
  | .call callee paren args =>
    .call (callee.rename_like hfresh (h.into (fun _ => .callee) fun _ => rfl)) (token_like paren)
      (renameExprs_like hfresh args fun _ he => h.into (fun _ => .argument he) fun _ => rfl)
  | .get object name =>
    .get (object.rename_like hfresh (h.into (fun _ => .getObject) fun _ => rfl)) (token_like name)
  | .set object name value =>
    .set (object.rename_like hfresh (h.into (fun _ => .setObject) fun _ => rfl)) (token_like name)
      (value.rename_like hfresh (h.into (fun _ => .setValue) fun _ => rfl))
  | .this _ =>
    .this (h.reference_stays rfl
      (.inl ((h.shaped hfresh).2.1.this (h.shaped hfresh).1)))
  | .super _ method =>
    .super (h.reference_stays rfl
      (.inr ((h.shaped hfresh).2.1.super (h.shaped hfresh).1))) (token_like method)
  | .lambda code => .lambda (code.rename_like hfresh (h.into (fun _ => .lambda) fun _ => rfl))

theorem renameExprs_like (hfresh : R.Fresh program) (es : List Expr) {marks : List Bool}
    (h : ∀ e ∈ es, MarkedAt R program (.expr e) marks) :
    ExprsLike (R.likeness program others) (R.keys outer marks) es (renameExprs R marks es) :=
  match es with
  | [] => .nil
  | e :: rest =>
    .cons (e.rename_like hfresh (h e List.mem_cons_self))
      (renameExprs_like hfresh rest fun e he => h e (List.mem_cons_of_mem _ he))

theorem Code.rename_like (hfresh : R.Fresh program) (c : Code) {marks : List Bool} (h : MarkedAt R program (.code c) marks) :
    CodeLike (R.likeness program others) (R.keys outer marks) c (c.rename R marks) :=
  match c with
  | .mk params body => by
    obtain ⟨p, ho, rfl⟩ := h
    have hshaped := ho.shaped hfresh.shaped
    obtain ⟨hparams, hbody⟩ := call_alone R (p.marks R.decl)
      (hfresh.rules.functions params body p ho)
    refine .mk ⟨_, rfl⟩ ?_ (renameAll_like hfresh body fun s hs => ⟨?_, hbody s hs⟩)
    · rw [List.forall₂_map_right_iff]
      exact List.forall₂_same.mpr fun t ht => token_declared (hshaped.1 t ht).2.2 (hparams t ht)
    · obtain ⟨before, after, rfl⟩ := List.append_of_mem hs
      exact ⟨_, ho.inside .body, rfl⟩

theorem renameMethods_like (hfresh : R.Fresh program) (ms : List FunDecl) {marks : List Bool}
    (h : ∀ m c, FunDecl.mk m c ∈ ms → MarkedAt R program (.code c) marks) :
    MethodsLike (R.likeness program others) (R.keys outer marks) ms (renameMethods R marks ms) :=
  match ms with
  | [] => .nil
  | .mk name code :: rest =>
    .cons (token_like name) (code.rename_like hfresh (h name code List.mem_cons_self))
      (renameMethods_like hfresh rest fun m c hm => h m c (List.mem_cons_of_mem _ hm))

theorem Stmt.rename_like (hfresh : R.Fresh program) (s : Stmt) {marks : List Bool} (h : MarkedAt R program (.stmt s) marks)
    (halone : s.Alone R marks) :
    StmtLike (R.likeness program others) (R.keys outer marks) s (s.rename R marks) :=
  match s with
  | .expr e => .expr (e.rename_like hfresh (h.into (fun _ => .expression) fun _ => rfl))
  | .varDecl name init => by
    have hne : name.lexeme ≠ R.name := (h.shaped hfresh).1.2.2
    have hinit := init.rename_like hfresh (h.into (fun _ => .initializer) fun p => p.marks_declare _ _)
    refine .varDecl ?_ hinit
    cases marks with
    | nil =>
      rw [innermost_top]
      exact ⟨⟨rfl, rfl, rfl⟩, .inr hne⟩
    | cons marked rest =>
      refine token_declared hne ?_
      have hiff := halone marked rfl
      rwa [Stmt.makes, beq_iff_eq, Stmt.declared?, Option.some_inj] at hiff
  | .funDecl (.mk name code) => by
    have hne : name.lexeme ≠ R.name := (h.shaped hfresh).1.2.2
    have hcode := code.rename_like hfresh (h.into (fun _ => .function) fun p => p.marks_declare _ _)
    exact .funDecl (token_like name) (.inr hne) (name_stays hne rfl rfl halone) hcode
  | .classDecl name superclass methods => by
    have hne : name.lexeme ≠ R.name := (h.shaped hfresh).1.2.2
    refine .classDecl (token_like name) (.inr hne) (name_stays hne rfl rfl halone) ?_ ?_
    · cases superclass with
      | none => exact .none
      | some ref =>
        have hread : MarkedAt R program (.expr (.read ref)) marks :=
          h.into (fun _ => .superclass) fun p => p.marks_declare _ _
        exact .some (hread.reference rfl (hread.shaped hfresh).2.2)
    · have hkeys : .same :: classKeys superclass (R.keys outer marks)
          = R.keys outer (classMarks superclass marks) := by
        cases superclass <;> rfl
      rw [hkeys]
      obtain ⟨p, ho, rfl⟩ := h
      refine renameMethods_like hfresh methods fun m c hm => ⟨_, ho.inside (.method hm), ?_⟩
      show ((p.declare name.lexeme).inClass _ _).marks R.decl = _
      rw [Place.marks_inClass, Place.marks_declare]
  | .branch condition yes no =>
    have hshaped := h.shaped hfresh
    .branch (condition.rename_like hfresh (h.into (fun _ => .branchCondition) fun _ => rfl))
      (yes.rename_like hfresh (h.into (fun _ => .branchYes) fun _ => rfl)
        (Stmt.alone_of_none hshaped.2.2.1))
      (renameOption_like hfresh no fun s hs => by
        subst hs
        exact ⟨h.into (fun _ => .branchNo) fun _ => rfl, Stmt.alone_of_none hshaped.2.2.2.2⟩)
  | .whileLoop condition body =>
    .whileLoop (condition.rename_like hfresh (h.into (fun _ => .whileCondition) fun _ => rfl))
      (body.rename_like hfresh (h.into (fun _ => .whileBody) fun _ => rfl)
        (Stmt.alone_of_none (h.shaped hfresh).2.2))
  | .forLoop init condition increment body => by
    have hshaped := h.shaped hfresh
    obtain ⟨p, ho, rfl⟩ := h
    let inner := (Region.loop (.forLoop init condition increment body)).declares R.decl :: p.marks R.decl
    have hinit : OptionStmtLike (R.likeness program others) (R.keys outer inner) init
        (renameOption R inner init) := renameOption_like hfresh init fun s hs => by
      subst hs
      exact ⟨⟨_, ho.inside .loopStart, rfl⟩, loop_alone s⟩
    have hincrement : OptionExprLike (R.likeness program others) (R.keys outer inner) increment
        (renameOptionExpr R inner increment) := renameOptionExpr_like hfresh increment fun e he => by
      subst he
      exact ⟨_, ho.inside .loopIncrement, rfl⟩
    exact .forLoop ⟨_, rfl⟩ hinit (condition.rename_like hfresh ⟨_, ho.inside .loopCondition, rfl⟩)
      hincrement (body.rename_like hfresh ⟨_, ho.inside .loopBody, rfl⟩
        (Stmt.alone_of_none hshaped.2.2.2.2))
  | .block body => by
    obtain ⟨p, ho, rfl⟩ := h
    refine .block ⟨_, rfl⟩ (renameAll_like hfresh body fun s hs =>
      ⟨?_, block_alone (hfresh.rules.blocks body p ho) s hs⟩)
    obtain ⟨before, after, rfl⟩ := List.append_of_mem hs
    exact ⟨_, ho.inside .block, rfl⟩
  | .ret keyword value =>
    .ret (token_like keyword) (renameOptionExpr_like hfresh value fun e he => by
      subst he
      exact h.into (fun _ => .returned) fun _ => rfl)
  | .leave keyword => .leave (token_like keyword)
  | .next keyword => .next (token_like keyword)

theorem renameOption_like (hfresh : R.Fresh program) (o : Option Stmt) {marks : List Bool}
    (h : ∀ s, o = some s → MarkedAt R program (.stmt s) marks ∧ s.Alone R marks) :
    OptionStmtLike (R.likeness program others) (R.keys outer marks) o (renameOption R marks o) :=
  match o with
  | none => .none
  | some s => .some (s.rename_like hfresh (h s rfl).1 (h s rfl).2)

theorem renameOptionExpr_like (hfresh : R.Fresh program) (o : Option Expr) {marks : List Bool}
    (h : ∀ e, o = some e → MarkedAt R program (.expr e) marks) :
    OptionExprLike (R.likeness program others) (R.keys outer marks) o
      (renameOptionExpr R marks o) :=
  match o with
  | none => .none
  | some e => .some (e.rename_like hfresh (h e rfl))

theorem renameAll_like (hfresh : R.Fresh program) (ss : List Stmt) {marks : List Bool}
    (h : ∀ s ∈ ss, MarkedAt R program (.stmt s) marks ∧ s.Alone R marks) :
    StmtsLike (R.likeness program others) (R.keys outer marks) ss (renameAll R marks ss) :=
  match ss with
  | [] => .nil
  | s :: rest =>
    .cons (s.rename_like hfresh (h s List.mem_cons_self).1 (h s List.mem_cons_self).2)
      (renameAll_like hfresh rest fun s hs => h s (List.mem_cons_of_mem _ hs))

end

/-- **A program with the new name is like the program**, at the top and around any scopes further out. -/
theorem StmtsLike.of_rename (outer : Nat) (hfresh : R.Fresh program) :
    StmtsLike (R.likeness program others) (List.replicate outer .same) program
      (renameAll R [] program) :=
  renameAll_like hfresh program fun _ hs => ⟨⟨.top, .top hs, rfl⟩, fun _ hmarked => nomatch hmarked⟩

end Rename

end Lox
