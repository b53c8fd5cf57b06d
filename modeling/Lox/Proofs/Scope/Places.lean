import Lox.Proofs.Scope.Findings

/-!
# Places of a program

Where the parts of a program stand, said on the tree and apart from the walk that scoping makes.

* A `Node` is an expression, a function or a statement; a `Region` is a part of a program that has a
  scope of its own.
* A `Place` is what is around a node: the innermost function and class, and the scopes (`Layer`) from
  the innermost outwards, each with the names that are declared in it in front of the node. The global
  names belong to no layer.
* `Inside node p child q`: `child` is a part of `node`, and stands at `q` where `node` stands at `p`.
  It is one step down the tree; `Occurs` is any number of them from the top of a program.
-/

namespace Lox

/-! ## 1. Nodes and scopes -/

/-- A part of a program. -/
inductive Node where
  | expr (e : Expr)
  | code (c : Code)
  | stmt (s : Stmt)

/-- A part of a program that has a scope of its own. -/
inductive Region where
  /-- A block. -/
  | block (s : Stmt)
  /-- A `for` loop, whatever its number of turns. -/
  | loop (s : Stmt)
  /-- A function: its parameters and its body. -/
  | call (c : Code)
  /-- The methods of a class that has a superclass, around `this`. -/
  | super (s : Stmt)
  /-- The methods of a class. -/
  | this (s : Stmt)

/-- Whether statements stand in a region itself, and not only in its functions. -/
def Region.runs : Region → Bool
  | .block _ | .loop _ | .call _ => true
  | .super _ | .this _ => false

/-- A scope around a place: where it comes from, and the names declared in it so far. -/
structure Layer where
  region : Region
  names : List String

/-- How many layers lie between a place and the innermost one that has a name. -/
def depthIn : List Layer → String → Option Nat
  | [], _ => none
  | l :: outer, name => if name ∈ l.names then some 0 else (depthIn outer name).map (· + 1)

/-- What is around a node. -/
structure Place where
  ctx : Context
  layers : List Layer

/-- The name that a statement adds to the scope it stands in. -/
def Stmt.declared? : Stmt → Option String
  | .varDecl name _ => some name.lexeme
  | .funDecl decl => some decl.name.lexeme
  | .classDecl name _ _ => some name.lexeme
  | _ => none

/-- The names that some statements add to the scope they stand in. -/
def declaredBy (ss : List Stmt) : List String := ss.filterMap Stmt.declared?

/-- The code is that of a method of the class that a statement declares. -/
def Stmt.hasMethod : Stmt → Code → Prop
  | .classDecl _ _ methods, code => ∃ name, FunDecl.mk name code ∈ methods
  | _, _ => False

namespace Place

/-- Outside all functions, classes and scopes. -/
def top : Place := ⟨⟨.none, .none⟩, []⟩

/-- Behind the declaration of a name. Names of no layer are not kept track of. -/
def declare (p : Place) (name : String) : Place :=
  match p.layers with
  | [] => p
  | l :: outer => { p with layers := { l with names := l.names ++ [name] } :: outer }

/-- In a scope of its own. -/
def push (p : Place) (region : Region) (names : List String) : Place :=
  { p with layers := ⟨region, names⟩ :: p.layers }

/-- Within a function. -/
def inFunction (p : Place) (f : FunctionContext) : Place := { p with ctx := { p.ctx with function := f } }

/-- The scopes of the methods of a class. -/
def classLayers (p : Place) (s : Stmt) (superclass : Option Reference) : List Layer :=
  match superclass with
  | none => ⟨.this s, [thisName]⟩ :: p.layers
  | some _ => ⟨.this s, [thisName]⟩ :: ⟨.super s, [superName]⟩ :: p.layers

/-- Within the class that the statement `s` declares. -/
def inClass (p : Place) (s : Stmt) (superclass : Option Reference) : Place :=
  ⟨p.ctx.inClass superclass, p.classLayers s superclass⟩

end Place

/-! ## 2. One step down the tree -/

/-- **`child` is a part of `node`**, and stands at the second place where `node` stands at the first. -/
inductive Inside : Node → Place → Node → Place → Prop where
  -- expressions
  | group {p e} : Inside (.expr (.group e)) p (.expr e) p
  | operand {p op e} : Inside (.expr (.unary op e)) p (.expr e) p
  | binaryLeft {p l op r} : Inside (.expr (.binary l op r)) p (.expr l) p
  | binaryRight {p l op r} : Inside (.expr (.binary l op r)) p (.expr r) p
  | logicalLeft {p l op r} : Inside (.expr (.logical l op r)) p (.expr l) p
  | logicalRight {p l op r} : Inside (.expr (.logical l op r)) p (.expr r) p
  | choiceCondition {p c y n} : Inside (.expr (.conditional c y n)) p (.expr c) p
  | choiceYes {p c y n} : Inside (.expr (.conditional c y n)) p (.expr y) p
  | choiceNo {p c y n} : Inside (.expr (.conditional c y n)) p (.expr n) p
  | assigned {p ref v} : Inside (.expr (.assign ref v)) p (.expr v) p
  | callee {p f paren args} : Inside (.expr (.call f paren args)) p (.expr f) p
  | argument {p f paren args e} (h : e ∈ args) : Inside (.expr (.call f paren args)) p (.expr e) p
  | getObject {p o n} : Inside (.expr (.get o n)) p (.expr o) p
  | setObject {p o n v} : Inside (.expr (.set o n v)) p (.expr o) p
  | setValue {p o n v} : Inside (.expr (.set o n v)) p (.expr v) p
  | lambda {p c} : Inside (.expr (.lambda c)) p (.code c) (p.inFunction .function)
  -- functions
  | body {p params before s after} :
      Inside (.code (.mk params (before ++ s :: after))) p (.stmt s)
        (p.push (.call (.mk params (before ++ s :: after)))
          (params.map Token.lexeme ++ declaredBy before))
  -- statements
  | expression {p e} : Inside (.stmt (.expr e)) p (.expr e) p
  | initializer {p name e} :
      Inside (.stmt (.varDecl name e)) p (.expr e) (p.declare name.lexeme)
  | function {p name c} : Inside (.stmt (.funDecl (.mk name c))) p (.code c)
      ((p.declare name.lexeme).inFunction .function)
  | superclass {p name ref methods} : Inside (.stmt (.classDecl name (some ref) methods)) p
      (.expr (.read ref)) (p.declare name.lexeme)
  | method {p name superclass methods m c} (h : FunDecl.mk m c ∈ methods) :
      Inside (.stmt (.classDecl name superclass methods)) p (.code c)
        (((p.declare name.lexeme).inClass (.classDecl name superclass methods) superclass).inFunction
          (.ofMethod m))
  | branchCondition {p c y n} : Inside (.stmt (.branch c y n)) p (.expr c) p
  | branchYes {p c y n} : Inside (.stmt (.branch c y n)) p (.stmt y) p
  | branchNo {p c y n} : Inside (.stmt (.branch c y (some n))) p (.stmt n) p
  | whileCondition {p c b} : Inside (.stmt (.whileLoop c b)) p (.expr c) p
  | whileBody {p c b} : Inside (.stmt (.whileLoop c b)) p (.stmt b) p
  | loopStart {p s c i b} : Inside (.stmt (.forLoop (some s) c i b)) p (.stmt s)
      (p.push (.loop (.forLoop (some s) c i b)) [])
  | loopCondition {p s c i b} : Inside (.stmt (.forLoop s c i b)) p (.expr c)
      (p.push (.loop (.forLoop s c i b)) (declaredBy s.toList))
  | loopIncrement {p s c i b} : Inside (.stmt (.forLoop s c (some i) b)) p (.expr i)
      (p.push (.loop (.forLoop s c (some i) b)) (declaredBy s.toList))
  | loopBody {p s c i b} : Inside (.stmt (.forLoop s c i b)) p (.stmt b)
      (p.push (.loop (.forLoop s c i b)) (declaredBy s.toList))
  | block {p before s after} : Inside (.stmt (.block (before ++ s :: after))) p (.stmt s)
      (p.push (.block (.block (before ++ s :: after))) (declaredBy before))
  | returned {p keyword e} : Inside (.stmt (.ret keyword (some e))) p (.expr e) p

/-- **A node occurs in a program** at a place. -/
inductive Occurs (program : List Stmt) : Node → Place → Prop where
  | top {s} (h : s ∈ program) : Occurs program (.stmt s) .top
  | inside {node p child q} (h : Occurs program node p) (hi : Inside node p child q) :
      Occurs program child q

/-- A declaration adds to the innermost region, which stays. -/
theorem Place.runs_declare {p : Place} {name : String}
    (h : ∀ l ∈ p.layers.head?, l.region.runs = true) :
    ∀ l ∈ (p.declare name).layers.head?, l.region.runs = true := by
  obtain ⟨ctx, layers⟩ := p
  cases layers with
  | nil => exact h
  | cons l outer =>
    rintro _ ⟨⟩
    exact h l rfl

/-- **The innermost region around an expression or a statement** is one in which statements stand. -/
theorem Occurs.runs {program : List Stmt} {node : Node} {p : Place} (h : Occurs program node p)
    (hnode : ∀ c, node ≠ .code c) : ∀ l ∈ p.layers.head?, l.region.runs = true := by
  induction h with
  | top => exact fun _ hl => nomatch hl
  | @inside node p child q _ hi ih =>
    cases hi with
    | lambda | function | method => exact absurd rfl (hnode _)
    | body | loopStart | loopCondition | loopIncrement | loopBody | block =>
      rintro _ ⟨⟩
      rfl
    | initializer | superclass => exact Place.runs_declare (ih fun _ => nofun)
    | _ => exact ih fun _ => nofun

/-! ## 3. Names around a place -/

theorem depthIn_eq_none {layers : List Layer} {name : String} :
    depthIn layers name = none ↔ ∀ l ∈ layers, name ∉ l.names := by
  induction layers with
  | nil => exact ⟨fun _ l hl => absurd hl List.not_mem_nil, fun _ => rfl⟩
  | cons l outer ih =>
    unfold depthIn
    by_cases h : name ∈ l.names
    · rw [if_pos h]
      exact ⟨fun h => absurd h (Option.some_ne_none 0), fun hall => absurd h (hall l List.mem_cons_self)⟩
    · rw [if_neg h, Option.map_eq_none_iff, ih, List.forall_mem_cons]
      exact ⟨fun hall => ⟨h, hall⟩, fun hall => hall.2⟩

/-- **The innermost layer that has a name**, and how many lie in front of it. -/
theorem depthIn_eq_some {layers : List Layer} {name : String} {d : Nat}
    (h : depthIn layers name = some d) :
    ∃ inner l outer, layers = inner ++ l :: outer ∧ inner.length = d ∧ name ∈ l.names ∧
      ∀ k ∈ inner, name ∉ k.names := by
  induction layers generalizing d with
  | nil => cases h
  | cons l outer ih =>
    unfold depthIn at h
    by_cases hl : name ∈ l.names
    · rw [if_pos hl] at h
      cases h
      exact ⟨[], l, outer, rfl, rfl, hl, fun k hk => nomatch hk⟩
    · rw [if_neg hl] at h
      obtain ⟨d, hd, rfl⟩ := Option.map_eq_some_iff.mp h
      obtain ⟨inner, k, rest, rfl, rfl, hk, hinner⟩ := ih hd
      exact ⟨l :: inner, k, rest, rfl, rfl, hk, List.forall_mem_cons.mpr ⟨hl, hinner⟩⟩

end Lox
