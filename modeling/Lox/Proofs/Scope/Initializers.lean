import Lox.Proofs.Scope.Rules

/-!
# The initializers of variables

Where a variable is made its scope has the name already, but no frame binds it yet.

* `Beneath node p child q`: `child` lies any number of steps down the tree from `node`.
* `Awaits program node p layers name`: the node lies in the initializer of the variable `name` of the
  scope in front of some layers.
* `Beneath.reads_or_function`: what lies in an initializer belongs to a function in it, or the names
  it reads are among those that the initializer reads.
-/

namespace Lox

/-! ## 1. Down the tree -/

/-- **`child` lies beneath `node`**, or is it: any number of steps down the tree. -/
inductive Beneath (node : Node) (p : Place) : Node → Place → Prop where
  | refl : Beneath node p node p
  | step {child q part r} (h : Beneath node p child q) (hi : Inside child q part r) :
      Beneath node p part r

theorem Occurs.beneath {program : List Stmt} {node child : Node} {p q : Place}
    (h : Occurs program node p) (hb : Beneath node p child q) : Occurs program child q := by
  induction hb with
  | refl => exact h
  | step _ hi ih => exact .inside ih hi

/-- A function that lies beneath a node, and has another node beneath it. -/
def ThroughFunction (node : Node) (p : Place) (child : Node) (q : Place) : Prop :=
  ∃ code r, Beneath node p (.code code) r ∧ Beneath (.code code) r child q

/-- The parts of an expression that are expressions stand where it does, and read no other names. -/
theorem Inside.reads {e e' : Expr} {p q : Place} (h : Inside (.expr e) p (.expr e') q) :
    q = p ∧ ∀ n ∈ e'.reads, n ∈ e.reads := by
  cases h with
  | argument he =>
    exact ⟨rfl, fun n hn => List.mem_append_right _ (mem_exprReads.mpr ⟨_, he, hn⟩)⟩
  | _ => exact ⟨rfl, fun n hn => by simp [Expr.reads, hn]⟩

/-- **What lies in an expression** belongs to a function in it, or is an expression at the same place
    that reads no other names. -/
theorem Beneath.reads_or_function {e : Expr} {node : Node} {p q : Place}
    (h : Beneath (.expr e) p node q) : ThroughFunction (.expr e) p node q ∨
      ∃ e', node = .expr e' ∧ q = p ∧ ∀ n ∈ e'.reads, n ∈ e.reads := by
  induction h with
  | refl => exact .inr ⟨e, rfl, rfl, fun n hn => hn⟩
  | @step child q part r h hi ih =>
    rcases ih with ⟨code, place, hcode, hbehind⟩ | ⟨e', rfl, rfl, hreads⟩
    · exact .inl ⟨code, place, hcode, .step hbehind hi⟩
    · cases part with
      | expr e'' =>
        obtain ⟨rfl, hpart⟩ := hi.reads
        exact .inr ⟨e'', rfl, rfl, fun n hn => hreads n (hpart n hn)⟩
      | code code => exact .inl ⟨code, r, .step h hi, .refl⟩
      | stmt s => cases hi

/-! ## 2. Initializers -/

/-- A node lies in the initializer of a variable, which is declared at a place. -/
structure Initializes (program : List Stmt) (name : Token) (init : Expr) (q : Place) (node : Node)
    (p : Place) : Prop where
  occurs : Occurs program (.stmt (.varDecl name init)) q
  beneath : Beneath (.expr init) (q.declare name.lexeme) node p

/-- **A node awaits a name** of the scope in front of some layers: it lies in the initializer of the
    variable of that name, which is declared there. -/
def Awaits (program : List Stmt) (node : Node) (p : Place) (layers : List Layer) (n : String) :
    Prop :=
  ∃ name init q, Initializes program name init q node p ∧ name.lexeme = n ∧
    q.layers.map Layer.region = layers.map Layer.region

section

variable {program : List Stmt} {node child : Node} {p q : Place} {layers : List Layer} {n : String}

/-- The parts of a node await what it awaits. -/
theorem Awaits.inside (h : Awaits program node p layers n) (hi : Inside node p child q) :
    Awaits program child q layers n := by
  obtain ⟨name, init, place, hinit, hn, hregions⟩ := h
  exact ⟨name, init, place, ⟨hinit.occurs, .step hinit.beneath hi⟩, hn, hregions⟩

theorem Awaits.regions (h : Awaits program node p layers n) {layers' : List Layer}
    (hr : layers'.map Layer.region = layers.map Layer.region) :
    Awaits program node p layers' n := by
  obtain ⟨name, init, place, hinit, hn, hregions⟩ := h
  exact ⟨name, init, place, hinit, hn, hregions.trans hr.symm⟩

/-- **An initializer awaits the name** of its variable. -/
theorem Awaits.initializer {name : Token} {init : Expr}
    (h : Occurs program (.stmt (.varDecl name init)) p) :
    Awaits program (.expr init) (p.declare name.lexeme) p.layers name.lexeme :=
  ⟨name, init, p, ⟨h, .refl⟩, rfl, rfl⟩

theorem Initializes.node_occurs {name : Token} {init : Expr}
    (h : Initializes program name init q node p) : Occurs program node p :=
  (Occurs.inside h.occurs .initializer).beneath h.beneath

/-- **A name that is awaited outside a function is not read.** -/
theorem Initializes.reads_through_function (hrules : ObeysRules program) {name : Token}
    {init : Expr} {ref : Reference} (h : Initializes program name init q (.expr (.read ref)) p)
    (hq : q.layers ≠ []) (hn : name.lexeme = ref.name) :
    ThroughFunction (.expr init) (q.declare name.lexeme) (.expr (.read ref)) p := by
  rcases h.beneath.reads_or_function with hcode | ⟨e', he, -, hreads⟩
  · exact hcode
  · cases he
    have hmem : name.lexeme ∈ init.reads := hreads _ (by rw [hn]; exact List.mem_singleton.mpr rfl)
    exact absurd hmem (hrules.initializers name init q h.occurs hq)

end

end Lox
