import Mathlib.Algebra.Order.Ring.Nat
import Lox.Proofs.Scope.Numbering

/-!
# All nodes of a program

A program as the list of its nodes, and what a compound assignment to a property does to that list:
the object of the target is in the tree twice, with all that is in it.

* `Expr.nodes`, `Stmt.nodes`, `stmtsNodes`: every expression and every statement, once for each place
  it stands at, function bodies included.
* `Copied ns o`: among the nodes is an assignment that has its object `o` twice. `Nests ns d` says
  that there are such objects within each other, `d` of them.
* `Grown a b w ns`: the nodes `ns` can be come by with the references from `a` up to `b` and for the
  price `w`, one for a node; but a copy of what was paid for is free.
* `Grown.weighs`: the price times two for each level of `Nests` is enough for all nodes.
  `Grown.shared`: nodes with the same reference are copies of each other.
-/

namespace Lox

/-! ## 1. Nodes -/

mutual

/-- **All nodes of an expression**, itself in front. -/
def Expr.nodes : Expr → List Node
  | .literal l => [.expr (.literal l)]
  | .group inner => .expr (.group inner) :: inner.nodes
  | .unary op operand => .expr (.unary op operand) :: operand.nodes
  | .binary left op right => .expr (.binary left op right) :: (left.nodes ++ right.nodes)
  | .logical left op right => .expr (.logical left op right) :: (left.nodes ++ right.nodes)
  | .conditional condition yes no =>
    .expr (.conditional condition yes no) :: (condition.nodes ++ yes.nodes ++ no.nodes)
  | .read ref => [.expr (.read ref)]
  | .assign ref value => .expr (.assign ref value) :: value.nodes
  | .call callee paren args => .expr (.call callee paren args) :: (callee.nodes ++ exprsNodes args)
  | .get object name => .expr (.get object name) :: object.nodes
  | .set object name value => .expr (.set object name value) :: (object.nodes ++ value.nodes)
  | .this ref => [.expr (.this ref)]
  | .super ref method => [.expr (.super ref method)]
  | .lambda code => .expr (.lambda code) :: code.nodes

/-- The nodes of expressions. -/
def exprsNodes : List Expr → List Node
  | [] => []
  | e :: rest => e.nodes ++ exprsNodes rest

/-- The nodes of an expression that may be missing. -/
def optionExprNodes : Option Expr → List Node
  | none => []
  | some e => e.nodes

/-- The nodes in the body of a function. -/
def Code.nodes : Code → List Node
  | .mk _ body => stmtsNodes body

/-- The nodes in the bodies of functions with names. -/
def funDeclsNodes : List FunDecl → List Node
  | [] => []
  | .mk _ code :: rest => code.nodes ++ funDeclsNodes rest

/-- **All nodes of a statement**, itself in front. A superclass is a read of its name. -/
def Stmt.nodes : Stmt → List Node
  | .expr e => .stmt (.expr e) :: e.nodes
  | .varDecl name init => .stmt (.varDecl name init) :: init.nodes
  | .funDecl (.mk name code) => .stmt (.funDecl (.mk name code)) :: code.nodes
  | .classDecl name superclass methods =>
    .stmt (.classDecl name superclass methods) ::
      ((superclass.toList.map fun ref => .expr (.read ref)) ++ funDeclsNodes methods)
  | .branch condition yes no =>
    .stmt (.branch condition yes no) :: (condition.nodes ++ yes.nodes ++ optionStmtNodes no)
  | .whileLoop condition body => .stmt (.whileLoop condition body) :: (condition.nodes ++ body.nodes)
  | .forLoop init condition increment body =>
    .stmt (.forLoop init condition increment body) ::
      (optionStmtNodes init ++ condition.nodes ++ optionExprNodes increment ++ body.nodes)
  | .block body => .stmt (.block body) :: stmtsNodes body
  | .ret keyword value => .stmt (.ret keyword value) :: optionExprNodes value
  | .leave keyword => [.stmt (.leave keyword)]
  | .next keyword => [.stmt (.next keyword)]

/-- The nodes of statements. -/
def stmtsNodes : List Stmt → List Node
  | [] => []
  | s :: rest => s.nodes ++ stmtsNodes rest

/-- The nodes of a statement that may be missing. -/
def optionStmtNodes : Option Stmt → List Node
  | none => []
  | some s => s.nodes

end

theorem stmtsNodes_append (ss more : List Stmt) :
    stmtsNodes (ss ++ more) = stmtsNodes ss ++ stmtsNodes more := by
  induction ss with
  | nil => rfl
  | cons s rest ih => rw [List.cons_append, stmtsNodes, stmtsNodes, ih, List.append_assoc]

theorem stmtsNodes_toList (o : Option Stmt) : stmtsNodes o.toList = optionStmtNodes o := by
  cases o with
  | none => rfl
  | some s => exact List.append_nil s.nodes

/-- The nodes in the body of a function with a name. -/
def FunDecl.nodes (f : FunDecl) : List Node := f.code.nodes

theorem funDeclsNodes_cons (f : FunDecl) (rest : List FunDecl) :
    funDeclsNodes (f :: rest) = f.nodes ++ funDeclsNodes rest := by
  obtain ⟨name, code⟩ := f
  rfl

theorem nodes_funDecl (f : FunDecl) : (Stmt.funDecl f).nodes = .stmt (.funDecl f) :: f.nodes := by
  obtain ⟨name, code⟩ := f
  rfl

/-- The references of some nodes, once for each node. -/
def referencesIn (ns : List Node) : List Reference := ns.filterMap Node.reference?

theorem referencesIn_append (ns ms : List Node) :
    referencesIn (ns ++ ms) = referencesIn ns ++ referencesIn ms :=
  List.filterMap_append

/-! ## 2. Objects that are in the tree twice -/

/-- **Among the nodes is a compound assignment to a property of `o`**: its object, and in its value
    the same object again. -/
def Copied (ns : List Node) (o : Expr) : Prop :=
  ∃ name op value, Node.expr (.set o name (.binary (.get o name) op value)) ∈ ns

/-- There are `d` compound assignments to properties within each other, each but the innermost with
    the next in its object. -/
inductive Nests : List Node → Nat → Prop where
  | none {ns} : Nests ns 0
  | within {ns o d} (ho : Copied ns o) (hd : Nests o.nodes d) : Nests ns (d + 1)

section

variable {ns ms : List Node} {o : Expr} {d : Nat}

theorem Copied.mono (h : Copied ns o) (hs : ns ⊆ ms) : Copied ms o := by
  obtain ⟨name, op, value, hmem⟩ := h
  exact ⟨name, op, value, hs hmem⟩

theorem Nests.mono (h : Nests ns d) (hs : ns ⊆ ms) : Nests ms d := by
  cases h with
  | none => exact .none
  | within ho hd => exact .within (ho.mono hs) hd

theorem Nests.max {d' : Nat} (h : Nests ns d) (h' : Nests ns d') : Nests ns (max d d') := by
  rcases Nat.le_total d d' with hle | hle
  · rwa [Nat.max_eq_right hle]
  · rwa [Nat.max_eq_left hle]

/-- A property that is read is no assignment. -/
theorem Copied.of_get {object : Expr} {name : Token} (h : Copied (.expr (.get object name) :: ns) o) :
    Copied ns o := by
  obtain ⟨name, op, value, hmem⟩ := h
  exact ⟨name, op, value, (List.mem_cons.mp hmem).resolve_left fun h => nomatch h⟩

theorem Nests.of_get {object : Expr} {name : Token} (h : Nests (.expr (.get object name) :: ns) d) :
    Nests ns d := by
  cases h with
  | none => exact .none
  | within ho hd => exact .within ho.of_get hd

end

/-- The nodes of `o.name op= ..`, where the nodes of the last operand are `ns`. -/
def compoundNodes (o : Expr) (name op : Token) (value : Expr) (ns : List Node) : List Node :=
  .expr (.set o name (.binary (.get o name) op value)) ::
    (o.nodes ++ .expr (.binary (.get o name) op value) :: ((.expr (.get o name) :: o.nodes) ++ ns))

theorem compoundNodes_append (o : Expr) (name op : Token) (value : Expr) (ns ms : List Node) :
    compoundNodes o name op value ns ++ ms = compoundNodes o name op value (ns ++ ms) := by
  simp only [compoundNodes, List.cons_append, List.append_assoc]

theorem compound_copied (o : Expr) (name op : Token) (value : Expr) (ns : List Node) :
    Copied (compoundNodes o name op value ns) o := ⟨name, op, value, List.mem_cons_self⟩

/-! ## 3. Their number -/

/-- The nodes are no more than `w`, doubled for each level of objects that are in the tree twice. -/
def Weighs (ns : List Node) (w : Nat) : Prop := ∃ d, Nests ns d ∧ ns.length ≤ 2 ^ d * w

namespace Weighs

variable {ns ms : List Node} {v w : Nat}

theorem append (h : Weighs ns v) (h' : Weighs ms w) : Weighs (ns ++ ms) (v + w) := by
  obtain ⟨d, hd, hlen⟩ := h
  obtain ⟨d', hd', hlen'⟩ := h'
  have hv : 2 ^ d * v ≤ 2 ^ max d d' * v :=
    Nat.mul_le_mul_right v (Nat.pow_le_pow_right (by decide) (Nat.le_max_left d d'))
  have hw : 2 ^ d' * w ≤ 2 ^ max d d' * w :=
    Nat.mul_le_mul_right w (Nat.pow_le_pow_right (by decide) (Nat.le_max_right d d'))
  refine ⟨max d d', (hd.mono (List.subset_append_left ns ms)).max
    (hd'.mono (List.subset_append_right ns ms)), ?_⟩
  rw [List.length_append, Nat.mul_add]
  omega

theorem cons (n : Node) (h : Weighs ns w) : Weighs (n :: ns) (w + 1) := by
  have hn : Weighs [n] 1 := ⟨0, .none, Nat.le_refl _⟩
  rw [Nat.add_comm]
  exact hn.append h

theorem of_get {o : Expr} {name : Token} (h : Weighs (.expr (.get o name) :: ns) w) : Weighs ns w := by
  obtain ⟨d, hd, hlen⟩ := h
  exact ⟨d, hd.of_get, Nat.le_trans (Nat.le_succ _) hlen⟩

/-- A second copy takes one level more, and no price. -/
theorem compound {o value : Expr} {name op : Token}
    (h : Weighs (.expr (.get o name) :: o.nodes) v) (h' : Weighs ns w) :
    Weighs (compoundNodes o name op value ns) (v + w + 2) := by
  have htarget : Weighs (compoundNodes o name op value []) (v + 2) := by
    obtain ⟨d, hd, hlen⟩ := h
    refine ⟨d + 1, .within (compound_copied ..) hd.of_get, ?_⟩
    have hpos : 0 < 2 ^ d := Nat.two_pow_pos d
    rw [Nat.pow_succ, Nat.mul_add, Nat.mul_right_comm]
    simp only [compoundNodes, List.length_cons, List.length_append, List.append_nil] at hlen ⊢
    omega
  have hall := htarget.append h'
  rw [compoundNodes_append] at hall
  rwa [Nat.add_right_comm]

end Weighs

/-! ## 4. Their references -/

/-- What is the same between any two places of a list is the same for all that is in it. -/
theorem eq_of_pairwise {α β : Type} {f : α → β} {l : List α}
    (h : l.Pairwise fun x y => f x = f y → x = y) {x y : α} (hx : x ∈ l) (hy : y ∈ l)
    (he : f x = f y) : x = y := by
  have hback : l.Pairwise (flip fun x y => f x = f y → x = y) :=
    h.imp fun hxy he => (hxy he.symm).symm
  exact h.forall_of_forall_of_flip (fun _ _ _ => rfl) hback hx hy he

/-- **References of nodes that are the same** belong to an object that is in the tree twice. -/
def Shared (ns : List Node) (r r' : Reference) : Prop :=
  r.id = r'.id → r = r' ∧ ∃ o, Copied ns o ∧ r ∈ referencesIn o.nodes

/-- The references of the nodes are from `a` up to `b`, and only copies have the same. -/
structure Fresh (a b : Nat) (ns : List Node) : Prop where
  range : ∀ r ∈ referencesIn ns, a ≤ r.id.index ∧ r.id.index < b
  shared : (referencesIn ns).Pairwise (Shared ns)

theorem Shared.mono {ns ms : List Node} {r r' : Reference} (h : Shared ns r r') (hs : ns ⊆ ms) :
    Shared ms r r' := fun hid => by
  obtain ⟨he, o, ho, hr⟩ := h hid
  exact ⟨he, o, ho.mono hs, hr⟩

namespace Fresh

variable {a b c : Nat} {ns ms : List Node} {n : Node}

theorem empty (a b : Nat) : Fresh a b [] := ⟨fun _ h => absurd h List.not_mem_nil, .nil⟩

/-- Only copies have the same reference, also among more nodes. -/
theorem shared_mono (h : Fresh a b ns) (hs : ns ⊆ ms) : (referencesIn ns).Pairwise (Shared ms) :=
  h.shared.imp fun hr => hr.mono hs

/-- References of different stretches are different. -/
theorem apart (h : Fresh a b ns) (h' : Fresh b c ms) {r r' : Reference} (hr : r ∈ referencesIn ns)
    (hr' : r' ∈ referencesIn ms) : r.id ≠ r'.id := fun he => by
  have hlt := (h.range r hr).2
  have hle := (h'.range r' hr').1
  rw [he] at hlt
  omega

/-- The same reference is one reference. -/
theorem single (h : Fresh a b ns) {r r' : Reference} (hr : r ∈ referencesIn ns)
    (hr' : r' ∈ referencesIn ns) (hid : r.id = r'.id) : r = r' :=
  eq_of_pairwise (h.shared.imp fun hr hid => (hr hid).1) hr hr' hid

theorem append (h : Fresh a b ns) (h' : Fresh b c ms) (hab : a ≤ b) (hbc : b ≤ c) :
    Fresh a c (ns ++ ms) := by
  constructor
  · rw [referencesIn_append, List.forall_mem_append]
    refine ⟨fun r hr => ?_, fun r hr => ?_⟩
    · have := h.range r hr
      omega
    · have := h'.range r hr
      omega
  · rw [referencesIn_append, List.pairwise_append]
    exact ⟨h.shared_mono (List.subset_append_left ns ms),
      h'.shared_mono (List.subset_append_right ns ms),
      fun r hr r' hr' hid => absurd hid (h.apart h' hr hr')⟩

theorem node (h : Fresh a b ns) (hn : n.reference? = none) : Fresh a b (n :: ns) := by
  have hrefs : referencesIn (n :: ns) = referencesIn ns := List.filterMap_cons_none hn
  constructor
  · rw [hrefs]
    exact h.range
  · rw [hrefs]
    exact h.shared_mono (List.subset_cons_self n ns)

theorem reference {ref : Reference} (h : Fresh a b ns) (hab : a ≤ b) (hn : n.reference? = some ref)
    (href : ref.id.index = b) : Fresh a (b + 1) (n :: ns) := by
  have hrefs : referencesIn (n :: ns) = ref :: referencesIn ns := List.filterMap_cons_some hn
  constructor
  · rw [hrefs, List.forall_mem_cons]
    refine ⟨by omega, fun r hr => ?_⟩
    have := h.range r hr
    omega
  · rw [hrefs, List.pairwise_cons]
    refine ⟨fun r hr hid => ?_, h.shared_mono (List.subset_cons_self n ns)⟩
    have := h.range r hr
    rw [← hid] at this
    omega

theorem object {o : Expr} {name : Token} (h : Fresh a b (.expr (.get o name) :: ns)) : Fresh a b ns :=
  ⟨h.range, h.shared.imp fun hr hid => by
    obtain ⟨he, o, ho, hr⟩ := hr hid
    exact ⟨he, o, ho.of_get, hr⟩⟩

/-- The two copies of an object have the same references. -/
theorem compound {o value : Expr} {name op : Token} (h : Fresh a b (.expr (.get o name) :: o.nodes))
    (h' : Fresh b c ns) (hab : a ≤ b) (hbc : b ≤ c) :
    Fresh a c (compoundNodes o name op value ns) := by
  have ho : Fresh a b o.nodes := h.object
  have hsecond : Fresh a c (o.nodes ++ ns) := ho.append h' hab hbc
  have hrefs : referencesIn (compoundNodes o name op value ns)
      = referencesIn o.nodes ++ referencesIn (o.nodes ++ ns) := referencesIn_append _ _
  have hfirst : o.nodes ⊆ compoundNodes o name op value ns := fun n hn =>
    List.mem_cons_of_mem _ (List.mem_append_left _ hn)
  have hrest : o.nodes ++ ns ⊆ compoundNodes o name op value ns := fun n hn =>
    List.mem_cons_of_mem _ (List.mem_append_right _
      (List.mem_cons_of_mem _ (List.mem_cons_of_mem _ hn)))
  constructor
  · rw [hrefs, List.forall_mem_append]
    refine ⟨fun r hr => ?_, hsecond.range⟩
    have := ho.range r hr
    omega
  · rw [hrefs, List.pairwise_append]
    refine ⟨ho.shared_mono hfirst, hsecond.shared_mono hrest, fun r hr r' hr' hid => ?_⟩
    rw [referencesIn_append] at hr'
    rcases List.mem_append.mp hr' with hr' | hr'
    · exact ⟨ho.single hr hr' hid, o, compound_copied .., hr⟩
    · exact absurd hid (ho.apart h' hr hr')

end Fresh

/-! ## 5. How they come about -/

/-- **How nodes come about**, with the references from `a` up to `b` and for the price `w`. Each node
    costs one, but for the second copy of the object of a compound assignment. -/
inductive Grown : (a b w : Nat) → List Node → Prop where
  /-- References may be left out, and what was built may be dropped. -/
  | skipped {a b} (h : a ≤ b) : Grown a b 0 []
  | append {a b c v w ns ms} (hn : Grown a b v ns) (hm : Grown b c w ms) :
      Grown a c (v + w) (ns ++ ms)
  | node {a b w n ns} (h : Grown a b w ns) (hn : n.reference? = none) : Grown a b (w + 1) (n :: ns)
  /-- A node with a reference takes the next one. -/
  | reference {a b w n ns ref} (h : Grown a b w ns) (hn : n.reference? = some ref)
      (href : ref.id.index = b) : Grown a (b + 1) (w + 1) (n :: ns)
  /-- The object of a property that was read, without the read. -/
  | object {a b w o name ns} (h : Grown a b w (.expr (.get o name) :: ns)) : Grown a b w ns
  /-- A second copy of the object costs nothing and takes no reference. -/
  | compound {a b c v w o name op value ns} (ho : Grown a b v (.expr (.get o name) :: o.nodes))
      (hv : Grown b c w ns) : Grown a c (v + w + 2) (compoundNodes o name op value ns)

namespace Grown

variable {a b w : Nat} {ns : List Node}

theorem le (h : Grown a b w ns) : a ≤ b := by
  induction h with
  | skipped h => exact h
  | append _ _ ih ih' | compound _ _ ih ih' => exact Nat.le_trans ih ih'
  | node _ _ ih | object _ ih => exact ih
  | reference _ _ _ ih => exact Nat.le_succ_of_le ih

/-- **The price, doubled with each level of copies**, is enough for all nodes. -/
theorem weighs (h : Grown a b w ns) : Weighs ns w := by
  induction h with
  | skipped => exact ⟨0, .none, Nat.zero_le _⟩
  | append _ _ ih ih' => exact ih.append ih'
  | node _ _ ih | reference _ _ _ ih => exact ih.cons _
  | object _ ih => exact ih.of_get
  | compound _ _ ih ih' => exact ih.compound ih'

/-- **Only copies have the same reference.** -/
theorem fresh (h : Grown a b w ns) : Fresh a b ns := by
  induction h with
  | skipped => exact .empty _ _
  | append h h' ih ih' => exact ih.append ih' h.le h'.le
  | node _ hn ih => exact ih.node hn
  | reference h hn href ih => exact ih.reference h.le hn href
  | object _ ih => exact ih.object
  | compound h h' ih ih' => exact ih.compound ih' h.le h'.le

end Grown

end Lox
