import Lox.Proofs.Grammar.Progress
import Lox.Proofs.Grammar.Nodes

/-!
# How many nodes a parse builds, and which references they have

Every token pays for two nodes, and a parse hands each reference out once. Both fail for one form
only: a compound assignment to a property has the object of its target in the tree twice, with all
nodes and references in it.

* `Pays s t k ns`: between two cursors the nodes `ns` were built, and what the tokens in between pay
  for is that many nodes and `k` more.
* `Leads s p Q`: from the cursor `s` on, `p` comes to a tree and a cursor for which `Q` holds, or it
  fails further on.
* `rule_pays`: every rule pays for what it builds, also behind complaints and where it recovers.
* `parse_nodes_le`: **the nodes of a parse** are twice its tokens, doubled for each level of objects
  that are in the tree twice. `copies_outgrow_tokens`: without that factor they are not.
* `shared_references_are_copies`: **in any number of parses** two nodes with one reference are copies
  of each other. `copies_share_a_reference`: there are such nodes.
-/

namespace Lox.Syntax

/-! ## 1. Stretches of a parse -/

/-- **Between two cursors the nodes were built**, and the tokens in between pay for `k` more. -/
structure Pays (s t : Cursor) (k : Nat) (ns : List Node) : Prop where
  eof : t.eof = s.eof
  price : ∃ w, Grown s.nextId t.nextId w ns ∧ w + k + 2 * t.ahead.length ≤ 2 * s.ahead.length

/-- The nodes of what may be missing. -/
def optionNodes {α : Type} (nodes : α → List Node) : Option α → List Node
  | none => []
  | some x => nodes x

theorem optionNodes_expr (o : Option Expr) : optionNodes Expr.nodes o = optionExprNodes o := by
  cases o <;> rfl

theorem optionNodes_stmt (o : Option Stmt) : optionNodes Stmt.nodes o = optionStmtNodes o := by
  cases o <;> rfl

namespace Pays

variable {s t u : Cursor} {k l : Nat} {ns ms : List Node} {n : Node}

theorem refl (s : Cursor) : Pays s s 0 [] := ⟨rfl, 0, .skipped (Nat.le_refl _), by omega⟩

/-- Going on without building anything. -/
theorem of_le (he : t.eof = s.eof) (hid : s.nextId ≤ t.nextId)
    (ha : k + 2 * t.ahead.length ≤ 2 * s.ahead.length) : Pays s t k [] :=
  ⟨he, 0, .skipped hid, by omega⟩

/-- What was built is dropped. -/
theorem drop (h : Pays s t k ns) : Pays s t k [] := by
  obtain ⟨he, w, hw, hle⟩ := h
  exact .of_le he hw.le (by omega)

theorem less (h : Pays s t k ns) (hl : l ≤ k) : Pays s t l ns := by
  obtain ⟨he, w, hw, hle⟩ := h
  exact ⟨he, w, hw, by omega⟩

theorem append (h : Pays s t k ns) (h' : Pays t u l ms) : Pays s u (k + l) (ns ++ ms) := by
  obtain ⟨he, v, hv, hle⟩ := h
  obtain ⟨he', w, hw, hle'⟩ := h'
  exact ⟨he'.trans he, v + w, hv.append hw, by omega⟩

/-- On over tokens that build nothing. -/
theorem on (h : Pays s t k ns) (h' : Pays t u l []) : Pays s u (k + l) ns :=
  List.append_nil ns ▸ h.append h'

/-- Over tokens that build nothing, then on. -/
theorem past (h : Pays s t k []) (h' : Pays t u l ns) : Pays s u (k + l) ns := h.append h'

theorem node (h : Pays s t k ns) (hn : n.reference? = none) (hl : l < k) : Pays s t l (n :: ns) := by
  obtain ⟨he, w, hw, hle⟩ := h
  exact ⟨he, w + 1, hw.node hn, by omega⟩

/-- A node with the reference that is handed out next. -/
theorem reference {ref : Reference} (h : Pays s t k ns) (hn : n.reference? = some ref)
    (href : ref.id.index = t.nextId) (hu : u = { t with nextId := t.nextId + 1 }) (hl : l < k) :
    Pays s u l (n :: ns) := by
  obtain ⟨he, w, hw, hle⟩ := h
  subst hu
  refine ⟨he, w + 1, hw.reference hn href, ?_⟩
  show w + 1 + l + 2 * t.ahead.length ≤ _
  omega

/-- The object of a property that was read, without the read. -/
theorem object {o : Expr} {name : Token} (h : Pays s t k (Expr.get o name).nodes) :
    Pays s t k o.nodes := by
  obtain ⟨he, w, hw, hle⟩ := h
  exact ⟨he, w, hw.object, hle⟩

theorem compound {o value : Expr} {name op : Token} (h : Pays s t k (Expr.get o name).nodes)
    (h' : Pays t u l value.nodes) (hk : 2 ≤ k + l) :
    Pays s u 0 (Expr.set o name (.binary (.get o name) op value)).nodes := by
  obtain ⟨he, v, hv, hle⟩ := h
  obtain ⟨he', w, hw, hle'⟩ := h'
  exact ⟨he'.trans he, v + w + 2, hv.compound hw, by omega⟩

/-- A literal stands for a missing expression. -/
theorem or_literal {o : Option Expr} {l : Literal} (h : Pays s t (k + 1) (optionNodes Expr.nodes o)) :
    Pays s t k (o.getD (.literal l)).nodes := by
  cases o with
  | none => exact h.node rfl (Nat.lt_succ_self k)
  | some e => exact h.less (Nat.le_succ k)

/-- A statement, if it could be read, and those behind it. -/
theorem statements {o : Option Stmt} {rest : List Stmt} (h : Pays s t k (optionNodes Stmt.nodes o))
    (h' : Pays t u l (stmtsNodes rest)) : Pays s u (k + l) (stmtsNodes (o.toList ++ rest)) := by
  rw [optionNodes_stmt] at h
  rw [stmtsNodes_append, stmtsNodes_toList]
  exact h.append h'

theorem join {left right : Expr} {op : Token} (lv : Level)
    (h : Pays s t (k + 1) (left.nodes ++ right.nodes)) : Pays s t k (lv.join left op right).nodes := by
  cases lv <;> exact h.node rfl (Nat.lt_succ_self k)

end Pays

/-! ## 2. Steps -/

/-- An outcome of a parse from the cursor `s` on. -/
inductive Led {α : Type} (s : Cursor) (Q : α → Cursor → Prop) : Except Failure α × Cursor → Prop where
  | ok {x t} (hs : Pays s t 0 []) (hx : Q x t) : Led s Q (.ok x, t)
  | error {e t} (hs : Pays s t 0 []) : Led s Q (.error e, t)

/-- **From the cursor `s` on, `p` comes to what `Q` says**, or it fails further on. -/
def Leads {α : Type} (s : Cursor) (p : Parse α) (Q : α → Cursor → Prop) : Prop :=
  s.eof.kind = .eof → Led s Q (p.run s)

section Logic

variable {α β : Type} {s : Cursor} {p : Parse α} {f : α → Parse β} {Q Q' : α → Cursor → Prop}
  {R : β → Cursor → Prop}

theorem leads_starve : Leads s starve Q := fun _ => .error (.refl s)

theorem leads_pure {x : α} (h : Q x s) : Leads s (pure x) Q := fun _ => .ok (.refl s) h

/-- **A rule, then the rest.** -/
protected theorem Leads.bind (hp : Leads s p Q) (hf : ∀ x t, Q x t → Leads t (f x) R) :
    Leads s (p >>= f) R := fun hs => by
  rw [run_bind]
  have h := hp hs
  generalize p.run s = r at h
  cases h with
  | error hp => exact .error hp
  | @ok x t hp hx =>
    have h := hf x t hx (by rw [hp.eof, hs])
    dsimp only
    generalize (f x).run t = r at h
    cases h with
    | ok hf hy => exact .ok (hp.append hf) hy
    | error hf => exact .error (hp.append hf)

protected theorem Leads.mono (h : Leads s p Q) (himp : ∀ x t, Q x t → Q' x t) : Leads s p Q' :=
  fun hs => by
  have h := h hs
  generalize p.run s = r at h
  cases h with
  | ok hp hx => exact .ok hp (himp _ _ hx)
  | error hp => exact .error hp

protected theorem Leads.map {g : α → β} (h : Leads s p Q) (hg : ∀ x t, Q x t → R (g x) t) :
    Leads s (g <$> p) R := by
  rw [← bind_pure_comp]
  exact h.bind fun x t hx => leads_pure (hg x t hx)

end Logic

section Steps

variable {α : Type} {s t u : Cursor} {p : Parse α} {Q : α → Cursor → Prop} {nodes : α → List Node}

theorem leads_peek : Leads s peek fun x t => x = s.front ∧ t = s := fun _ => .ok (.refl s) ⟨rfl, rfl⟩

theorem leads_check (k : Token.Kind) : Leads s (check k) fun _ t => t = s := fun _ => .ok (.refl s) rfl

theorem leads_checkSecond (k : Token.Kind) : Leads s (checkSecond k) fun _ t => t = s :=
  fun _ => .ok (.refl s) rfl

theorem leads_atEnd : Leads s atEnd fun _ t => t = s := fun _ => .ok (.refl s) rfl

theorem leads_fail (c : Complaint) : Leads s (fail c) Q := fun _ => .error (.refl s)

theorem leads_report (c : Complaint) (tok : Token) :
    Leads s (report c tok) fun _ t => Pays s t 0 [] := fun _ => by
  have h : Pays s { s with errors := s.errors ++ [⟨c, tok⟩] } 0 [] :=
    .of_le rfl (Nat.le_refl _) (by dsimp only; omega)
  exact .ok h h

theorem leads_limit (c : Complaint) (count : Nat) :
    Leads s (limit c count) fun _ t => Pays s t 0 [] := by
  unfold limit
  split
  · refine leads_peek.bind fun tok t ht => ?_
    obtain rfl := ht.2
    exact leads_report c tok
  · exact leads_pure (.refl s)

/-- A reference takes the next number. -/
theorem leads_refer (tok : Token) : Leads s (refer tok) fun ref t =>
    ref.id.index = s.nextId ∧ t = { s with nextId := s.nextId + 1 } := fun _ => by
  have h : Pays s { s with nextId := s.nextId + 1 } 0 [] :=
    .of_le rfl (Nat.le_succ _) (by dsimp only; omega)
  exact .ok h ⟨rfl, rfl⟩

theorem pays_tail {tok : Token} {rest : List Token} (h : s.ahead = tok :: rest) :
    Pays s { s with ahead := rest } 2 [] :=
  .of_le rfl (Nat.le_refl _) (by rw [h, List.length_cons]; dsimp only; omega)

/-- What the token in front pays for, if it is taken. -/
def Took (s : Cursor) : Option Token → Cursor → Prop
  | none, t => t = s
  | some _, t => Pays s t 2 []

theorem leads_acceptIf (q : Token.Kind → Bool) : Leads s (acceptIf q) (Took s) := fun _ => by
  rcases hs : s.ahead with _ | ⟨tok, rest⟩
  · rw [run_acceptIf_nil q hs]
    exact .ok (.refl s) rfl
  · rw [run_acceptIf_cons q hs]
    split
    · exact .ok ((pays_tail hs).less (Nat.zero_le 2)) (pays_tail hs)
    · exact .ok (.refl s) rfl

theorem leads_accept (k : Token.Kind) : Leads s (accept k) (Took s) := leads_acceptIf _

/-- A token in front of the end is taken. -/
theorem leads_skip (h : s.front.kind ≠ .eof) : Leads s skip fun _ t => Pays s t 2 [] := fun he => by
  rcases hs : s.ahead with _ | ⟨tok, rest⟩
  · rw [Cursor.front, hs] at h
    exact absurd he h
  · refine Leads.map (Q := fun _ t => Pays s t 2 []) (fun _ => ?_) (fun _ _ h => h) he
    rw [run_acceptIf_cons _ hs, if_pos rfl]
    exact .ok ((pays_tail hs).less (Nat.zero_le 2)) (pays_tail hs)

theorem leads_expect (k : Token.Kind) (c : Complaint) :
    Leads s (expect k c) fun _ t => Pays s t 2 [] := by
  refine (leads_accept k).bind fun o t ho => ?_
  rcases o with _ | tok
  · exact leads_fail c
  · exact leads_pure ho

protected theorem Leads.some (h : Leads s p fun x t => Pays u t 0 (nodes x)) :
    Leads s (some <$> p) fun o t => Pays u t 0 (optionNodes nodes o) :=
  h.map fun _ _ hx => hx

protected theorem Leads.before (k : Token.Kind) (h : Leads s p fun x t => Pays s t 0 (nodes x)) :
    Leads s (before k p) fun o t => Pays s t 0 (optionNodes nodes o) := by
  refine (leads_check k).bind fun b t ht => ?_
  obtain rfl := ht
  split
  · exact leads_pure (.refl t)
  · exact h.some

protected theorem Leads.behind (k : Token.Kind) (h : ∀ s, Leads s p fun x t => Pays s t 0 (nodes x)) :
    Leads s (behind k p) fun o t => Pays s t 0 (optionNodes nodes o) := by
  refine (leads_accept k).bind fun o t ho => ?_
  rcases o with _ | tok
  · obtain rfl : t = s := ho
    exact leads_pure (.refl t)
  · exact (h t).map fun x u hx => (Pays.past ho hx).less (Nat.zero_le _)

/-- What failed is dropped, and the tokens up to where the parse goes on. -/
protected theorem Leads.recovering (h : Leads s p fun x t => Pays s t 0 (nodes x)) :
    Leads s (recovering p) fun o t => Pays s t 0 (optionNodes nodes o) := fun hs => by
  rw [run_recovering]
  have h := h hs
  generalize p.run s = r at h
  cases h with
  | ok hp hx => exact .ok hp hx
  | @error e t hp =>
    rcases e with e | _
    · obtain ⟨taken, htaken, -⟩ := resume_suffix t.ahead
      have hresume : Pays t { t with ahead := resume t.ahead, errors := t.errors ++ [e] } 0 [] := by
        refine .of_le rfl (Nat.le_refl _) ?_
        have hlen := congrArg List.length htaken
        rw [List.length_append] at hlen
        dsimp only
        omega
      exact .ok (hp.append hresume) (hp.append hresume)
    · exact .error hp

end Steps

/-! ## 3. Every rule -/

/-- The stretch on which what a rule is told was built. -/
def Rule.Since (s t : Cursor) {α : Type} : Rule α → Prop
  | .moreAssignments left | .moreOperands _ left | .moreCalls left => Pays s t 0 left.nodes
  | _ => t = s

/-- The nodes of what a rule builds. -/
def Rule.nodes {α : Type} : Rule α → α → List Node
  | .expression | .moreAssignments _ | .assignment | .conditional | .operand _ | .moreOperands _ _
  | .operandWithin _ | .unary | .moreCalls _ | .primary => Expr.nodes
  | .arguments => exprsNodes
  | .parameterNames | .parameters => fun _ => []
  | .code _ => Code.nodes
  | .funDecl _ => FunDecl.nodes
  | .declaration _ | .forInit => optionNodes Stmt.nodes
  | .declarationOrFail _ | .classDecl | .varDecl | .statement _ | .exprStatement | .forLoop _
  | .whileLoop _ | .branch _ | .ret _ => Stmt.nodes
  | .methodsRest => funDeclsNodes
  | .blockRest _ | .declarations _ | .program => stmtsNodes

/-- The nodes that are left to pay for once a rule is done: one for the declaration of a function,
    which not every function with a name is. -/
def Rule.left {α : Type} : Rule α → Nat
  | .funDecl _ => 1
  | _ => 0

/-- From every cursor on, `p` pays for what it builds. -/
def Paid {α : Type} (p : Parse α) (nodes : α → List Node) : Prop :=
  ∀ s, Leads s p fun x t => Pays s t 0 (nodes x)

section Rules

variable {n : Nat} {s t u v : Cursor}

theorem parameterNames_paid : ∀ n, Paid (parameterNames n) fun _ => []
  | 0 => fun _ => leads_starve
  | n + 1 => fun s => by
    rw [parameterNames]
    refine (leads_expect _ _).bind fun name t hname => (leads_accept _).bind fun o u ho => ?_
    rcases o with _ | tok
    · obtain rfl : u = t := ho
      exact leads_pure (hname.less (by decide))
    · exact (parameterNames_paid n u).bind fun names v hnames =>
        leads_pure (((hname.on ho).on hnames).less (by decide))

theorem parameters_paid (n : Nat) : Paid (parameters n) fun _ => [] := fun s =>
  ((parameterNames_paid n s).before .rightParen).bind fun _ _ hnames =>
    (leads_limit _ _).bind fun _ _ hlimit => (leads_expect _ _).bind fun _ _ hclose =>
      leads_pure (((hnames.on hlimit).on hclose).drop.less (by decide))

theorem superclassName_paid : Paid superclassName fun ref => [.expr (.read ref)] := fun s =>
  (leads_expect _ _).bind fun _ _ hname => (leads_refer _).mono fun _ _ href =>
    hname.reference rfl href.1 href.2 (by decide)

theorem loopExit_paid (loops : Nat) (e : LoopExit) (keyword : Token) :
    Leads s (loopExit loops e keyword) fun x t => Pays s t 0 x.nodes := by
  have houtside : Leads s (complainOutside loops e keyword) fun _ t => Pays s t 0 [] := by
    unfold complainOutside
    split
    · exact leads_report _ _
    · exact leads_pure (.refl s)
  refine houtside.bind fun _ _ hreport => (leads_expect _ _).bind fun _ _ hend => leads_pure ?_
  cases e <;> exact (hreport.on hend).node rfl (by decide)

/-- The value that an assignment to a name has. -/
theorem Pays.assignedValue {ref : Reference} {equals : Token} {value : Expr}
    (ht : Pays s t 0 (Expr.read ref).nodes) (heq : Pays t u 2 []) (hv : Pays u v 0 value.nodes) :
    Pays s v 1 (assignedValue (.read ref) equals value).nodes := by
  unfold Syntax.assignedValue
  split
  · exact ((ht.on heq).append hv).node rfl (by decide)
  · exact ((ht.on heq).drop.past hv).less (by decide)

theorem assignTo_paid {target value : Expr} {equals : Token} (ht : Pays s t 0 target.nodes)
    (heq : Pays t u 2 []) (hv : Pays u v 0 value.nodes) :
    Leads v (assignTo target equals (assignedValue target equals value)) fun x w =>
      Pays s w 0 x.nodes := by
  cases target with
  | read ref =>
    exact (leads_refer _).bind fun new w href =>
      leads_pure ((ht.assignedValue heq hv).reference rfl href.1 href.2 (by decide))
  | get o name =>
    refine leads_pure ?_
    show Pays s v 0 (Expr.set o name _).nodes
    unfold assignedValue
    split
    · exact (ht.on heq).compound hv (by decide)
    · exact ((ht.object.on heq).append hv).node rfl (by decide)
  | _ =>
    exact (leads_report _ _).bind fun _ w hreport =>
      leads_pure (((ht.on heq).on (hv.drop.on hreport)).less (by decide))

theorem primary_paid (hcode : ∀ f, Paid (code n f) Code.nodes) (hexpr : Paid (expression n) Expr.nodes)
    (hoperand : ∀ l, Paid (operand n l) Expr.nodes) : Paid (primary (n + 1)) Expr.nodes := fun s => by
  rw [primary]
  refine leads_peek.bind fun tok t ht => ?_
  obtain ⟨rfl, rfl⟩ := ht
  cases hk : t.front.kind with
  | kwFalse | kwTrue | kwNil | number | string =>
    exact (leads_skip (by simp [hk])).bind fun _ _ htok =>
      leads_pure (htok.node rfl (by decide))
  | kwThis | identifier =>
    exact (leads_skip (by simp [hk])).bind fun _ _ htok => (leads_refer _).bind fun _ _ href =>
      leads_pure (htok.reference rfl href.1 href.2 (by decide))
  | kwSuper =>
    exact (leads_skip (by simp [hk])).bind fun _ _ htok => (leads_expect _ _).bind
      fun _ _ hdot => (leads_expect _ _).bind fun _ _ hmethod => (leads_refer _).bind fun _ _ href =>
        leads_pure (((htok.on hdot).on hmethod).reference rfl href.1 href.2 (by decide))
  | kwFun =>
    exact (leads_skip (by simp [hk])).bind fun _ _ htok => (hcode .lambda _).bind fun _ _ hc =>
      leads_pure ((htok.past hc).node rfl (by decide))
  | leftParen =>
    exact (leads_skip (by simp [hk])).bind fun _ _ htok => (hexpr _).bind fun _ _ he =>
      (leads_expect _ _).bind fun _ _ hclose =>
        leads_pure (((htok.past he).on hclose).node rfl (by decide))
  | bangEqual | equalEqual | greater | greaterEqual | less | lessEqual | plus | star | slash =>
    -- the operand of a stray operator is dropped, and `nil` stands for both
    exact (leads_skip (by simp [hk])).bind fun _ _ htok => (leads_report _ _).bind
      fun _ _ hreport => (hoperand _ _).bind fun _ _ he =>
        leads_pure (((htok.on hreport).on he.drop).node rfl (by decide))
  | _ => exact leads_fail _

theorem statement_paid {loops : Nat} (hfor : Paid (forLoop n loops) Stmt.nodes)
    (hif : Paid (branch n loops) Stmt.nodes) (hret : ∀ tok, Paid (ret n tok) Stmt.nodes)
    (hwhile : Paid (whileLoop n loops) Stmt.nodes) (hblock : Paid (blockRest n loops) stmtsNodes)
    (hexpr : Paid (exprStatement n) Stmt.nodes) : Paid (statement (n + 1) loops) Stmt.nodes :=
  fun s => by
  rw [statement]
  refine leads_peek.bind fun tok t ht => ?_
  obtain ⟨rfl, rfl⟩ := ht
  have keyword {p : Parse Stmt} (hk : t.front.kind ≠ .eof) (hp : Paid p Stmt.nodes) :
      Leads t (skip >>= fun _ => p) fun x u => Pays t u 0 x.nodes :=
    (leads_skip hk).bind fun _ _ htok => (hp _).mono fun _ _ hx => (htok.past hx).less (by decide)
  cases hk : t.front.kind with
  | kwFor => exact keyword (by simp [hk]) hfor
  | kwIf => exact keyword (by simp [hk]) hif
  | kwReturn => exact keyword (by simp [hk]) (hret _)
  | kwWhile => exact keyword (by simp [hk]) hwhile
  | leftBrace =>
    exact (leads_skip (by simp [hk])).bind fun _ _ htok => (hblock _).bind fun _ _ hb =>
      leads_pure ((htok.past hb).node rfl (by decide))
  | kwBreak => exact keyword (by simp [hk]) fun _ => loopExit_paid loops .leave _
  | kwContinue => exact keyword (by simp [hk]) fun _ => loopExit_paid loops .next _
  | _ => exact hexpr t

theorem declarationOrFail_paid {loops : Nat} (hclass : Paid (classDecl n) Stmt.nodes)
    (hfun : ∀ s, Leads s (funDecl n .function) fun f t => Pays s t 1 f.nodes)
    (hvar : Paid (varDecl n) Stmt.nodes)
    (hstmt : Paid (statement n loops) Stmt.nodes) :
    Paid (declarationOrFail (n + 1) loops) Stmt.nodes := fun s => by
  rw [declarationOrFail]
  refine (leads_accept _).bind fun o t ho => ?_
  rcases o with _ | tok
  · obtain rfl : t = s := ho
    refine (leads_check _).bind fun _ u hu => (leads_checkSecond _).bind fun _ v hv => ?_
    subst hu hv
    split
    · refine (leads_accept _).bind fun o w ho => (hfun w).bind fun f x hf => leads_pure ?_
      rw [nodes_funDecl]
      rcases o with _ | tok
      · obtain rfl : w = _ := ho
        exact hf.node rfl (by decide)
      · exact (Pays.past ho hf).node rfl (by decide)
    · refine (leads_accept _).bind fun o v hv => ?_
      rcases o with _ | tok
      · obtain rfl := (show v = _ from hv)
        exact hstmt _
      · exact (hvar v).mono fun _ _ hx => (Pays.past hv hx).less (by decide)
  · exact (hclass t).mono fun _ _ hx => (Pays.past ho hx).less (by decide)

end Rules

/-- **Every rule pays for what it builds.** -/
theorem rule_pays : ∀ n {α : Type} (r : Rule α) {s t : Cursor}, r.Since s t →
    Leads t (r.parse n) fun x u => Pays s u r.left (r.nodes x)
  | 0, _, r, s, t => fun hsince => by
    cases r with
    | parameters =>
      obtain rfl : t = s := hsince
      exact parameters_paid 0 t
    | _ => exact leads_starve
  | n + 1, _, r, s, t => fun hsince => by
    have ih := @rule_pays n
    have expression : Paid (expression n) Expr.nodes := fun _ => ih .expression rfl
    have assignment : Paid (assignment n) Expr.nodes := fun _ => ih .assignment rfl
    have statement (l : Nat) : Paid (statement n l) Stmt.nodes := fun _ => ih (.statement l) rfl
    have within (l : Option Level) : Paid (operandWithin n l) Expr.nodes := fun _ =>
      ih (.operandWithin l) rfl
    have function (f : Callable) (s : Cursor) :
        Leads s (funDecl n f) fun x t => Pays s t 1 x.nodes := ih (.funDecl f) rfl
    cases r with
    | moreAssignments left =>
      have hleft : Pays s t 0 left.nodes := hsince
      refine (leads_accept _).bind fun o u ho => ?_
      rcases o with _ | op
      · obtain rfl : u = t := ho
        exact leads_pure hleft
      · exact (assignment u).bind fun e v he => ih (.moreAssignments (.binary left op e))
          (((hleft.on ho).append he).node rfl (by decide))
    | moreOperands l left =>
      have hleft : Pays s t 0 left.nodes := hsince
      refine (leads_acceptIf _).bind fun o u ho => ?_
      rcases o with _ | op
      · obtain rfl : u = t := ho
        exact leads_pure hleft
      · exact (within l.tighter? u).bind fun e v he =>
          ih (.moreOperands l (l.join left op e)) ((((hleft.on ho).append he).less (by decide)).join l)
    | moreCalls left =>
      have hleft : Pays s t 0 left.nodes := hsince
      refine (leads_accept _).bind fun o u ho => ?_
      rcases o with _ | tok
      · obtain rfl : u = t := ho
        refine (leads_accept _).bind fun o v ho => ?_
        rcases o with _ | tok
        · obtain rfl : v = u := ho
          exact leads_pure hleft
        · exact (leads_expect _ _).bind fun name w hname => ih (.moreCalls (.get left name))
            (((hleft.on ho).on hname).node rfl (by decide))
      · refine (Leads.before _ (ih .arguments rfl)).bind fun args v hargs => (leads_limit _ _).bind
          fun _ w hlimit => (leads_expect _ _).bind fun paren x hparen =>
            ih (.moreCalls (.call left paren (args.getD []))) ?_
        have hall := (((hleft.on ho).append hargs).on hlimit).on hparen
        cases args <;> exact hall.node rfl (by decide)
    | expression =>
      obtain rfl : t = s := hsince
      exact (assignment t).bind fun e u he => ih (.moreAssignments e) he
    | assignment =>
      obtain rfl : t = s := hsince
      refine Leads.bind (ih .conditional rfl) fun target u ht => (leads_acceptIf _).bind fun o v ho => ?_
      rcases o with _ | equals
      · obtain rfl : v = u := ho
        exact leads_pure ht
      · exact (assignment v).bind fun _ _ hv => assignTo_paid ht ho hv
    | conditional =>
      obtain rfl : t = s := hsince
      refine Leads.bind (ih (.operand .or) rfl) fun condition u hc => (leads_accept _).bind
        fun o v ho => ?_
      rcases o with _ | tok
      · obtain rfl : v = u := ho
        exact leads_pure hc
      · refine (expression v).bind fun yes _ hyes => (leads_expect _ _).bind fun _ _ hcolon =>
          Leads.bind (ih .conditional rfl) fun no _ hno => leads_pure ?_
        exact (((((hc.on ho).append hyes).on hcolon).append hno).node rfl (Nat.zero_lt_succ _))
    | operand l =>
      obtain rfl : t = s := hsince
      exact (within l.tighter? t).bind fun e u he => ih (.moreOperands l e) he
    | operandWithin l =>
      obtain rfl : t = s := hsince
      rcases l with _ | l
      · exact ih .unary rfl
      · exact ih (.operand l) rfl
    | unary =>
      obtain rfl : t = s := hsince
      refine (leads_acceptIf _).bind fun o u ho => ?_
      rcases o with _ | op
      · obtain rfl : u = t := ho
        exact Leads.bind (ih .primary rfl) fun e v he => ih (.moreCalls e) he
      · exact Leads.bind (ih .unary rfl) fun _ _ he =>
          leads_pure ((Pays.past ho he).node rfl (by decide))
    | arguments =>
      obtain rfl : t = s := hsince
      refine (assignment t).bind fun first u hfirst => (leads_accept _).bind fun o v ho => ?_
      rcases o with _ | tok
      · obtain rfl : v = u := ho
        exact leads_pure (hfirst.append (.refl v))
      · exact Leads.bind (ih .arguments rfl) fun _ _ hrest =>
          leads_pure (((hfirst.on ho).append hrest).less (by decide))
    | primary =>
      obtain rfl : t = s := hsince
      exact primary_paid (fun f _ => ih (.code f) rfl) expression (fun l _ => ih (.operand l) rfl) t
    | parameterNames =>
      obtain rfl : t = s := hsince
      exact parameterNames_paid (n + 1) t
    | parameters =>
      obtain rfl : t = s := hsince
      exact parameters_paid (n + 1) t
    | code f =>
      obtain rfl : t = s := hsince
      exact (leads_expect _ _).bind fun _ _ hopen => (parameters_paid n _).bind fun _ _ hparams =>
        (leads_expect _ _).bind fun _ _ hbrace => Leads.bind (ih (.blockRest 0) rfl)
          fun _ _ hbody => leads_pure ((((hopen.on hparams).on hbrace).past hbody).less (Nat.zero_le _))
    | funDecl f =>
      obtain rfl : t = s := hsince
      exact (leads_expect _ _).bind fun name _ hname => Leads.bind (ih (.code f) rfl)
        fun _ _ hc => leads_pure ((Pays.past hname hc).less (Nat.le_succ 1))
    | declaration loops =>
      obtain rfl : t = s := hsince
      exact Leads.recovering (ih (.declarationOrFail loops) rfl)
    | declarationOrFail loops =>
      obtain rfl : t = s := hsince
      exact declarationOrFail_paid (fun _ => ih .classDecl rfl) (function .function)
        (fun _ => ih .varDecl rfl) (statement loops) t
    | classDecl =>
      obtain rfl : t = s := hsince
      refine (leads_expect _ _).bind fun name _ hname => (Leads.behind _ superclassName_paid).bind
        fun superclass _ hsuper => (leads_expect _ _).bind fun _ _ hopen =>
          Leads.bind (ih .methodsRest rfl) fun methods _ hmethods => (leads_expect _ _).bind
            fun _ _ hclose => leads_pure ?_
      have hall := ((((hname.past hsuper).on hopen).append hmethods).on hclose)
      cases superclass <;> exact hall.node rfl (by decide)
    | methodsRest =>
      obtain rfl : t = s := hsince
      refine (leads_check _).bind fun _ u hu => leads_atEnd.bind fun _ v hv => ?_
      subst hu hv
      split
      · exact leads_pure (.refl _)
      · refine (function .method _).bind fun f u hf => Leads.bind (ih .methodsRest rfl)
          fun _ _ hrest => leads_pure ?_
        show Pays _ _ 0 (funDeclsNodes (f :: _))
        rw [funDeclsNodes_cons]
        exact (hf.append hrest).less (by decide)
    | varDecl =>
      obtain rfl : t = s := hsince
      refine (leads_expect _ _).bind fun name _ hname => (Leads.behind _ expression).bind
        fun init _ hinit => (leads_expect _ _).bind fun _ _ hend => leads_pure ?_
      have hinit : Pays _ _ 3 (init.getD (.literal .nil)).nodes := ((hname.past hinit).on hend).or_literal
      exact hinit.node rfl (by decide)
    | statement loops =>
      obtain rfl : t = s := hsince
      exact statement_paid (fun _ => ih (.forLoop loops) rfl) (fun _ => ih (.branch loops) rfl)
        (fun tok _ => ih (.ret tok) rfl) (fun _ => ih (.whileLoop loops) rfl)
        (fun _ => ih (.blockRest loops) rfl) (fun _ => ih .exprStatement rfl) t
    | exprStatement =>
      obtain rfl : t = s := hsince
      exact (expression t).bind fun e _ he => (leads_expect _ _).bind fun _ _ hend =>
        leads_pure ((he.on hend).node rfl (by decide))
    | forLoop loops =>
      obtain rfl : t = s := hsince
      refine (leads_expect _ _).bind fun _ _ hopen => Leads.bind (ih .forInit rfl) fun init u hinit =>
        ((expression _).before _).bind fun condition _ hcondition => (leads_expect _ _).bind
          fun _ _ hfirst => ((expression _).before _).bind fun increment _ hincrement =>
            (leads_expect _ _).bind fun _ _ hclose => (statement (loops + 1) _).bind
              fun body _ hbody => leads_pure ?_
      have hcondition : Pays _ _ 1 (condition.getD (.literal (.bool true))).nodes :=
        (hcondition.on hfirst).or_literal
      have hinit : Pays t u 2 (optionStmtNodes init) := by
        rw [← optionNodes_stmt]
        exact hopen.past hinit
      rw [optionNodes_expr] at hincrement
      have hhead := ((hinit.append hcondition).append hincrement).on hclose
      exact (hhead.append hbody).node rfl (Nat.zero_lt_succ _)
    | forInit =>
      obtain rfl : t = s := hsince
      refine (leads_accept _).bind fun o u ho => ?_
      rcases o with _ | tok
      · obtain rfl : u = t := ho
        refine (leads_accept _).bind fun o v ho => ?_
        rcases o with _ | tok
        · obtain rfl : v = u := ho
          exact Leads.some (ih .exprStatement rfl)
        · exact Leads.some (Leads.mono (ih .varDecl rfl) fun _ _ hx =>
            (Pays.past ho hx).less (Nat.zero_le _))
      · exact leads_pure (Pays.less ho (Nat.zero_le _))
    | whileLoop loops =>
      obtain rfl : t = s := hsince
      exact (leads_expect _ _).bind fun _ _ hopen => (expression _).bind fun condition _ hcondition =>
        (leads_expect _ _).bind fun _ _ hclose => (statement (loops + 1) _).bind fun _ _ hbody =>
          leads_pure ((((hopen.past hcondition).on hclose).append hbody).node rfl (Nat.zero_lt_succ _))
    | branch loops =>
      obtain rfl : t = s := hsince
      refine (leads_expect _ _).bind fun _ _ hopen => (expression _).bind fun condition _ hcondition =>
        (leads_expect _ _).bind fun _ _ hclose => (statement loops _).bind fun yes _ hyes =>
          (Leads.behind _ (statement loops)).bind fun no _ hno => leads_pure ?_
      rw [optionNodes_stmt] at hno
      exact ((((hopen.past hcondition).on hclose).append hyes).append hno).node rfl (Nat.zero_lt_succ _)
    | ret keyword =>
      obtain rfl : t = s := hsince
      refine ((expression t).before _).bind fun value _ hvalue => (leads_expect _ _).bind
        fun _ _ hend => leads_pure ?_
      rw [optionNodes_expr] at hvalue
      exact (hvalue.on hend).node rfl (Nat.zero_lt_succ _)
    | blockRest loops =>
      obtain rfl : t = s := hsince
      exact Leads.bind (ih (.declarations loops) rfl) fun _ _ hbody => (leads_expect _ _).bind
        fun _ _ hclose => leads_pure ((hbody.on hclose).less (Nat.zero_le _))
    | declarations loops =>
      obtain rfl : t = s := hsince
      refine (leads_check _).bind fun _ u hu => leads_atEnd.bind fun _ v hv => ?_
      subst hu hv
      split
      · exact leads_pure (.refl _)
      · exact Leads.bind (ih (.declaration loops) rfl) fun first _ hfirst =>
          Leads.bind (ih (.declarations loops) rfl) fun rest _ hrest =>
            leads_pure (hfirst.statements hrest)
    | program =>
      obtain rfl : t = s := hsince
      refine leads_atEnd.bind fun _ u hu => ?_
      subst hu
      split
      · exact leads_pure (.refl _)
      · exact Leads.bind (ih (.declaration 0) rfl) fun first _ hfirst =>
          Leads.bind (ih .program rfl) fun rest _ hrest => leads_pure (hfirst.statements hrest)

/-! ## 4. Whole parses -/

/-- What a parse builds is paid for by its tokens. -/
theorem parse_grown (tokens : List Token) (nextId : Nat) : ∃ w, w ≤ 2 * tokens.length ∧
    Grown nextId (parse tokens nextId).nextId w (stmtsNodes (parse tokens nextId).statements) := by
  have hlead := rule_pays (fuelFor tokens.length) .program (s := Cursor.ofTokens tokens nextId) rfl
    (ofTokens_at tokens nextId).ended
  have hahead : (Cursor.ofTokens tokens nextId).ahead.length ≤ tokens.length :=
    takeWhile_length_le _ _
  have hpaid {t : Cursor} {ns : List Node} (h : Pays (Cursor.ofTokens tokens nextId) t 0 ns) :
      ∃ w, w ≤ 2 * tokens.length ∧ Grown nextId t.nextId w ns := by
    obtain ⟨-, w, hw, hle⟩ := h
    exact ⟨w, by omega, hw⟩
  rw [Rule.parse] at hlead
  unfold parse
  generalize (program (fuelFor tokens.length)).run _ = r at hlead
  cases hlead with
  | ok _ hx => exact hpaid hx
  | error hs => exact hpaid hs

/-- **The nodes of a parse.** They are at most twice the tokens, doubled for each level of compound
    assignments to properties that stand in the object of the next; without any, twice the tokens. -/
theorem parse_nodes_le (tokens : List Token) (nextId : Nat) :
    ∃ d, Nests (stmtsNodes (parse tokens nextId).statements) d ∧
      (stmtsNodes (parse tokens nextId).statements).length ≤ 2 ^ d * (2 * tokens.length) := by
  obtain ⟨w, hw, hgrown⟩ := parse_grown tokens nextId
  obtain ⟨d, hd, hlen⟩ := hgrown.weighs
  exact ⟨d, hd, Nat.le_trans hlen (Nat.mul_le_mul_left _ hw)⟩

/-- The tokens of `((a.b += nil).b += nil).b += nil;` alone do not pay for its nodes. -/
theorem copies_outgrow_tokens :
    let word (k : Token.Kind) (w : String) (column : Nat) : Token := ⟨k, w, ⟨1, column⟩⟩
    let tokens := [word .leftParen "(" 1, word .leftParen "(" 2, word .identifier "a" 3,
      word .dot "." 4, word .identifier "b" 5, word .plusEqual "+=" 8, word .kwNil "nil" 12,
      word .rightParen ")" 13, word .dot "." 14, word .identifier "b" 15, word .plusEqual "+=" 18,
      word .kwNil "nil" 22, word .rightParen ")" 23, word .dot "." 24, word .identifier "b" 25,
      word .plusEqual "+=" 28, word .kwNil "nil" 32, word .semicolon ";" 33, word .eof "" 33]
    (parse tokens 0).errors = [] ∧
      2 * tokens.length < (stmtsNodes (parse tokens 0).statements).length :=
  ⟨by cbv, by decide +kernel⟩

/-- Parses one after the other, each with the references that the ones before it have left. -/
def parseEach : List (List Token) → (nextId : Nat) → List (List Stmt)
  | [], _ => []
  | tokens :: rest, nextId =>
    (parse tokens nextId).statements :: parseEach rest (parse tokens nextId).nextId

/-- The references of later parses come later. -/
theorem parseEach_fresh : ∀ (texts : List (List Token)) (nextId : Nat),
    ∀ ss ∈ parseEach texts nextId, ∃ a b, nextId ≤ a ∧ Fresh a b (stmtsNodes ss)
  | [], _ => fun _ h => nomatch h
  | tokens :: rest, nextId => by
    obtain ⟨w, -, hgrown⟩ := parse_grown tokens nextId
    rw [parseEach, List.forall_mem_cons]
    refine ⟨⟨nextId, _, Nat.le_refl _, hgrown.fresh⟩, fun ss hss => ?_⟩
    obtain ⟨a, b, ha, hfresh⟩ := parseEach_fresh rest _ ss hss
    exact ⟨a, b, Nat.le_trans hgrown.le ha, hfresh⟩

/-- **A reference in more than one place is a copy.** Different parses have different references; and
    where two nodes of one parse have the same, it belongs to the object of a compound assignment to
    a property, which is in the tree twice. -/
theorem shared_references_are_copies (texts : List (List Token)) (nextId : Nat) :
    ((parseEach texts nextId).Pairwise fun ss later =>
      ∀ r ∈ referencesIn (stmtsNodes ss), ∀ r' ∈ referencesIn (stmtsNodes later), r.id ≠ r'.id) ∧
    ∀ ss ∈ parseEach texts nextId,
      (referencesIn (stmtsNodes ss)).Pairwise fun r r' =>
        r.id = r'.id → r = r' ∧ ∃ o, Copied (stmtsNodes ss) o ∧ r ∈ referencesIn o.nodes := by
  refine ⟨?_, fun ss hss => ?_⟩
  · induction texts generalizing nextId with
    | nil => exact .nil
    | cons tokens rest ih =>
      obtain ⟨w, -, hgrown⟩ := parse_grown tokens nextId
      rw [parseEach, List.pairwise_cons]
      refine ⟨fun later hlater r hr r' hr' hid => ?_, ih _⟩
      obtain ⟨a, b, ha, hfresh⟩ := parseEach_fresh rest _ later hlater
      have hlt := (hgrown.fresh.range r hr).2
      have hle := (hfresh.range r' hr').1
      rw [hid] at hlt
      omega
  · obtain ⟨a, b, -, hfresh⟩ := parseEach_fresh texts nextId ss hss
    exact hfresh.shared

/-- Both `a` in the tree of `a.b += nil;` have the same reference. -/
theorem copies_share_a_reference :
    let word (k : Token.Kind) (w : String) (column : Nat) : Token := ⟨k, w, ⟨1, column⟩⟩
    let tokens := [word .identifier "a" 1, word .dot "." 2, word .identifier "b" 3,
      word .plusEqual "+=" 6, word .kwNil "nil" 10, word .semicolon ";" 11, word .eof "" 11]
    (parse tokens 0).errors = [] ∧
      ¬ ((referencesIn (stmtsNodes (parse tokens 0).statements)).map Reference.id).Nodup :=
  ⟨by cbv, by decide⟩

end Lox.Syntax
