import Lox.Proofs.Grammar.Nodes
import Lox.Proofs.Listing.Reading
import Lox.Proofs.Scope.Shapes

/-!
# Trees that are read from their listings

A listing says what it lists, up to the places of tokens and the numbers of references. A string stands
without quotes, and an infinite number is listed like a name; so a tree must have neither.

* `Legible`: among the nodes is no string and no infinite number.
* `Expr.Listed`, `Stmt.Listed`: **a tree is read from its listing.** There is a form that is written as
  the listing, and what is read from the form is the tree.
* `Expr.Listed.of_parts`, `Stmt.Listed.of_parts`: a tree with a head and parts is listed, if its parts
  are. The rest is one lemma a kind of tree.
-/

namespace Lox

open Token (Worded IsName spellings)

/-! ## 1. Legible trees -/

/-- A literal whose listing tells what it is: neither a string nor an infinite number. -/
def Literal.Legible : Literal → Prop
  | .text _ => False
  | .number x => ∀ negative, Decimal.parts x ≠ .infinite negative
  | .bool _ | .nil => True

instance : DecidablePred Literal.Legible
  | .text _ => inferInstanceAs (Decidable False)
  | .number x => inferInstanceAs (Decidable (∀ negative, Decimal.parts x ≠ .infinite negative))
  | .bool _ | .nil => inferInstanceAs (Decidable True)

/-- The literal that a node is. -/
def Node.literal? : Node → Option Literal
  | .expr (.literal l) => some l
  | _ => none

/-- A node is no literal, or one whose listing tells what it is. -/
def Node.Legible (n : Node) : Prop := ∀ l ∈ n.literal?, l.Legible

instance (n : Node) : Decidable n.Legible := inferInstanceAs (Decidable (∀ l ∈ n.literal?, l.Legible))

/-- **Among the nodes is no string and no infinite number.** -/
def Legible (ns : List Node) : Prop := ∀ n ∈ ns, n.Legible

instance (ns : List Node) : Decidable (Legible ns) :=
  inferInstanceAs (Decidable (∀ n ∈ ns, n.Legible))

@[simp] theorem legible_cons {n : Node} {ns : List Node} :
    Legible (n :: ns) ↔ n.Legible ∧ Legible ns := List.forall_mem_cons

@[simp] theorem legible_append {ns ms : List Node} :
    Legible (ns ++ ms) ↔ Legible ns ∧ Legible ms := List.forall_mem_append

theorem legible_of_mem {ss : List Stmt} (h : Legible (stmtsNodes ss)) {s : Stmt} (hs : s ∈ ss) :
    Legible s.nodes := by
  induction ss with
  | nil => cases hs
  | cons t rest ih =>
    rw [stmtsNodes, legible_append] at h
    cases hs with
    | head => exact h.1
    | tail _ hs => exact ih h.2 hs

theorem legible_getD {o : Option Expr} {b : Bool} (h : Legible (o.getD (.literal (.bool b))).nodes) :
    Legible (optionExprNodes o) := by
  cases o with
  | none => exact fun n hn => nomatch hn
  | some e => exact h

/-! ## 2. Listed trees -/

/-- **A form is written as a text, and a tree is read from it.** -/
structure Form.Lists {α : Type} (read : Form → Option α) (f : Form) (text : String) (tree : α) :
    Prop where
  ne_empty : f ≠ .node []
  text : f.text = text
  reads : read f = some tree

/-- **An expression is read from its listing.** -/
def Expr.Listed (e : Expr) : Prop := ∃ f : Form, f.Lists Form.expr? e.listing e.bare

/-- **A statement is read from its listing.** -/
def Stmt.Listed (s : Stmt) : Prop := ∃ f : Form, f.Lists Form.stmt? s.listing s.bare

/-- The parameters and the statements of a function are read from their listing. -/
def Code.Listed (c : Code) : Prop := ∃ fs, textsOf fs = c.listing ∧ code? fs = some c.bare

/-- A token that is a name. -/
structure Token.Named (t : Token) : Prop where
  kind : t.kind = .identifier
  isName : IsName t.lexeme

/-- A function with its name is read from its listing. -/
structure FunDecl.Listed (d : FunDecl) : Prop where
  name : d.name.Named
  code : d.code.Listed

theorem Token.Worded.named {t : Token} (h : Worded t) (hk : t.kind = .identifier) : t.Named :=
  ⟨hk, h.name hk⟩

/-- A token of a kind that is spelled in one way only. -/
theorem Token.Worded.bare {t : Token} {k : Token.Kind} {word : String} (h : Worded t) (hk : t.kind = k)
    (hs : (k, word) ∈ spellings) : t.bare = unplaced k word := by
  rw [Token.bare, hk, h.spelling word (hk ▸ hs)]

namespace FunDecl

theorem bare_eq (d : FunDecl) : d.bare = .mk d.name.bare d.code.bare := by
  cases d
  rfl

theorem listing_eq (d : FunDecl) : d.listing = Lox.form ("fun" :: d.name.lexeme :: d.code.listing) := by
  cases d
  rfl

end FunDecl

namespace Token.Named

variable {t : Token}

/-- A name as a form. -/
def leaf (h : t.Named) : Form := .leaf ⟨t.lexeme, h.isName.isWord⟩

theorem bare (h : t.Named) : t.bare = unplaced .identifier t.lexeme := by rw [Token.bare, h.kind]

theorem name? (h : t.Named) : h.leaf.name? = some t.bare := by
  rw [h.bare]
  rfl

theorem lists (h : t.Named) (id : RefId) :
    h.leaf.Lists Form.expr? (Expr.read ⟨id, t⟩).listing (Expr.read ⟨id, t⟩).bare := by
  refine ⟨nofun, rfl, ?_⟩
  show some (leafOf t.lexeme) = some (.read ⟨⟨0⟩, t.bare⟩)
  rw [h.isName.leafOf, h.bare]

theorem listed (h : t.Named) (id : RefId) : (Expr.read ⟨id, t⟩).Listed := ⟨h.leaf, h.lists id⟩

end Token.Named

/-! ## 3. Lists of trees, and trees that may be missing -/

theorem exprs_listed {es : List Expr} (h : ∀ e ∈ es, e.Listed) :
    ∃ fs, textsOf fs = listings es ∧ exprs? fs = some (exprsBare es) := by
  induction es with
  | nil => exact ⟨[], rfl, exprs?_nil⟩
  | cons e rest ih =>
    rw [List.forall_mem_cons] at h
    obtain ⟨f, hf⟩ := h.1
    obtain ⟨fs, htexts, hreads⟩ := ih h.2
    refine ⟨f :: fs, ?_, ?_⟩
    · rw [textsOf, hf.text, htexts]
      rfl
    · rw [exprs?_cons, hf.reads, hreads]
      rfl

theorem stmts_listed {ss : List Stmt} (h : ∀ s ∈ ss, s.Listed) :
    ∃ fs, textsOf fs = bodyListing ss ∧ stmts? fs = some (stmtsBare ss) := by
  induction ss with
  | nil => exact ⟨[], rfl, stmts?_nil⟩
  | cons s rest ih =>
    rw [List.forall_mem_cons] at h
    obtain ⟨f, hf⟩ := h.1
    obtain ⟨fs, htexts, hreads⟩ := ih h.2
    refine ⟨f :: fs, ?_, ?_⟩
    · rw [textsOf, hf.text, htexts]
      rfl
    · rw [stmts?_cons, hf.reads, hreads]
      rfl

theorem names_listed {ns : List Token} (h : ∀ t ∈ ns, t.Named) :
    ∃ fs, textsOf fs = ns.map Token.lexeme ∧ fs.mapM Form.name? = some (ns.map Token.bare) := by
  induction ns with
  | nil => exact ⟨[], rfl, rfl⟩
  | cons t rest ih =>
    rw [List.forall_mem_cons] at h
    obtain ⟨fs, htexts, hreads⟩ := ih h.2
    refine ⟨h.1.leaf :: fs, ?_, ?_⟩
    · rw [textsOf, htexts]
      rfl
    · simp [h.1.name?, hreads]

theorem code_listed {ns : List Token} {body : List Stmt} (hns : ∀ t ∈ ns, t.Named)
    (hbody : ∀ s ∈ body, s.Listed) : (Code.mk ns body).Listed := by
  obtain ⟨params, hparams, hnames⟩ := names_listed hns
  obtain ⟨fs, htexts, hreads⟩ := stmts_listed hbody
  refine ⟨.node params :: fs, ?_, ?_⟩
  · rw [textsOf, Form.text, hparams, htexts]
    rfl
  · rw [code?_node, hnames, hreads]
    rfl

/-- A function with its name as a form. -/
theorem FunDecl.Listed.form {d : FunDecl} (h : d.Listed) :
    ∃ fs, textsOf fs = d.name.lexeme :: d.code.listing ∧
      (∀ hfun, (headed "fun" hfun fs).funDecl? = some d.bare) ∧
      ∀ hfun, (headed "fun" hfun fs).stmt? = some (.funDecl d.bare) := by
  obtain ⟨fs, htexts, hreads⟩ := h.code
  refine ⟨h.name.leaf :: fs, ?_, fun hfun => ?_, fun hfun => ?_⟩
  · rw [textsOf, htexts]
    rfl
  · rw [funDecl?_headed, h.name.name?, hreads, FunDecl.bare_eq]
    rfl
  · rw [stmt?_fun, h.name.name?, hreads, FunDecl.bare_eq]
    rfl

/-- Methods stand behind no superclass. -/
theorem methods_listed {ds : List FunDecl} (h : ∀ d ∈ ds, d.Listed) :
    ∃ fs, textsOf fs = methodListings ds ∧ methods? fs = some (funDeclsBare ds) ∧
      superclass? fs = none := by
  induction ds with
  | nil => exact ⟨[], rfl, methods?_nil, rfl⟩
  | cons d rest ih =>
    rw [List.forall_mem_cons] at h
    obtain ⟨fs, htexts, hreads, -⟩ := ih h.2
    obtain ⟨parts, hparts, hdecl, -⟩ := h.1.form
    have hfun : IsWord "fun" := by decide
    refine ⟨headed "fun" hfun parts :: fs, ?_, ?_, rfl⟩
    · show form ("fun" :: textsOf parts) :: textsOf fs = d.listing :: methodListings rest
      rw [htexts, hparts, d.listing_eq]
    · rw [methods?_headed, hdecl, hreads]
      rfl

theorem Form.Lists.orNothing {α : Type} {read : Form → Option α} {f : Form} {text : String} {tree : α}
    (h : f.Lists read text tree) : f.orNothing (read f) = some (some tree) := by
  unfold Form.orNothing
  split
  · exact absurd rfl h.ne_empty
  · rw [h.reads]
    rfl

theorem option_listed {o : Option Stmt} (h : ∀ s, o = some s → s.Listed) :
    ∃ f : Form, f.text = optionListing o ∧ f.orNothing f.stmt? = some (optionBare o) := by
  cases o with
  | none => exact ⟨.node [], rfl, rfl⟩
  | some s =>
    obtain ⟨f, hf⟩ := h s rfl
    exact ⟨f, hf.text, hf.orNothing⟩

theorem optionExpr_listed {o : Option Expr} (h : ∀ e, o = some e → e.Listed) :
    ∃ f : Form, f.text = optionExprListing o ∧ f.orNothing f.expr? = some (optionExprBare o) := by
  cases o with
  | none => exact ⟨.node [], rfl, rfl⟩
  | some e =>
    obtain ⟨f, hf⟩ := h e rfl
    exact ⟨f, hf.text, hf.orNothing⟩

/-! ## 4. Expressions -/

/-- **What a head makes of listed parts is listed.** -/
theorem Expr.Listed.of_parts (head : String) (es : List Expr) {e : Expr} (hhead : IsWord head)
    (hfun : head ≠ "fun") (hes : ∀ x ∈ es, x.Listed) (htext : e.listing = form (head :: listings es))
    (hexpr : compose? head (exprsBare es) = some e.bare) : e.Listed := by
  obtain ⟨fs, htexts, hreads⟩ := exprs_listed hes
  refine ⟨headed head hhead fs, nofun, ?_, ?_⟩
  · rw [htext, headed, Form.text, textsOf, htexts]
    rfl
  · rw [expr?_headed _ _ hfun, hreads]
    exact hexpr

/-- The heads that are read in a way of their own. -/
def heads : List String := ["fun", "call", "group", "super", ".", "=", "or", "and"]

/-- An operator that is read as one: its word is spelled as its kind always is, and is none of the heads
    that mean something else. -/
structure Operator (op : Token) : Prop where
  spelled : (op.kind, op.lexeme) ∈ spellings
  isWord : IsWord op.lexeme
  no_head : op.lexeme ∉ heads

/-- The operators are `!` and those that join two operands to a value. -/
theorem Token.Worded.operator {op : Token} (h : Worded op)
    (hk : op.kind = .bang ∨ joinsOperands op.kind = true) : Operator op := by
  obtain ⟨word, hs⟩ : ∃ word, (op.kind, word) ∈ spellings := by
    rcases hk with hk | hk
    · exact ⟨"!", by rw [hk]; decide⟩
    · unfold joinsOperands at hk
      split at hk
      case h_12 => cases hk
      all_goals
        next hkind =>
          rw [hkind]
          simp [spellings, Token.signSpellings]
  have hword := h.spelling word hs
  have hall : ∀ s ∈ spellings, s.1 = .bang ∨ joinsOperands s.1 = true → IsWord s.2 ∧ s.2 ∉ heads := by
    decide
  rw [← hword] at hs
  exact ⟨hs, (hall _ hs hk).1, (hall _ hs hk).2⟩

namespace Operator

variable {op : Token}

theorem operator? (h : Operator op) : Lox.operator? op.lexeme = some op.bare :=
  operator?_spelled h.spelled

theorem ne (h : Operator op) (head : String) (hh : head ∈ heads) : op.lexeme ≠ head := fun he =>
  h.no_head (he ▸ hh)

theorem alone (h : Operator op) (e : Expr) : compose? op.lexeme [e] = some (.unary op.bare e) := by
  have hcompose : compose? op.lexeme [e] = alone? op.lexeme e := by
    simp [compose?, h.ne "call" (by decide)]
  rw [hcompose]
  unfold alone?
  split
  case h_1 heq => exact absurd heq (h.ne _ (by decide))
  case h_2 heq => exact absurd heq (h.ne _ (by decide))
  case h_3 =>
    rw [h.operator?]
    rfl

theorem joined (h : Operator op) (l r : Expr) :
    compose? op.lexeme [l, r] = some (.binary l op.bare r) := by
  have hcompose : compose? op.lexeme [l, r] = joined? op.lexeme l r := by
    simp [compose?, h.ne "call" (by decide)]
  rw [hcompose]
  unfold joined?
  split
  case h_6 =>
    rw [h.operator?]
    rfl
  all_goals next heq => exact absurd heq (h.ne _ (by decide))

end Operator

section Forms

variable {l r e o c y n v : Expr} {op name : Token}

theorem listed_word {word : String} {l : Literal} (hw : IsWord word) (htext : word = l.listing)
    (he : leafOf word = .literal l) : (Expr.literal l).Listed :=
  ⟨.leaf ⟨word, hw⟩, nofun, htext, congrArg some he⟩

theorem listed_nil : (Expr.literal .nil).Listed := listed_word (by decide : IsWord "nil") rfl rfl

theorem listed_bool (b : Bool) : (Expr.literal (.bool b)).Listed := by
  cases b with
  | true => exact listed_word (by decide : IsWord "true") rfl rfl
  | false => exact listed_word (by decide : IsWord "false") rfl rfl

theorem listed_literal {t : Token} {l : Literal} (ht : Worded t)
    (h : Syntax.literalOf? t.kind = some l) (hl : l.Legible) : (Expr.literal l).Listed := by
  cases l with
  | number x =>
    have hk : t.kind = .number x := by
      unfold Syntax.literalOf? at h
      split at h <;> simp_all
    have hx : IsFinite x := by
      cases hparts : Decimal.parts x with
      | nan => exact absurd hparts (ht.number x hk)
      | infinite negative => exact absurd hparts (hl negative)
      | finite negative m q => exact ⟨negative, m, q, hparts⟩
    exact listed_word (listedNumber_isWord hx) rfl (leafOf_listedNumber hx)
  | text s => exact hl.elim
  | bool b => exact listed_bool b
  | nil => exact listed_nil

theorem listed_this {t : Token} (ht : Worded t) (hk : t.kind = .kwThis) (id : RefId) :
    (Expr.this ⟨id, t⟩).Listed := by
  have hthis : IsWord "this" := by decide
  refine ⟨.leaf ⟨"this", hthis⟩, nofun, rfl, ?_⟩
  show some (leafOf "this") = some (.this ⟨⟨0⟩, t.bare⟩)
  rw [ht.bare hk (by decide : (_, "this") ∈ spellings)]
  rfl

theorem listed_super {t : Token} (ht : Worded t) (hk : t.kind = .kwSuper) (id : RefId)
    (hn : name.Named) : (Expr.super ⟨id, t⟩ name).Listed := by
  refine .of_parts "super" [.read ⟨⟨0⟩, name⟩] (by decide) (by decide) ?_ rfl ?_
  · simpa using hn.listed ⟨0⟩
  · show _ = some (Expr.super ⟨⟨0⟩, t.bare⟩ name.bare)
    rw [ht.bare hk (by decide : (_, "super") ∈ spellings)]
    rfl

theorem listed_lambda {code : Code} (h : code.Listed) : (Expr.lambda code).Listed := by
  obtain ⟨fs, htexts, hreads⟩ := h
  have hfun : IsWord "fun" := by decide
  refine ⟨headed "fun" hfun fs, nofun, ?_, ?_⟩
  · show _ = form ("fun" :: code.listing)
    rw [← htexts]
    rfl
  · rw [expr?_fun, hreads]
    rfl

theorem listed_group (he : e.Listed) : (Expr.group e).Listed :=
  .of_parts "group" [e] (by decide) (by decide) (by simpa using he) rfl rfl

theorem listed_unary (hop : Worded op) (hk : op.kind = .bang ∨ op.kind = .minus) (he : e.Listed) :
    (Expr.unary op e).Listed := by
  have hoperator : Operator op := hop.operator (hk.imp_right fun h => by rw [h]; rfl)
  refine .of_parts op.lexeme [e] hoperator.isWord (hoperator.ne _ (by decide)) (by simpa using he) rfl ?_
  exact hoperator.alone e.bare

theorem listed_binary (hop : Worded op) (hk : joinsOperands op.kind = true) (hl : l.Listed)
    (hr : r.Listed) : (Expr.binary l op r).Listed := by
  have hoperator : Operator op := hop.operator (.inr hk)
  refine .of_parts op.lexeme [l, r] hoperator.isWord (hoperator.ne _ (by decide)) (by simp [hl, hr])
    rfl ?_
  exact hoperator.joined l.bare r.bare

theorem listed_logical (hop : Worded op) (hk : op.kind = .kwOr ∨ op.kind = .kwAnd) (hl : l.Listed)
    (hr : r.Listed) : (Expr.logical l op r).Listed := by
  have hes : ∀ x ∈ [l, r], x.Listed := by simp [hl, hr]
  rcases hk with hk | hk
  · have hs : (Token.Kind.kwOr, "or") ∈ spellings := by decide
    refine .of_parts "or" [l, r] (by decide) (by decide) hes ?_ ?_
    · show form [op.lexeme, l.listing, r.listing] = _
      rw [hop.spelling "or" (hk ▸ hs)]
      rfl
    · show _ = some (Expr.logical l.bare op.bare r.bare)
      rw [hop.bare hk hs]
      rfl
  · have hs : (Token.Kind.kwAnd, "and") ∈ spellings := by decide
    refine .of_parts "and" [l, r] (by decide) (by decide) hes ?_ ?_
    · show form [op.lexeme, l.listing, r.listing] = _
      rw [hop.spelling "and" (hk ▸ hs)]
      rfl
    · show _ = some (Expr.logical l.bare op.bare r.bare)
      rw [hop.bare hk hs]
      rfl

theorem listed_conditional (hc : c.Listed) (hy : y.Listed) (hn : n.Listed) :
    (Expr.conditional c y n).Listed :=
  .of_parts "cond" [c, y, n] (by decide) (by decide) (by simp [hc, hy, hn]) rfl rfl

theorem listed_assign (hn : name.Named) (hv : v.Listed) (id : RefId) :
    (Expr.assign ⟨id, name⟩ v).Listed :=
  .of_parts "=" [.read ⟨id, name⟩, v] (by decide) (by decide)
    (by simp [hn.listed, hv]) rfl rfl

theorem listed_call {q : Token} {args : List Expr} (he : e.Listed) (hq : Worded q)
    (hk : q.kind = .rightParen) (hargs : ∀ x ∈ args, x.Listed) : (Expr.call e q args).Listed := by
  refine .of_parts "call" (e :: args) (by decide) (by decide)
    (List.forall_mem_cons.mpr ⟨he, hargs⟩) rfl ?_
  show _ = some (Expr.call e.bare q.bare (exprsBare args))
  rw [hq.bare hk (by decide : (_, ")") ∈ spellings)]
  rfl

theorem listed_get (ho : o.Listed) (hn : name.Named) : (Expr.get o name).Listed :=
  .of_parts "." [o, .read ⟨⟨0⟩, name⟩] (by decide) (by decide)
    (by simp [ho, hn.listed]) rfl rfl

theorem listed_set (ho : o.Listed) (hn : name.Named) (hv : v.Listed) : (Expr.set o name v).Listed :=
  .of_parts "=" [.get o name, v] (by decide) (by decide)
    (by simp [listed_get ho hn, hv]) rfl rfl

end Forms

/-! ## 5. Statements -/

/-- **A form whose head says which statement it is** lists this statement. -/
theorem Stmt.Listed.of_parts (head : String) (parts : List Form) {s : Stmt} (hhead : IsWord head)
    (htext : s.listing = form (head :: textsOf parts))
    (hstmt : (headed head hhead parts).stmt? = some s.bare) : s.Listed :=
  ⟨headed head hhead parts, nofun, htext.symm, hstmt⟩

section Forms

variable {e c : Expr} {s body yes no : Stmt} {name t : Token}

theorem listed_expr (he : e.Listed) : (Stmt.expr e).Listed := by
  obtain ⟨f, hf⟩ := he
  refine .of_parts ";" [f] (by decide) ?_ ?_
  · show form [";", e.listing] = _
    rw [← hf.text]
    rfl
  · rw [stmt?_expr, hf.reads]
    rfl

theorem listed_varDecl (hn : name.Named) (he : e.Listed) : (Stmt.varDecl name e).Listed := by
  obtain ⟨f, hf⟩ := he
  refine .of_parts "var" [hn.leaf, f] (by decide) ?_ ?_
  · show form ["var", name.lexeme, e.listing] = _
    rw [← hf.text]
    rfl
  · rw [stmt?_var, hn.name?, hf.reads]
    rfl

theorem listed_funDecl {d : FunDecl} (h : d.Listed) : (Stmt.funDecl d).Listed := by
  obtain ⟨fs, htexts, -, hstmt⟩ := h.form
  refine .of_parts "fun" fs (by decide) ?_ ?_
  · show d.listing = _
    rw [d.listing_eq, htexts]
  · rw [hstmt]
    rfl

theorem listed_classDecl {superclass : Option Reference} {methods : List FunDecl} (hn : name.Named)
    (hs : ∀ ref, superclass = some ref → ref.token.Named) (hms : ∀ d ∈ methods, d.Listed) :
    (Stmt.classDecl name superclass methods).Listed := by
  obtain ⟨fs, htexts, hreads, hnone⟩ := methods_listed hms
  cases superclass with
  | none =>
    refine .of_parts "class" (hn.leaf :: fs) (by decide) ?_ ?_
    · show form ("class" :: name.lexeme :: ([] ++ methodListings methods)) = _
      rw [← htexts]
      rfl
    · rw [stmt?_class, hn.name?, hreads, hnone]
      rfl
  | some ref =>
    have href := hs ref rfl
    have hless : IsWord "<" := by decide
    have hskip : methods? (.leaf ⟨"<", hless⟩ :: href.leaf :: fs) = some (funDeclsBare methods) := by
      rw [methods?_leaf, Token.Named.leaf, methods?_leaf, hreads]
    refine .of_parts "class" (hn.leaf :: .leaf ⟨"<", hless⟩ :: href.leaf :: fs) (by decide) ?_ ?_
    · show form ("class" :: name.lexeme :: (["<", ref.name] ++ methodListings methods)) = _
      rw [← htexts]
      rfl
    · rw [stmt?_class, hn.name?, hskip, superclass?, href.name?]
      rfl

theorem listed_branch (hc : c.Listed) (hyes : yes.Listed) : (Stmt.branch c yes none).Listed := by
  obtain ⟨f, hf⟩ := hc
  obtain ⟨g, hg⟩ := hyes
  refine .of_parts "if" [f, g] (by decide) ?_ ?_
  · show form ["if", c.listing, yes.listing] = _
    rw [← hf.text, ← hg.text]
    rfl
  · rw [stmt?_if, hf.reads, hg.reads]
    rfl

theorem listed_branchElse (hc : c.Listed) (hyes : yes.Listed) (hno : no.Listed) :
    (Stmt.branch c yes (some no)).Listed := by
  obtain ⟨f, hf⟩ := hc
  obtain ⟨g, hg⟩ := hyes
  obtain ⟨k, hk⟩ := hno
  refine .of_parts "if" [f, g, k] (by decide) ?_ ?_
  · show form ["if", c.listing, yes.listing, no.listing] = _
    rw [← hf.text, ← hg.text, ← hk.text]
    rfl
  · rw [stmt?_ifElse, hf.reads, hg.reads, hk.reads]
    rfl

theorem listed_whileLoop (hc : c.Listed) (hbody : body.Listed) : (Stmt.whileLoop c body).Listed := by
  obtain ⟨f, hf⟩ := hc
  obtain ⟨g, hg⟩ := hbody
  refine .of_parts "while" [f, g] (by decide) ?_ ?_
  · show form ["while", c.listing, body.listing] = _
    rw [← hf.text, ← hg.text]
    rfl
  · rw [stmt?_while, hf.reads, hg.reads]
    rfl

theorem listed_forLoop {init : Option Stmt} {increment : Option Expr}
    (hinit : ∀ s, init = some s → s.Listed) (hc : c.Listed)
    (hincrement : ∀ e, increment = some e → e.Listed) (hbody : body.Listed) :
    (Stmt.forLoop init c increment body).Listed := by
  obtain ⟨f, htext, hreads⟩ := option_listed hinit
  obtain ⟨g, hg⟩ := hc
  obtain ⟨k, htext', hreads'⟩ := optionExpr_listed hincrement
  obtain ⟨l, hl⟩ := hbody
  refine .of_parts "for" [f, g, k, l] (by decide) ?_ ?_
  · show form ["for", optionListing init, c.listing, optionExprListing increment, body.listing] = _
    rw [← htext, ← hg.text, ← htext', ← hl.text]
    rfl
  · rw [stmt?_for, hreads, hg.reads, hreads', hl.reads]
    rfl

theorem listed_block {ss : List Stmt} (h : ∀ s ∈ ss, s.Listed) : (Stmt.block ss).Listed := by
  obtain ⟨fs, htexts, hreads⟩ := stmts_listed h
  refine .of_parts "block" fs (by decide) ?_ ?_
  · rw [htexts]
    rfl
  · rw [stmt?_block, hreads]
    rfl

theorem listed_ret {value : Option Expr} (ht : Worded t) (hk : t.kind = .kwReturn)
    (h : ∀ e, value = some e → e.Listed) : (Stmt.ret t value).Listed := by
  have hbare : t.bare = unplaced .kwReturn "return" := ht.bare hk (by decide)
  cases value with
  | none =>
    refine .of_parts "return" [] (by decide) rfl ?_
    rw [stmt?_return, ← hbare]
    rfl
  | some e =>
    obtain ⟨f, hf⟩ := h e rfl
    refine .of_parts "return" [f] (by decide) ?_ ?_
    · show form ["return", e.listing] = _
      rw [← hf.text]
      rfl
    · rw [stmt?_returnValue, hf.reads, ← hbare]
      rfl

theorem listed_leave (ht : Worded t) (hk : t.kind = .kwBreak) : (Stmt.leave t).Listed := by
  have hbare : t.bare = unplaced .kwBreak "break" := ht.bare hk (by decide)
  refine .of_parts "break" [] (by decide) rfl ?_
  rw [stmt?_break, ← hbare]
  rfl

theorem listed_next (ht : Worded t) (hk : t.kind = .kwContinue) : (Stmt.next t).Listed := by
  have hbare : t.bare = unplaced .kwContinue "continue" := ht.bare hk (by decide)
  refine .of_parts "continue" [] (by decide) rfl ?_
  rw [stmt?_continue, ← hbare]
  rfl

end Forms

end Lox
