import Lox.Proofs.Listing.Trees

/-!
# Listings are unambiguous

* `Syntax.derives_listed`: what the rules derive from words of a source is read from its listing, if it
  is legible.
* `Stmt.Parsed`: a statement of a source that parses without error.
* `listings_are_unambiguous`: **no two such statements are listed alike**, unless they are the same but
  for places and the numbers of references.
-/

namespace Lox

open Token (Worded spellings)

/-! ## 1. What the rules derive -/

namespace Syntax

theorem getD_listed {o : Option Expr} (h : ∀ e, o = some e → e.Listed) :
    (o.getD (.literal (.bool true))).Listed := by
  cases o with
  | none => exact listed_bool true
  | some e => exact h e rfl

/-- A phrase of a symbol is listed, if it is legible. -/
def TreeListed : (s : Symbol) → s.Tree → Prop
  | .primary, e | .call, e | .unary, e | .within _, e | .operand _, e | .conditional, e
  | .assignment, e | .expression, e => Legible (Expr.nodes e) → Expr.Listed e
  | .arguments, es | .argumentList, es => Legible (exprsNodes es) → ∀ e ∈ es, Expr.Listed e
  | .optionalExpression, o => Legible (optionExprNodes o) → ∀ e, o = some e → Expr.Listed e
  | .names, ns | .parameterList, ns => ∀ t ∈ ns, Token.Named t
  | .code, c => Legible (Code.nodes c) → Code.Listed c
  | .function, d => Legible (FunDecl.nodes d) → FunDecl.Listed d
  | .methods, ds => Legible (funDeclsNodes ds) → ∀ d ∈ ds, FunDecl.Listed d
  | .superclass, o => ∀ ref, o = some ref → Token.Named ref.token
  | .variable, s | .expressionStatement, s | .statement _, s | .declaration _, s =>
    Legible (Stmt.nodes s) → Stmt.Listed s
  | .loopStart, o => Legible (optionStmtNodes o) → ∀ s, o = some s → Stmt.Listed s
  | .declarations _, ss => ∀ s ∈ ss, Legible (Stmt.nodes s) → Stmt.Listed s

theorem Level.join_listed {l : Level} {left right : Expr} {op : Token} (hop : l.has op.kind = true)
    (hw : Worded op) (hl : left.Listed) (hr : right.Listed) : (l.join left op right).Listed := by
  unfold Level.has at hop
  split at hop
  case h_1 hk => exact listed_logical hw (.inl hk) hl hr
  case h_2 hk => exact listed_logical hw (.inr hk) hl hr
  case h_13 => cases hop
  all_goals next hk => exact listed_binary hw (by rw [hk]; rfl) hl hr

theorem Level.legible_join {l : Level} {left right : Expr} {op : Token}
    (h : Legible (l.join left op right).nodes) : Legible left.nodes ∧ Legible right.nodes := by
  cases l <;> simpa [Level.join, Expr.nodes, Node.Legible, Node.literal?] using h

theorem Assigned.listed {target value w : Expr} {equals : Token} (h : Assigned target equals value w)
    (ht : target.Listed) (hv : Legible value.nodes → value.Listed) (hw : Legible w.nodes) :
    w.Listed := by
  cases h with
  | plain => exact hv hw
  | joined hk =>
    -- the operator inside is no word of the source, but it is spelled as its kind always is
    have hall : ∀ c ∈ compounds, (c.2.1, c.2.2) ∈ spellings ∧ joinsOperands c.2.1 = true := by decide
    rw [Expr.nodes, legible_cons, legible_append] at hw
    exact listed_binary (Token.worded_of_mem equals.pos (hall _ hk).1) (hall _ hk).2 ht (hv hw.2.2)

/-- **What the rules derive from words of a source** is listed, if it is legible. -/
theorem derives_listed {g : ElseRule} {s : Symbol} {a b : Nat} {ts : List Token} {x : s.Tree}
    (h : Derives g s a ts x b) (hts : ∀ t ∈ ts, Worded t) : TreeListed s x := by
  induction h with
  | literal h =>
    intro hlegible
    exact listed_literal (hts _ List.mem_cons_self) h (hlegible _ List.mem_cons_self _ rfl)
  | this h => exact fun _ => listed_this (hts _ List.mem_cons_self) h _
  | super ht hd hm =>
    simp only [List.forall_mem_cons] at hts
    exact fun _ => listed_super hts.1 ht _ (hts.2.2.1.named hm)
  | name h => exact fun _ => ((hts _ List.mem_cons_self).named h).listed _
  | lambda _ _ ih =>
    intro hlegible
    rw [Expr.nodes, legible_cons] at hlegible
    exact listed_lambda (ih (fun t ht => hts t (List.mem_cons_of_mem _ ht)) hlegible.2)
  | group _ _ _ ih =>
    intro hlegible
    rw [List.forall_mem_cons, List.forall_mem_append] at hts
    rw [Expr.nodes, legible_cons] at hlegible
    exact listed_group (ih hts.2.1 hlegible.2)
  | callee _ ih | unsigned _ ih | tightest _ ih | tighter _ ih | single _ ih | noChoice _ ih
  | noAssignment _ ih | oneAssignment _ ih | someArguments _ _ ih | someParameters _ _ ih
  | simple _ ih | statement _ ih =>
    exact ih hts
  | apply _ _ _ hq ihe ihargs =>
    intro hlegible
    simp only [List.forall_mem_cons, List.forall_mem_append] at hts
    rw [Expr.nodes, legible_cons, legible_append] at hlegible
    exact listed_call (ihe hts.1 hlegible.2.1) hts.2.2.2.1 hq (ihargs hts.2.2.1 hlegible.2.2)
  | property _ _ hn ih =>
    intro hlegible
    simp only [List.forall_mem_cons, List.forall_mem_append] at hts
    rw [Expr.nodes, legible_cons] at hlegible
    exact listed_get (ih hts.1 hlegible.2) (hts.2.2.1.named hn)
  | lastArgument _ ih =>
    intro hlegible
    rw [exprsNodes, legible_append] at hlegible
    simpa using ih hts hlegible.1
  | moreArguments _ _ _ ihe ihes =>
    intro hlegible
    rw [List.forall_mem_append, List.forall_mem_cons] at hts
    rw [exprsNodes, legible_append] at hlegible
    exact List.forall_mem_cons.mpr ⟨ihe hts.1 hlegible.1, ihes hts.2.2 hlegible.2⟩
  | noArguments | noMethods => exact fun _ _ h => nomatch h
  | noExpression | noStart => exact fun _ _ h => nomatch h
  | sign hop _ ih =>
    intro hlegible
    rw [List.forall_mem_cons] at hts
    rw [Expr.nodes, legible_cons] at hlegible
    exact listed_unary hts.1 hop (ih hts.2 hlegible.2)
  | join _ hop _ ihl ihr =>
    intro hlegible
    rw [List.forall_mem_append, List.forall_mem_cons] at hts
    obtain ⟨hleft, hright⟩ := Level.legible_join hlegible
    exact Level.join_listed hop hts.2.1 (ihl hts.1 hleft) (ihr hts.2.2 hright)
  | choice _ _ _ _ _ ihe ihyes ihno =>
    intro hlegible
    simp only [List.forall_mem_cons, List.forall_mem_append] at hts
    rw [Expr.nodes, legible_cons, legible_append, legible_append] at hlegible
    exact listed_conditional (ihe hts.1 hlegible.2.1.1) (ihyes hts.2.2.1 hlegible.2.1.2)
      (ihno hts.2.2.2.2 hlegible.2.2)
  | assign hn _ hw ih =>
    intro hlegible
    rw [List.forall_mem_cons, List.forall_mem_cons] at hts
    rw [Expr.nodes, legible_cons] at hlegible
    have hname := hts.1.named hn
    exact listed_assign hname (hw.listed (hname.listed _) (ih hts.2.2) hlegible.2) _
  | set _ _ hn _ hw ihe ihv =>
    intro hlegible
    simp only [List.forall_mem_cons, List.forall_mem_append] at hts
    rw [Expr.nodes, legible_cons, legible_append] at hlegible
    have hname := hts.2.2.1.named hn
    have he := ihe hts.1 hlegible.2.1
    exact listed_set he hname (hw.listed (listed_get he hname) (ihv hts.2.2.2.2) hlegible.2.2)
  | comma _ hop _ ihl ihr =>
    intro hlegible
    rw [List.forall_mem_append, List.forall_mem_cons] at hts
    rw [Expr.nodes, legible_cons, legible_append] at hlegible
    exact listed_binary hts.2.1 (by rw [hop]; rfl) (ihl hts.1 hlegible.2.1) (ihr hts.2.2 hlegible.2.2)
  | someExpression _ ih =>
    rintro hlegible e he
    cases he
    exact ih hts hlegible
  | lastName hn =>
    intro t ht
    obtain rfl := List.mem_singleton.mp ht
    exact (hts _ ht).named hn
  | moreNames hn _ _ ih =>
    rw [List.forall_mem_cons, List.forall_mem_cons] at hts
    exact List.forall_mem_cons.mpr ⟨hts.1.named hn, ih hts.2.2⟩
  | noParameters => exact fun t ht => absurd ht List.not_mem_nil
  | code _ _ _ _ _ _ ihns ihbody =>
    intro hlegible
    simp only [List.forall_mem_cons, List.forall_mem_append] at hts
    exact code_listed (ihns hts.2.1) fun s hs =>
      ihbody hts.2.2.2.2.1 s hs (legible_of_mem hlegible hs)
  | function hn _ ih =>
    intro hlegible
    rw [List.forall_mem_cons] at hts
    exact ⟨hts.1.named hn, ih hts.2 hlegible⟩
  | moreMethods _ _ ihf ihfs =>
    intro hlegible
    rw [List.forall_mem_append] at hts
    rw [funDeclsNodes_cons, legible_append] at hlegible
    exact List.forall_mem_cons.mpr ⟨ihf hts.1 hlegible.1, ihfs hts.2 hlegible.2⟩
  | noSuperclass | noDeclarations => exact fun _ h => nomatch h
  | superclass _ hn =>
    intro ref h
    cases h
    exact (hts _ (List.mem_cons_of_mem _ List.mem_cons_self)).named hn
  | expressionStatement _ _ ih =>
    intro hlegible
    rw [List.forall_mem_append] at hts
    rw [Stmt.nodes, legible_cons] at hlegible
    exact listed_expr (ih hts.1 hlegible.2)
  | bareVariable hn =>
    -- a variable without a value is one with `nil`
    exact fun _ => listed_varDecl ((hts _ List.mem_cons_self).named hn) listed_nil
  | initializedVariable hn _ _ _ ih =>
    intro hlegible
    simp only [List.forall_mem_cons, List.forall_mem_append] at hts
    rw [Stmt.nodes, legible_cons] at hlegible
    exact listed_varDecl (hts.1.named hn) (ih hts.2.2.1 hlegible.2)
  | variableStart _ _ ih =>
    rintro hlegible s hs
    cases hs
    exact ih (fun t ht => hts t (List.mem_cons_of_mem _ ht)) hlegible
  | expressionStart _ ih =>
    rintro hlegible s hs
    cases hs
    exact ih hts hlegible
  | forLoop _ _ _ _ _ _ _ _ ihinit ihcond ihinc ihbody =>
    intro hlegible
    simp only [List.forall_mem_cons, List.forall_mem_append] at hts
    rw [Stmt.nodes, legible_cons, legible_append, legible_append, legible_append] at hlegible
    obtain ⟨-, ⟨⟨hinit, hcond⟩, hinc⟩, hbody⟩ := hlegible
    -- a loop without a condition is one with `true`
    exact listed_forLoop (ihinit hts.2.2.1 hinit)
      (getD_listed (ihcond hts.2.2.2.1 (legible_getD hcond))) (ihinc hts.2.2.2.2.2.1 hinc)
      (ihbody hts.2.2.2.2.2.2.2 hbody)
  | whileLoop _ _ _ _ _ ihcond ihbody =>
    intro hlegible
    simp only [List.forall_mem_cons, List.forall_mem_append] at hts
    rw [Stmt.nodes, legible_cons, legible_append] at hlegible
    exact listed_whileLoop (ihcond hts.2.2.1 hlegible.2.1) (ihbody hts.2.2.2.2 hlegible.2.2)
  | branch _ _ _ _ _ ihcond ihyes =>
    intro hlegible
    simp only [List.forall_mem_cons, List.forall_mem_append] at hts
    rw [Stmt.nodes, legible_cons, legible_append, legible_append] at hlegible
    exact listed_branch (ihcond hts.2.2.1 hlegible.2.1.1) (ihyes hts.2.2.2.2 hlegible.2.1.2)
  | branchElse _ _ _ _ _ _ _ _ ihcond ihyes ihno =>
    intro hlegible
    simp only [List.forall_mem_cons, List.forall_mem_append] at hts
    rw [Stmt.nodes, legible_cons, legible_append, legible_append] at hlegible
    exact listed_branchElse (ihcond hts.2.2.1 hlegible.2.1.1) (ihyes hts.2.2.2.2.1 hlegible.2.1.2)
      (ihno hts.2.2.2.2.2.2 hlegible.2.2)
  | block _ _ _ ih =>
    intro hlegible
    rw [List.forall_mem_cons, List.forall_mem_append] at hts
    rw [Stmt.nodes, legible_cons] at hlegible
    exact listed_block fun s hs => ih hts.2.1 s hs (legible_of_mem hlegible.2 hs)
  | ret ht _ _ ih =>
    intro hlegible
    rw [List.forall_mem_cons, List.forall_mem_append] at hts
    rw [Stmt.nodes, legible_cons] at hlegible
    exact listed_ret hts.1 ht (ih hts.2.1 hlegible.2)
  | leave ht => exact fun _ => listed_leave (hts _ List.mem_cons_self) ht
  | next ht => exact fun _ => listed_next (hts _ List.mem_cons_self) ht
  | classDecl _ hn _ _ _ _ ihsup ihms =>
    intro hlegible
    simp only [List.forall_mem_cons, List.forall_mem_append] at hts
    rw [Stmt.nodes, legible_cons, legible_append] at hlegible
    exact listed_classDecl (hts.2.1.named hn) (ihsup hts.2.2.1) (ihms hts.2.2.2.2.1 hlegible.2.2)
  | funDecl _ _ ih =>
    intro hlegible
    rw [List.forall_mem_cons] at hts
    rw [nodes_funDecl, legible_cons] at hlegible
    exact listed_funDecl (ih hts.2 hlegible.2)
  | varDecl _ _ ih => exact ih fun t ht => hts t (List.mem_cons_of_mem _ ht)
  | moreDeclarations _ _ ihs ihss =>
    rw [List.forall_mem_append] at hts
    exact List.forall_mem_cons.mpr ⟨ihs hts.1, ihss hts.2⟩

end Syntax

/-! ## 2. Statements of sources -/

/-- **A statement of a source** that parses without error. Bytes that are no words are left out of what
    is parsed, and references may be numbered from any number on. -/
def Stmt.Parsed (s : Stmt) : Prop :=
  ∃ source nextId, (Syntax.parse (Token.tokensOf (Token.scan source)) nextId).errors = [] ∧
    s ∈ (Syntax.parse (Token.tokensOf (Token.scan source)) nextId).statements

/-- A legible statement of a source is read from its listing. -/
theorem Stmt.Parsed.listed {s : Stmt} (h : s.Parsed) (hl : Legible s.nodes) : s.Listed := by
  obtain ⟨source, nextId, herrors, hs⟩ := h
  have hlisted := Syntax.derives_listed (Syntax.parse_derives herrors) fun t ht =>
    Token.worded_of_mem_scan ((List.takeWhile_sublist _).subset ht)
  exact hlisted s hs hl

/-- **Listings are unambiguous.** Two statements of sources with the same listing are the same but for
    places and the numbers of references, if no string and no infinite number is in them. -/
theorem listings_are_unambiguous {s s' : Stmt} (h : s.Parsed) (h' : s'.Parsed)
    (hl : Legible s.nodes) (hl' : Legible s'.nodes) (heq : s.listing = s'.listing) :
    s.bare = s'.bare := by
  obtain ⟨f, hf⟩ := h.listed hl
  obtain ⟨f', hf'⟩ := h'.listed hl'
  obtain rfl : f = f' := Form.text_injective (by rw [hf.text, hf'.text, heq])
  exact Option.some.inj (hf.reads.symm.trans hf'.reads)

/-- `x += 1;` and `x = x + 1.0;` are listed alike, so they are the same statement. -/
theorem listings_are_unambiguous_joined :
    let parsed (source : String) :=
      Syntax.parse (Token.tokensOf (Token.scan (Text.Utf8.encode source))) 0
    (parsed "x += 1;").statements.map Stmt.listing = ["(; (= x (+ x 1.0)))"] ∧
      (parsed "x = x + 1.0;").statements.map Stmt.bare
        = (parsed "x += 1;").statements.map Stmt.bare := by
  intro parsed
  have hlisting : (parsed "x += 1;").statements.map Stmt.listing = ["(; (= x (+ x 1.0)))"] := by
    decide +kernel
  have hlisting' : (parsed "x = x + 1.0;").statements.map Stmt.listing = ["(; (= x (+ x 1.0)))"] := by
    decide +kernel
  obtain ⟨s, hs, htext⟩ := List.map_eq_singleton_iff.mp hlisting
  obtain ⟨s', hs', htext'⟩ := List.map_eq_singleton_iff.mp hlisting'
  have hlegible : ∀ s ∈ (parsed "x += 1;").statements, Legible s.nodes := by decide +kernel
  have hlegible' : ∀ s ∈ (parsed "x = x + 1.0;").statements, Legible s.nodes := by decide +kernel
  have hmem : s ∈ (parsed "x += 1;").statements := hs ▸ List.mem_cons_self
  have hmem' : s' ∈ (parsed "x = x + 1.0;").statements := hs' ▸ List.mem_cons_self
  have hparsed : s.Parsed := ⟨Text.Utf8.encode "x += 1;", 0, by decide +kernel, hmem⟩
  have hparsed' : s'.Parsed := ⟨Text.Utf8.encode "x = x + 1.0;", 0, by decide +kernel, hmem'⟩
  have hbare : s'.bare = s.bare := listings_are_unambiguous hparsed' hparsed (hlegible' s' hmem')
    (hlegible s hmem) (htext'.trans htext.symm)
  refine ⟨hlisting, ?_⟩
  rw [hs, hs', List.map_singleton, List.map_singleton, hbare]

/-- A string is listed like a name. -/
example : (Expr.literal (.text "x")).listing = (Expr.read ⟨⟨0⟩, unplaced .identifier "x"⟩).listing := rfl

end Lox
