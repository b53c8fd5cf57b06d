import Lox.Proofs.Grammar.Rules
import Lox.Proofs.Token.Respelling

/-!
# Assignments that compute, written out

`target op= value` is short for `target = target op (value)`. This file says what the words of a text are in
which some assignments are written out so.

* `WrittenOut s ts x ws`: the tokens `ts` are a phrase of the symbol `s` with the tree `x`, as the rules of
  the grammar have it, and `ws` are **the words of that phrase with some of its assignments written out**,
  among them those inside of targets, values and functions. The target stands twice in a written-out
  assignment, and may be written out in one way in the first place and in another way in the second.
* `WrittenOut.stable`: the words of a text that is written out are words of tokens.
* `derives_writtenOut`: **every phrase can be written out entirely**, so that none of its words computes and
  assigns (`Bare`).
-/

namespace Lox.Syntax

/-! ## 1. Phrases -/

/-- The kind of a token and its word. -/
abbrev Word := Token.Kind × String

/-- **The words of `target = target op (value)`.** -/
def assignmentWords (target again : List Word) (op : Word) (value : List Word) : List Word :=
  target ++ (.equal, "=") :: (again ++ op :: (.leftParen, "(") :: (value ++ [(.rightParen, ")")]))

/-- The words that a text gets when it is written out. -/
def addedWords : List Word :=
  (.equal, "=") :: (.leftParen, "(") :: (.rightParen, ")") :: compounds.map Prod.snd

/-- **A phrase with some of its assignments written out.** But for `assignOut` and `setOut`, the rules are
    those of the grammar, and the words are those of the tokens. -/
inductive WrittenOut : (s : Symbol) → List Token → s.Tree → List Word → Prop where
  -- primary
  | literal {t l} (h : literalOf? t.kind = some l) : WrittenOut .primary [t] (.literal l) [t.word]
  | this {i t} (h : t.kind = .kwThis) : WrittenOut .primary [t] (.this ⟨i, t⟩) [t.word]
  | super {i t d m} (ht : t.kind = .kwSuper) (hd : d.kind = .dot) (hm : m.kind = .identifier) :
      WrittenOut .primary [t, d, m] (.super ⟨i, t⟩ m) [t.word, d.word, m.word]
  | name {i t} (h : t.kind = .identifier) : WrittenOut .primary [t] (.read ⟨i, t⟩) [t.word]
  | lambda {t ts c ws} (h : t.kind = .kwFun) (hc : WrittenOut .code ts c ws) :
      WrittenOut .primary (t :: ts) (.lambda c) (t.word :: ws)
  | group {t ts u e ws} (ht : t.kind = .leftParen) (he : WrittenOut .expression ts e ws)
      (hu : u.kind = .rightParen) :
      WrittenOut .primary (t :: (ts ++ [u])) (.group e) (t.word :: (ws ++ [u.word]))
  -- call
  | callee {ts e ws} (h : WrittenOut .primary ts e ws) : WrittenOut .call ts e ws
  | apply {ts e p us args q ws vs} (he : WrittenOut .call ts e ws) (hp : p.kind = .leftParen)
      (hargs : WrittenOut .argumentList us args vs) (hq : q.kind = .rightParen) :
      WrittenOut .call (ts ++ p :: (us ++ [q])) (.call e q args) (ws ++ p.word :: (vs ++ [q.word]))
  | property {ts e d n ws} (he : WrittenOut .call ts e ws) (hd : d.kind = .dot)
      (hn : n.kind = .identifier) :
      WrittenOut .call (ts ++ [d, n]) (.get e n) (ws ++ [d.word, n.word])
  -- arguments
  | lastArgument {ts e ws} (h : WrittenOut .assignment ts e ws) : WrittenOut .arguments ts [e] ws
  | moreArguments {ts e t us es ws vs} (he : WrittenOut .assignment ts e ws) (ht : t.kind = .comma)
      (hes : WrittenOut .arguments us es vs) :
      WrittenOut .arguments (ts ++ t :: us) (e :: es) (ws ++ t.word :: vs)
  | noArguments : WrittenOut .argumentList [] [] []
  | someArguments {ts es ws} (h : WrittenOut .arguments ts es ws) (hlimit : es.length ≤ maxArguments) :
      WrittenOut .argumentList ts es ws
  -- unary
  | sign {op ts e ws} (hop : op.kind = .bang ∨ op.kind = .minus) (he : WrittenOut .unary ts e ws) :
      WrittenOut .unary (op :: ts) (.unary op e) (op.word :: ws)
  | unsigned {ts e ws} (h : WrittenOut .call ts e ws) : WrittenOut .unary ts e ws
  -- the levels of binary operators
  | tightest {ts e ws} (h : WrittenOut .unary ts e ws) : WrittenOut (.within none) ts e ws
  | tighter {l ts e ws} (h : WrittenOut (.operand l) ts e ws) : WrittenOut (.within (some l)) ts e ws
  | single {l ts e ws} (h : WrittenOut (.within (Level.tighter? l)) ts e ws) :
      WrittenOut (.operand l) ts e ws
  | join {l ts left op us right ws vs} (hl : WrittenOut (.operand l) ts left ws)
      (hop : l.has op.kind = true) (hr : WrittenOut (.within l.tighter?) us right vs) :
      WrittenOut (.operand l) (ts ++ op :: us) (l.join left op right) (ws ++ op.word :: vs)
  -- conditional
  | choice {ts e q us yes u vs no ws ws₁ ws₂} (he : WrittenOut (.operand .or) ts e ws)
      (hq : q.kind = .question) (hyes : WrittenOut .expression us yes ws₁) (hu : u.kind = .colon)
      (hno : WrittenOut .conditional vs no ws₂) :
      WrittenOut .conditional (ts ++ q :: (us ++ u :: vs)) (.conditional e yes no)
        (ws ++ q.word :: (ws₁ ++ u.word :: ws₂))
  | noChoice {ts e ws} (h : WrittenOut (.operand .or) ts e ws) : WrittenOut .conditional ts e ws
  -- assignment
  | assign {i j n eq ts v w ws} (hn : n.kind = .identifier) (hv : WrittenOut .assignment ts v ws)
      (hw : Assigned (.read ⟨i, n⟩) eq v w) :
      WrittenOut .assignment (n :: eq :: ts) (.assign ⟨j, n⟩ w) (n.word :: eq.word :: ws)
  | set {ts e d n eq us v w ws vs} (he : WrittenOut .call ts e ws) (hd : d.kind = .dot)
      (hn : n.kind = .identifier) (hv : WrittenOut .assignment us v vs) (hw : Assigned (.get e n) eq v w) :
      WrittenOut .assignment (ts ++ d :: n :: eq :: us) (.set e n w)
        (ws ++ d.word :: n.word :: eq.word :: vs)
  /-- **An assignment to a variable is written out.** -/
  | assignOut {i j n eq k lexeme ts v ws} (hn : n.kind = .identifier)
      (heq : (eq.kind, k, lexeme) ∈ compounds) (hv : WrittenOut .assignment ts v ws) :
      WrittenOut .assignment (n :: eq :: ts)
        (.assign ⟨j, n⟩ (.binary (.read ⟨i, n⟩) ⟨k, lexeme, eq.pos⟩ v))
        (assignmentWords [n.word] [n.word] (k, lexeme) ws)
  /-- **An assignment to a property is written out**, its target twice. -/
  | setOut {ts e d n eq k lexeme us v ws ws' vs} (he : WrittenOut .call ts e ws)
      (he' : WrittenOut .call ts e ws') (hd : d.kind = .dot) (hn : n.kind = .identifier)
      (heq : (eq.kind, k, lexeme) ∈ compounds) (hv : WrittenOut .assignment us v vs) :
      WrittenOut .assignment (ts ++ d :: n :: eq :: us)
        (.set e n (.binary (.get e n) ⟨k, lexeme, eq.pos⟩ v))
        (assignmentWords (ws ++ [d.word, n.word]) (ws' ++ [d.word, n.word]) (k, lexeme) vs)
  | noAssignment {ts e ws} (h : WrittenOut .conditional ts e ws) : WrittenOut .assignment ts e ws
  -- expression
  | oneAssignment {ts e ws} (h : WrittenOut .assignment ts e ws) : WrittenOut .expression ts e ws
  | comma {ts left op us right ws vs} (hl : WrittenOut .expression ts left ws) (hop : op.kind = .comma)
      (hr : WrittenOut .assignment us right vs) :
      WrittenOut .expression (ts ++ op :: us) (.binary left op right) (ws ++ op.word :: vs)
  | noExpression : WrittenOut .optionalExpression [] none []
  | someExpression {ts e ws} (h : WrittenOut .expression ts e ws) :
      WrittenOut .optionalExpression ts (some e) ws
  -- functions
  | lastName {n} (h : n.kind = .identifier) : WrittenOut .names [n] [n] [n.word]
  | moreNames {n t ts ns ws} (hn : n.kind = .identifier) (ht : t.kind = .comma)
      (hns : WrittenOut .names ts ns ws) :
      WrittenOut .names (n :: t :: ts) (n :: ns) (n.word :: t.word :: ws)
  | noParameters : WrittenOut .parameterList [] [] []
  | someParameters {ts ns ws} (h : WrittenOut .names ts ns ws) (hlimit : ns.length ≤ maxArguments) :
      WrittenOut .parameterList ts ns ws
  | code {p ts ns q o us body u ws vs} (hp : p.kind = .leftParen)
      (hns : WrittenOut .parameterList ts ns ws) (hq : q.kind = .rightParen) (ho : o.kind = .leftBrace)
      (hbody : WrittenOut (.declarations 0) us body vs) (hu : u.kind = .rightBrace) :
      WrittenOut .code (p :: (ts ++ q :: o :: (us ++ [u]))) (.mk ns body)
        (p.word :: (ws ++ q.word :: o.word :: (vs ++ [u.word])))
  | function {n ts c ws} (hn : n.kind = .identifier) (hc : WrittenOut .code ts c ws) :
      WrittenOut .function (n :: ts) (.mk n c) (n.word :: ws)
  | noMethods : WrittenOut .methods [] [] []
  | moreMethods {ts f us fs ws vs} (hf : WrittenOut .function ts f ws)
      (hfs : WrittenOut .methods us fs vs) :
      WrittenOut .methods (ts ++ us) (f :: fs) (ws ++ vs)
  | noSuperclass : WrittenOut .superclass [] none []
  | superclass {i t n} (ht : t.kind = .less) (hn : n.kind = .identifier) :
      WrittenOut .superclass [t, n] (some ⟨i, n⟩) [t.word, n.word]
  -- statements
  | expressionStatement {ts e t ws} (he : WrittenOut .expression ts e ws) (ht : t.kind = .semicolon) :
      WrittenOut .expressionStatement (ts ++ [t]) (.expr e) (ws ++ [t.word])
  | bareVariable {n t} (hn : n.kind = .identifier) (ht : t.kind = .semicolon) :
      WrittenOut .variable [n, t] (.varDecl n (.literal .nil)) [n.word, t.word]
  | initializedVariable {n eq ts e t ws} (hn : n.kind = .identifier) (heq : eq.kind = .equal)
      (he : WrittenOut .expression ts e ws) (ht : t.kind = .semicolon) :
      WrittenOut .variable (n :: eq :: (ts ++ [t])) (.varDecl n e)
        (n.word :: eq.word :: (ws ++ [t.word]))
  | noStart {t} (h : t.kind = .semicolon) : WrittenOut .loopStart [t] none [t.word]
  | variableStart {t ts s ws} (ht : t.kind = .kwVar) (hs : WrittenOut .variable ts s ws) :
      WrittenOut .loopStart (t :: ts) (some s) (t.word :: ws)
  | expressionStart {ts s ws} (hs : WrittenOut .expressionStatement ts s ws) :
      WrittenOut .loopStart ts (some s) ws
  | simple {loops ts s ws} (h : WrittenOut .expressionStatement ts s ws) :
      WrittenOut (.statement loops) ts s ws
  | forLoop {loops t p is init cs cond u us inc q ss body ws ws₁ ws₂ ws₃} (ht : t.kind = .kwFor)
      (hp : p.kind = .leftParen) (hinit : WrittenOut .loopStart is init ws)
      (hcond : WrittenOut .optionalExpression cs cond ws₁) (hu : u.kind = .semicolon)
      (hinc : WrittenOut .optionalExpression us inc ws₂) (hq : q.kind = .rightParen)
      (hbody : WrittenOut (.statement (loops + 1)) ss body ws₃) :
      WrittenOut (.statement loops) (t :: p :: (is ++ (cs ++ u :: (us ++ q :: ss))))
        (.forLoop init (cond.getD (.literal (.bool true))) inc body)
        (t.word :: p.word :: (ws ++ (ws₁ ++ u.word :: (ws₂ ++ q.word :: ws₃))))
  | whileLoop {loops t p ts cond q ss body ws vs} (ht : t.kind = .kwWhile) (hp : p.kind = .leftParen)
      (hcond : WrittenOut .expression ts cond ws) (hq : q.kind = .rightParen)
      (hbody : WrittenOut (.statement (loops + 1)) ss body vs) :
      WrittenOut (.statement loops) (t :: p :: (ts ++ q :: ss)) (.whileLoop cond body)
        (t.word :: p.word :: (ws ++ q.word :: vs))
  | branch {loops t p ts cond q ss yes ws vs} (ht : t.kind = .kwIf) (hp : p.kind = .leftParen)
      (hcond : WrittenOut .expression ts cond ws) (hq : q.kind = .rightParen)
      (hyes : WrittenOut (.statement loops) ss yes vs) :
      WrittenOut (.statement loops) (t :: p :: (ts ++ q :: ss)) (.branch cond yes none)
        (t.word :: p.word :: (ws ++ q.word :: vs))
  | branchElse {loops t p ts cond q ss yes u us no ws ws₁ ws₂} (ht : t.kind = .kwIf)
      (hp : p.kind = .leftParen) (hcond : WrittenOut .expression ts cond ws) (hq : q.kind = .rightParen)
      (hyes : WrittenOut (.statement loops) ss yes ws₁) (hu : u.kind = .kwElse)
      (hno : WrittenOut (.statement loops) us no ws₂) (hopen : ¬ EndsOpen yes) :
      WrittenOut (.statement loops) (t :: p :: (ts ++ q :: (ss ++ u :: us)))
        (.branch cond yes (some no)) (t.word :: p.word :: (ws ++ q.word :: (ws₁ ++ u.word :: ws₂)))
  | block {loops t ts body u ws} (ht : t.kind = .leftBrace)
      (hbody : WrittenOut (.declarations loops) ts body ws) (hu : u.kind = .rightBrace) :
      WrittenOut (.statement loops) (t :: (ts ++ [u])) (.block body) (t.word :: (ws ++ [u.word]))
  | ret {loops t ts value u ws} (ht : t.kind = .kwReturn)
      (hvalue : WrittenOut .optionalExpression ts value ws) (hu : u.kind = .semicolon) :
      WrittenOut (.statement loops) (t :: (ts ++ [u])) (.ret t value) (t.word :: (ws ++ [u.word]))
  | leave {loops t u} (ht : t.kind = .kwBreak) (hu : u.kind = .semicolon) (hloops : 0 < loops) :
      WrittenOut (.statement loops) [t, u] (.leave t) [t.word, u.word]
  | next {loops t u} (ht : t.kind = .kwContinue) (hu : u.kind = .semicolon) (hloops : 0 < loops) :
      WrittenOut (.statement loops) [t, u] (.next t) [t.word, u.word]
  -- declarations
  | classDecl {loops t n ss sup o ms methods u ws vs} (ht : t.kind = .kwClass)
      (hn : n.kind = .identifier) (hsup : WrittenOut .superclass ss sup ws) (ho : o.kind = .leftBrace)
      (hms : WrittenOut .methods ms methods vs) (hu : u.kind = .rightBrace) :
      WrittenOut (.declaration loops) (t :: n :: (ss ++ o :: (ms ++ [u]))) (.classDecl n sup methods)
        (t.word :: n.word :: (ws ++ o.word :: (vs ++ [u.word])))
  | funDecl {loops t ts f ws} (ht : t.kind = .kwFun) (hf : WrittenOut .function ts f ws) :
      WrittenOut (.declaration loops) (t :: ts) (.funDecl f) (t.word :: ws)
  | varDecl {loops t ts s ws} (ht : t.kind = .kwVar) (hs : WrittenOut .variable ts s ws) :
      WrittenOut (.declaration loops) (t :: ts) s (t.word :: ws)
  | statement {loops ts s ws} (h : WrittenOut (.statement loops) ts s ws) :
      WrittenOut (.declaration loops) ts s ws
  | noDeclarations {loops} : WrittenOut (.declarations loops) [] [] []
  | moreDeclarations {loops ts s us ss ws vs} (hs : WrittenOut (.declaration loops) ts s ws)
      (hss : WrittenOut (.declarations loops) us ss vs) :
      WrittenOut (.declarations loops) (ts ++ us) (s :: ss) (ws ++ vs)

/-- A call is an assignment. -/
theorem WrittenOut.of_call {ts : List Token} {e : Expr} {ws : List Word} (h : WrittenOut .call ts e ws) :
    WrittenOut .assignment ts e ws := by
  have hfactor : WrittenOut (.operand .factor) ts e ws := .single (.tightest (.unsigned h))
  have hcomparison : WrittenOut (.operand .comparison) ts e ws :=
    .single (.tighter (.single (.tighter hfactor)))
  have hand : WrittenOut (.operand .and) ts e ws := .single (.tighter (.single (.tighter hcomparison)))
  exact .noAssignment (.noChoice (.single (.tighter hand)))

/-! ## 2. Words -/

/-- Words are those of the short text, or added. -/
theorem WrittenOut.words {s : Symbol} {ts : List Token} {x : s.Tree} {ws : List Word}
    (h : WrittenOut s ts x ws) : ∀ w ∈ ws, w ∈ ts.map Token.word ∨ w ∈ addedWords := by
  induction h with
  | assignOut _ heq _ ih =>
    have hop := List.mem_map_of_mem (f := Prod.snd) heq
    simp only [assignmentWords, addedWords] at *
    grind
  | setOut _ _ _ _ heq _ ih ih' ihv =>
    have hop := List.mem_map_of_mem (f := Prod.snd) heq
    simp only [assignmentWords, addedWords] at *
    grind
  | _ => grind

/-- **The words of a text that is written out are words of tokens.** -/
theorem WrittenOut.stable {s : Symbol} {ts : List Token} {x : s.Tree} {ws : List Word}
    (h : WrittenOut s ts x ws) (hts : ∀ t ∈ ts, Token.Stable t.kind t.lexeme) :
    ∀ w ∈ ws, Token.Stable w.1 w.2 := by
  -- the words that are added are a text of their own
  have hadded : addedWords = (Token.tokensIn (Text.Utf8.encode "= ( ) + - * /")).map Token.word := by
    decide +kernel
  intro w hw
  rcases h.words w hw with hold | hnew
  · obtain ⟨t, ht, rfl⟩ := List.mem_map.mp hold
    exact hts t ht
  · rw [hadded] at hnew
    obtain ⟨t, ht, rfl⟩ := List.mem_map.mp hnew
    exact Token.stable_of_mem_tokensIn ht

/-! ## 3. Phrases that are written out entirely -/

/-- No word computes and assigns. -/
def Bare (ws : List Word) : Prop := ∀ w ∈ ws, assigns w.1 = true → w.1 = .equal

@[simp] theorem bare_nil : Bare [] := nofun

@[simp] theorem bare_append {ws vs : List Word} : Bare (ws ++ vs) ↔ Bare ws ∧ Bare vs :=
  List.forall_mem_append

@[simp] theorem bare_cons {k : Token.Kind} {lexeme : String} {ws : List Word} :
    Bare ((k, lexeme) :: ws) ↔ (assigns k = true → k = .equal) ∧ Bare ws := List.forall_mem_cons

@[simp] theorem bare_word_cons {t : Token} {ws : List Word} :
    Bare (t.word :: ws) ↔ (assigns t.kind = true → t.kind = .equal) ∧ Bare ws := List.forall_mem_cons

/-- An operator that joins assigns nothing. -/
theorem not_assigns_of_has {l : Level} {k : Token.Kind} (h : l.has k = true) :
    assigns k = true → k = .equal := by
  intro hk
  unfold assigns at hk
  split at hk <;> cases l <;> simp_all [Level.has]

/-- Nor does the operator inside of one that computes and assigns. -/
theorem bare_of_compounds {kind k : Token.Kind} {lexeme : String} (h : (kind, k, lexeme) ∈ compounds) :
    assigns k = true → k = .equal := by
  simp only [compounds, List.mem_cons, Prod.mk.injEq, List.not_mem_nil, or_false] at h
  rcases h with ⟨-, hk, -⟩ | ⟨-, hk, -⟩ | ⟨-, hk, -⟩ | ⟨-, hk, -⟩ <;> rw [hk] <;> decide

/-- **Every phrase can be written out entirely**, so that no word in it computes and assigns. -/
theorem derives_writtenOut {s : Symbol} {a b : Nat} {ts : List Token} {x : s.Tree}
    (h : Derives .nearest s a ts x b) : ∃ ws, WrittenOut s ts x ws ∧ Bare ws := by
  induction h with
  | literal h =>
    refine ⟨_, .literal h, bare_word_cons.mpr ⟨fun hk => ?_, bare_nil⟩⟩
    unfold literalOf? at h
    unfold assigns at hk
    split at hk <;> simp_all
  | this h =>
    exact ⟨_, .this h, by simp [*, assigns]⟩
  | super ht hd hm =>
    exact ⟨_, .super ht hd hm, by simp [*, assigns]⟩
  | name h =>
    exact ⟨_, .name h, by simp [*, assigns]⟩
  | lambda h _ ih =>
    obtain ⟨ws, hws, hbare⟩ := ih
    exact ⟨_, .lambda h hws, by simp [*, assigns]⟩
  | group ht _ hu ih =>
    obtain ⟨ws, hws, hbare⟩ := ih
    exact ⟨_, .group ht hws hu, by simp [*, assigns]⟩
  | callee _ ih =>
    obtain ⟨ws, hws, hbare⟩ := ih
    exact ⟨_, .callee hws, hbare⟩
  | apply _ hp _ hq ih ih₁ =>
    obtain ⟨ws, hws, hbare⟩ := ih
    obtain ⟨ws₁, hws₁, hbare₁⟩ := ih₁
    exact ⟨_, .apply hws hp hws₁ hq, by simp [*, assigns]⟩
  | property _ hd hn ih =>
    obtain ⟨ws, hws, hbare⟩ := ih
    exact ⟨_, .property hws hd hn, by simp [*, assigns]⟩
  | lastArgument _ ih =>
    obtain ⟨ws, hws, hbare⟩ := ih
    exact ⟨_, .lastArgument hws, hbare⟩
  | moreArguments _ ht _ ih ih₁ =>
    obtain ⟨ws, hws, hbare⟩ := ih
    obtain ⟨ws₁, hws₁, hbare₁⟩ := ih₁
    exact ⟨_, .moreArguments hws ht hws₁, by simp [*, assigns]⟩
  | noArguments =>
    exact ⟨_, .noArguments, bare_nil⟩
  | someArguments _ hlimit ih =>
    obtain ⟨ws, hws, hbare⟩ := ih
    exact ⟨_, .someArguments hws hlimit, hbare⟩
  | sign hop _ ih =>
    obtain ⟨ws, hws, hbare⟩ := ih
    exact ⟨_, .sign hop hws, by rcases hop with hop | hop <;> simp [*, assigns]⟩
  | unsigned _ ih =>
    obtain ⟨ws, hws, hbare⟩ := ih
    exact ⟨_, .unsigned hws, hbare⟩
  | tightest _ ih =>
    obtain ⟨ws, hws, hbare⟩ := ih
    exact ⟨_, .tightest hws, hbare⟩
  | tighter _ ih =>
    obtain ⟨ws, hws, hbare⟩ := ih
    exact ⟨_, .tighter hws, hbare⟩
  | single _ ih =>
    obtain ⟨ws, hws, hbare⟩ := ih
    exact ⟨_, .single hws, hbare⟩
  | @join _ _ _ l _ _ _ _ _ _ hop _ ih ih₁ =>
    have hnone := not_assigns_of_has hop
    obtain ⟨ws, hws, hbare⟩ := ih
    obtain ⟨ws₁, hws₁, hbare₁⟩ := ih₁
    exact ⟨_, .join hws hop hws₁, bare_append.mpr ⟨hbare, bare_word_cons.mpr ⟨hnone, hbare₁⟩⟩⟩
  | choice _ hq _ hu _ ih ih₁ ih₂ =>
    obtain ⟨ws, hws, hbare⟩ := ih
    obtain ⟨ws₁, hws₁, hbare₁⟩ := ih₁
    obtain ⟨ws₂, hws₂, hbare₂⟩ := ih₂
    exact ⟨_, .choice hws hq hws₁ hu hws₂, by simp [*, assigns]⟩
  | noChoice _ ih =>
    obtain ⟨ws, hws, hbare⟩ := ih
    exact ⟨_, .noChoice hws, hbare⟩
  | noAssignment _ ih =>
    obtain ⟨ws, hws, hbare⟩ := ih
    exact ⟨_, .noAssignment hws, hbare⟩
  | oneAssignment _ ih =>
    obtain ⟨ws, hws, hbare⟩ := ih
    exact ⟨_, .oneAssignment hws, hbare⟩
  | comma _ hop _ ih ih₁ =>
    obtain ⟨ws, hws, hbare⟩ := ih
    obtain ⟨ws₁, hws₁, hbare₁⟩ := ih₁
    exact ⟨_, .comma hws hop hws₁, by simp [*, assigns]⟩
  | noExpression =>
    exact ⟨_, .noExpression, bare_nil⟩
  | someExpression _ ih =>
    obtain ⟨ws, hws, hbare⟩ := ih
    exact ⟨_, .someExpression hws, hbare⟩
  | lastName h =>
    exact ⟨_, .lastName h, by simp [*, assigns]⟩
  | moreNames hn ht _ ih =>
    obtain ⟨ws, hws, hbare⟩ := ih
    exact ⟨_, .moreNames hn ht hws, by simp [*, assigns]⟩
  | noParameters =>
    exact ⟨_, .noParameters, bare_nil⟩
  | someParameters _ hlimit ih =>
    obtain ⟨ws, hws, hbare⟩ := ih
    exact ⟨_, .someParameters hws hlimit, hbare⟩
  | code hp _ hq ho _ hu ih ih₁ =>
    obtain ⟨ws, hws, hbare⟩ := ih
    obtain ⟨ws₁, hws₁, hbare₁⟩ := ih₁
    exact ⟨_, .code hp hws hq ho hws₁ hu, by simp [*, assigns]⟩
  | function hn _ ih =>
    obtain ⟨ws, hws, hbare⟩ := ih
    exact ⟨_, .function hn hws, by simp [*, assigns]⟩
  | noMethods =>
    exact ⟨_, .noMethods, bare_nil⟩
  | moreMethods _ _ ih ih₁ =>
    obtain ⟨ws, hws, hbare⟩ := ih
    obtain ⟨ws₁, hws₁, hbare₁⟩ := ih₁
    exact ⟨_, .moreMethods hws hws₁, bare_append.mpr ⟨hbare, hbare₁⟩⟩
  | noSuperclass =>
    exact ⟨_, .noSuperclass, bare_nil⟩
  | superclass ht hn =>
    exact ⟨_, .superclass ht hn, by simp [*, assigns]⟩
  | expressionStatement _ ht ih =>
    obtain ⟨ws, hws, hbare⟩ := ih
    exact ⟨_, .expressionStatement hws ht, by simp [*, assigns]⟩
  | bareVariable hn ht =>
    exact ⟨_, .bareVariable hn ht, by simp [*, assigns]⟩
  | initializedVariable hn heq _ ht ih =>
    obtain ⟨ws, hws, hbare⟩ := ih
    exact ⟨_, .initializedVariable hn heq hws ht, by simp [*, assigns]⟩
  | noStart h =>
    exact ⟨_, .noStart h, by simp [*, assigns]⟩
  | variableStart ht _ ih =>
    obtain ⟨ws, hws, hbare⟩ := ih
    exact ⟨_, .variableStart ht hws, by simp [*, assigns]⟩
  | expressionStart _ ih =>
    obtain ⟨ws, hws, hbare⟩ := ih
    exact ⟨_, .expressionStart hws, hbare⟩
  | simple _ ih =>
    obtain ⟨ws, hws, hbare⟩ := ih
    exact ⟨_, .simple hws, hbare⟩
  | forLoop ht hp _ _ hu _ hq _ ih ih₁ ih₂ ih₃ =>
    obtain ⟨ws, hws, hbare⟩ := ih
    obtain ⟨ws₁, hws₁, hbare₁⟩ := ih₁
    obtain ⟨ws₂, hws₂, hbare₂⟩ := ih₂
    obtain ⟨ws₃, hws₃, hbare₃⟩ := ih₃
    exact ⟨_, .forLoop ht hp hws hws₁ hu hws₂ hq hws₃, by simp [*, assigns]⟩
  | whileLoop ht hp _ hq _ ih ih₁ =>
    obtain ⟨ws, hws, hbare⟩ := ih
    obtain ⟨ws₁, hws₁, hbare₁⟩ := ih₁
    exact ⟨_, .whileLoop ht hp hws hq hws₁, by simp [*, assigns]⟩
  | branch ht hp _ hq _ ih ih₁ =>
    obtain ⟨ws, hws, hbare⟩ := ih
    obtain ⟨ws₁, hws₁, hbare₁⟩ := ih₁
    exact ⟨_, .branch ht hp hws hq hws₁, by simp [*, assigns]⟩
  | branchElse ht hp _ hq _ hu _ hopen ih ih₁ ih₂ =>
    obtain ⟨ws, hws, hbare⟩ := ih
    obtain ⟨ws₁, hws₁, hbare₁⟩ := ih₁
    obtain ⟨ws₂, hws₂, hbare₂⟩ := ih₂
    exact ⟨_, .branchElse ht hp hws hq hws₁ hu hws₂ (hopen rfl), by simp [*, assigns]⟩
  | block ht _ hu ih =>
    obtain ⟨ws, hws, hbare⟩ := ih
    exact ⟨_, .block ht hws hu, by simp [*, assigns]⟩
  | ret ht _ hu ih =>
    obtain ⟨ws, hws, hbare⟩ := ih
    exact ⟨_, .ret ht hws hu, by simp [*, assigns]⟩
  | leave ht hu hloops =>
    exact ⟨_, .leave ht hu hloops, by simp [*, assigns]⟩
  | next ht hu hloops =>
    exact ⟨_, .next ht hu hloops, by simp [*, assigns]⟩
  | classDecl ht hn _ ho _ hu ih ih₁ =>
    obtain ⟨ws, hws, hbare⟩ := ih
    obtain ⟨ws₁, hws₁, hbare₁⟩ := ih₁
    exact ⟨_, .classDecl ht hn hws ho hws₁ hu, by simp [*, assigns]⟩
  | funDecl ht _ ih =>
    obtain ⟨ws, hws, hbare⟩ := ih
    exact ⟨_, .funDecl ht hws, by simp [*, assigns]⟩
  | varDecl ht _ ih =>
    obtain ⟨ws, hws, hbare⟩ := ih
    exact ⟨_, .varDecl ht hws, by simp [*, assigns]⟩
  | statement _ ih =>
    obtain ⟨ws, hws, hbare⟩ := ih
    exact ⟨_, .statement hws, hbare⟩
  | noDeclarations =>
    exact ⟨_, .noDeclarations, bare_nil⟩
  | moreDeclarations _ _ ih ih₁ =>
    obtain ⟨ws, hws, hbare⟩ := ih
    obtain ⟨ws₁, hws₁, hbare₁⟩ := ih₁
    exact ⟨_, .moreDeclarations hws hws₁, bare_append.mpr ⟨hbare, hbare₁⟩⟩
  | assign hn _ hw ih =>
    obtain ⟨ws, hws, hbare⟩ := ih
    cases hw with
    | plain heq => exact ⟨_, .assign (i := ⟨0⟩) hn hws (.plain heq), by simp [*, assigns]⟩
    | joined heq =>
      have hadded := bare_of_compounds heq
      exact ⟨_, .assignOut hn heq hws, by simpa +decide [hn, hbare, assignmentWords] using hadded⟩
  | set _ hd hn _ hw ih ih₁ =>
    obtain ⟨ws, hws, hbare⟩ := ih
    obtain ⟨ws₁, hws₁, hbare₁⟩ := ih₁
    cases hw with
    | plain heq => exact ⟨_, .set hws hd hn hws₁ (.plain heq), by simp [*, assigns]⟩
    | joined heq =>
      have hadded := bare_of_compounds heq
      exact ⟨_, .setOut hws hws hd hn heq hws₁, by
        simpa +decide [hd, hn, hbare, hbare₁, assignmentWords] using hadded⟩
end Lox.Syntax
