import Lox.Proofs.Grammar.Compounds
import Lox.Proofs.Rewriting.Plain

/-!
# How written-out assignments are read

* `grouping`: right operands may stand in parentheses, and references and places may be any.
* `TreeInto`: a tree and the same tree written out, whatever the symbol.
* `ReadsAs s x us`: the tokens `us` are a phrase of the symbol `s`, and its tree is `x` written out.
* `reads_assignOut`, `reads_setOut`: so are the tokens of a written-out assignment, if those of its parts are.
* `WrittenOut.reads`: **so are all tokens with the words of a phrase that is written out**.
-/

namespace Lox.Syntax

/-! ## 1. Trees -/

/-- **Some right operands stand in parentheses**, and references and places are new. -/
def grouping : Rewriting where
  ref _ _ _ := True
  super _ _ _ := True
  pos _ _ := True
  groups := True
  unrolls := False
  pos_refl _ := trivial

/-- A tree and the same tree written out. -/
def TreeInto (slots : List Slot) : (s : Symbol) → s.Tree → s.Tree → Prop
  | .primary | .call | .unary | .within _ | .operand _ | .conditional | .assignment | .expression =>
    ExprInto grouping slots
  | .arguments | .argumentList => ExprsInto grouping slots
  | .optionalExpression => OptionExprInto grouping slots
  | .names | .parameterList => List.Forall₂ grouping.Token
  | .code => CodeInto grouping slots
  | .function => fun f f' => grouping.Token f.name f'.name ∧ CodeInto grouping slots f.code f'.code
  | .methods => MethodsInto grouping slots
  | .superclass => SuperclassInto grouping slots
  | .loopStart => OptionStmtInto grouping none slots
  | .variable | .expressionStatement | .statement _ | .declaration _ => StmtInto grouping none slots
  | .declarations _ => StmtsInto grouping none slots

/-- A tree and the same tree written out, among frames that both programs have. -/
def Grouped (s : Symbol) (x x' : s.Tree) : Prop :=
  ∀ slots, (∀ t ∈ slots, t = .shared) → TreeInto slots s x x'

section Trees

variable {t t' : Token}

theorem like_of_word (h : t'.word = t.word) : grouping.Token t t' :=
  ⟨congrArg Prod.fst h, congrArg Prod.snd h, trivial⟩

theorem ref_grouped (h : t'.word = t.word) {slots : List Slot} (i i' : RefId) :
    RefInto grouping slots ⟨i, t⟩ ⟨i', t'⟩ := ⟨like_of_word h, trivial⟩

theorem join_grouped {slots : List Slot} (l : Level) {a a' b b' : Expr} {op op' : Token}
    (ha : ExprInto grouping slots a a') (hop : grouping.Token op op')
    (hb : ExprInto grouping slots b b') :
    ExprInto grouping slots (l.join a op b) (l.join a' op' b') := by
  cases l with
  | or | and => exact .logical ha hop hb
  | _ => exact .binary ha hop hb

/-- A value that is assigned as it stands in the text. -/
theorem Assigned.grouped {target target' value value' w : Expr} {eq eq' : Token}
    (h : Assigned target eq value w) (heq : eq'.word = eq.word)
    (htarget : Grouped .assignment target target') (hvalue : Grouped .assignment value value') :
    ∃ w', Assigned target' eq' value' w' ∧ Grouped .assignment w w' := by
  have hkind : eq'.kind = eq.kind := congrArg Prod.fst heq
  cases h with
  | plain h => exact ⟨value', .plain (hkind.trans h), hvalue⟩
  | joined h =>
    exact ⟨_, .joined (hkind ▸ h), fun slots hs =>
      .binary (htarget slots hs) ⟨rfl, rfl, trivial⟩ (hvalue slots hs)⟩

/-- A statement that ends in an open `if` does so as well when it is written out. -/
theorem endsOpen_grouped : {l : Option Loop} → {slots : List Slot} → {s s' : Stmt} →
    StmtInto grouping l slots s s' → (EndsOpen s' ↔ EndsOpen s)
  | _, _, _, _, .branch _ _ .none => Iff.rfl
  | _, _, _, _, .branch _ _ (.some h) => (endsOpen_grouped h :)
  | _, _, _, _, .whileLoop _ h => (endsOpen_grouped h :)
  | _, _, _, _, .forLoop _ _ _ h => (endsOpen_grouped h :)
  | _, _, _, _, .unrolled hunrolls .. => hunrolls.elim
  | _, _, _, _, .expr _ => Iff.rfl
  | _, _, _, _, .varDecl .. => Iff.rfl
  | _, _, _, _, .funDecl .. => Iff.rfl
  | _, _, _, _, .classDecl .. => Iff.rfl
  | _, _, _, _, .block .. => Iff.rfl
  | _, _, _, _, .ret .. => Iff.rfl
  | _, _, _, _, .leave _ => Iff.rfl
  | _, _, _, _, .next .. => Iff.rfl
  | _, _, _, _, .continued .. => Iff.rfl

theorem getD_grouped {slots : List Slot} {o o' : Option Expr} (h : OptionExprInto grouping slots o o')
    (l : Literal) : ExprInto grouping slots (o.getD (.literal l)) (o'.getD (.literal l)) := by
  cases h with
  | none => exact .literal
  | some h => exact h

theorem methods_grouped {slots : List Slot} {f f' : FunDecl} {fs fs' : List FunDecl}
    (hf : TreeInto slots .function f f') (hfs : MethodsInto grouping slots fs fs') :
    MethodsInto grouping slots (f :: fs) (f' :: fs') := by
  obtain ⟨n, c⟩ := f
  obtain ⟨n', c'⟩ := f'
  exact .cons hf.1 hf.2 hfs

theorem funDecl_grouped {slots : List Slot} (hs : ∀ t ∈ slots, t = .shared) {f f' : FunDecl}
    (hf : TreeInto slots .function f f') : StmtInto grouping none slots (.funDecl f) (.funDecl f') := by
  obtain ⟨n, c⟩ := f
  obtain ⟨n', c'⟩ := f'
  exact .funDecl (innermost_of_shared hs) hf.1 hf.2

theorem arguments_grouped {slots : List Slot} {es es' : List Expr} (h : ExprsInto grouping slots es es')
    (hlimit : es.length ≤ maxArguments) : es'.length ≤ maxArguments := h.length_eq.symm ▸ hlimit

end Trees

/-! ## 2. Phrases -/

/-- **Tokens that are a phrase**, whichever number its first reference gets. Its tree is `x` written out. -/
def ReadsAs (s : Symbol) (x : s.Tree) (us : List Token) : Prop :=
  ∀ a, ∃ x' b, Derives .nearest s a us x' b ∧ Grouped s x x'

section Phrases

variable {s s₁ s₂ : Symbol} {x : s.Tree} {x₁ : s₁.Tree} {x₂ : s₂.Tree} {us vs ws : List Token}

/-- A phrase with one part. -/
theorem ReadsAs.via (h : ReadsAs s₁ x₁ us)
    (f : ∀ {a y b}, Derives .nearest s₁ a us y b → Grouped s₁ x₁ y →
      ∃ z, Derives .nearest s a ws z b ∧ Grouped s x z) : ReadsAs s x ws := fun a => by
  obtain ⟨y, b, hy, hinto⟩ := h a
  obtain ⟨z, hz, hgrouped⟩ := f hy hinto
  exact ⟨z, b, hz, hgrouped⟩

/-- A phrase with two parts. -/
theorem ReadsAs.both (h₁ : ReadsAs s₁ x₁ us) (h₂ : ReadsAs s₂ x₂ vs)
    (f : ∀ {a y b z c}, Derives .nearest s₁ a us y b → Derives .nearest s₂ b vs z c →
      Grouped s₁ x₁ y → Grouped s₂ x₂ z → ∃ w, Derives .nearest s a ws w c ∧ Grouped s x w) :
    ReadsAs s x ws := fun a => by
  obtain ⟨y, b, hy, hinto₁⟩ := h₁ a
  obtain ⟨z, c, hz, hinto₂⟩ := h₂ b
  obtain ⟨w, hw, hgrouped⟩ := f hy hz hinto₁ hinto₂
  exact ⟨w, c, hw, hgrouped⟩

theorem kind_of_word {t : Token} {w : Word} {k : Token.Kind} (h : t.word = w) (hk : w.1 = k) :
    t.kind = k := (congrArg Prod.fst h).trans hk

/-- A sum is an assignment. -/
theorem assignment_of_term {g : ElseRule} {a b : Nat} {ts : List Token} {e : Expr}
    (h : Derives g (.operand .term) a ts e b) : Derives g .assignment a ts e b := by
  have hcomparison : Derives g (.operand .comparison) a ts e b := .single (.tighter h)
  have hequality : Derives g (.operand .equality) a ts e b := .single (.tighter hcomparison)
  have hand : Derives g (.operand .and) a ts e b := .single (.tighter hequality)
  exact .noAssignment (.noChoice (.single (.tighter hand)))

/-- **The value of a written-out assignment**: the target, the operator, and the value in parentheses. -/
theorem derives_value {g : ElseRule} {a b c : Nat} {ts us : List Token} {e v : Expr} {op p q : Token}
    {kind : Token.Kind} {lexeme : String} (hop : (kind, op.kind, lexeme) ∈ compounds)
    (he : Derives g .call a ts e b) (hp : p.kind = .leftParen) (hv : Derives g .assignment b us v c)
    (hq : q.kind = .rightParen) :
    Derives g .assignment a (ts ++ op :: p :: (us ++ [q])) (.binary e op (.group v)) c := by
  have hleft : Derives g (.within none) a ts e b := .tightest (.unsigned he)
  have hright : Derives g (.within none) b (p :: (us ++ [q])) (.group v) c :=
    .tightest (.unsigned (.callee (.group hp (.oneAssignment hv) hq)))
  have hfactor : Derives g (.operand .factor) a ts e b := .single hleft
  have hlevel : Level.term.has op.kind = true ∨ Level.factor.has op.kind = true := by
    simp only [compounds, List.mem_cons, Prod.mk.injEq, List.not_mem_nil, or_false] at hop
    rcases hop with ⟨-, hk, -⟩ | ⟨-, hk, -⟩ | ⟨-, hk, -⟩ | ⟨-, hk, -⟩ <;> rw [hk] <;> decide
  rcases hlevel with hterm | hfac
  · have hjoin : Derives g (.operand .term) a (ts ++ op :: p :: (us ++ [q]))
        (Level.term.join e op (.group v)) c :=
      .join (.single (.tighter hfactor)) hterm (.tighter (.single hright))
    exact assignment_of_term hjoin
  · have hjoin : Derives g (.operand .factor) a (ts ++ op :: p :: (us ++ [q]))
        (Level.factor.join e op (.group v)) c :=
      .join hfactor hfac hright
    exact assignment_of_term (.single (.tighter hjoin))

/-- An assignment to a variable as it stands in the text. -/
theorem reads_assign {i j : RefId} {t n eq eq' : Token} {v w : Expr} (ht : t.kind = .identifier)
    (hw : Assigned (.read ⟨i, t⟩) eq v w) (hn : n.word = t.word) (heq : eq'.word = eq.word)
    (hv : ReadsAs .assignment v us) : ReadsAs .assignment (.assign ⟨j, t⟩ w) (n :: eq' :: us) := fun a => by
  obtain ⟨v', b, hv', hinto⟩ := hv (a + 1)
  have htarget : Grouped .assignment (.read ⟨i, t⟩) (.read ⟨⟨a⟩, n⟩) :=
    fun _ _ => .read (ref_grouped hn _ _)
  obtain ⟨w', hw', hgrouped⟩ := hw.grouped heq htarget hinto
  exact ⟨_, _, .assign (kind_of_word hn ht) hv' hw', fun slots hs =>
    .assign (ref_grouped hn _ _) (hgrouped slots hs)⟩

/-- An assignment to a property as it stands in the text. -/
theorem reads_set {d t d' n eq eq' : Token} {e v w : Expr} (hd : d.kind = .dot) (ht : t.kind = .identifier)
    (hw : Assigned (.get e t) eq v w) (hd' : d'.word = d.word) (hn : n.word = t.word)
    (heq : eq'.word = eq.word) (he : ReadsAs .call e us) (hv : ReadsAs .assignment v vs) :
    ReadsAs .assignment (.set e t w) (us ++ d' :: n :: eq' :: vs) := fun a => by
  obtain ⟨e', b, he', hinto⟩ := he a
  obtain ⟨v', c, hv', hinto'⟩ := hv b
  have htarget : Grouped .assignment (.get e t) (.get e' n) :=
    fun slots hs => .get (hinto slots hs) (like_of_word hn)
  obtain ⟨w', hw', hgrouped⟩ := hw.grouped heq htarget hinto'
  exact ⟨_, c, .set he' (kind_of_word hd' hd) (kind_of_word hn ht) hv' hw', fun slots hs =>
    .set (hinto slots hs) (like_of_word hn) (hgrouped slots hs)⟩

/-- **A written-out assignment to a variable.** Of the two names, the second one is read first. -/
theorem reads_assignOut {i j : RefId} {t n n' eq e op p q : Token} {k : Token.Kind} {lexeme : String}
    {v : Expr} (ht : t.kind = .identifier) (heq : (eq.kind, k, lexeme) ∈ compounds) (hn : n.word = t.word)
    (he : e.word = (.equal, "=")) (hn' : n'.word = t.word) (hop : op.word = (k, lexeme))
    (hp : p.word = (.leftParen, "(")) (hq : q.word = (.rightParen, ")")) (hv : ReadsAs .assignment v us) :
    ReadsAs .assignment (.assign ⟨j, t⟩ (.binary (.read ⟨i, t⟩) ⟨k, lexeme, eq.pos⟩ v))
      (n :: e :: n' :: op :: p :: (us ++ [q])) := fun a => by
  obtain ⟨v', b, hv', hinto⟩ := hv (a + 2)
  have hkind : op.kind = k := kind_of_word hop rfl
  have hread : Derives .nearest .call (a + 1) [n'] (.read ⟨⟨a + 1⟩, n'⟩) (a + 2) :=
    .callee (.name (kind_of_word hn' ht))
  have hvalue := derives_value (hkind ▸ heq) hread (kind_of_word hp rfl) hv' (kind_of_word hq rfl)
  have hoperator : grouping.Token ⟨k, lexeme, eq.pos⟩ op := like_of_word hop
  exact ⟨_, _, .assign (kind_of_word hn ht) hvalue (.plain (kind_of_word he rfl)), fun slots hs =>
    .assign (ref_grouped hn _ _)
      (.grouped trivial (.read (ref_grouped hn' _ _)) hoperator (hinto slots hs))⟩

/-- **A written-out assignment to a property**, with an object in front of each of the two names. -/
theorem reads_setOut {d t d' n d₂ n₂ eq e op p q : Token} {k : Token.Kind} {lexeme : String} {o v : Expr}
    (hd : d.kind = .dot) (ht : t.kind = .identifier) (heq : (eq.kind, k, lexeme) ∈ compounds)
    (hd' : d'.word = d.word) (hn : n.word = t.word) (he : e.word = (.equal, "="))
    (hd₂ : d₂.word = d.word) (hn₂ : n₂.word = t.word) (hop : op.word = (k, lexeme))
    (hp : p.word = (.leftParen, "(")) (hq : q.word = (.rightParen, ")")) (ho : ReadsAs .call o us)
    (ho₂ : ReadsAs .call o ws) (hv : ReadsAs .assignment v vs) :
    ReadsAs .assignment (.set o t (.binary (.get o t) ⟨k, lexeme, eq.pos⟩ v))
      (us ++ d' :: n :: e :: (ws ++ d₂ :: n₂ :: op :: p :: (vs ++ [q]))) := fun a => by
  obtain ⟨o₁, b, ho₁, hinto⟩ := ho a
  obtain ⟨o', c, ho', hinto'⟩ := ho₂ b
  obtain ⟨v', _, hv', hintov⟩ := hv c
  have hkind : op.kind = k := kind_of_word hop rfl
  have hget : Derives .nearest .call b (ws ++ [d₂, n₂]) (.get o' n₂) c :=
    .property ho' (kind_of_word hd₂ hd) (kind_of_word hn₂ ht)
  have hvalue := derives_value (hkind ▸ heq) hget (kind_of_word hp rfl) hv' (kind_of_word hq rfl)
  rw [List.append_assoc] at hvalue
  have hoperator : grouping.Token ⟨k, lexeme, eq.pos⟩ op := like_of_word hop
  exact ⟨_, _, .set ho₁ (kind_of_word hd' hd) (kind_of_word hn ht) hvalue (.plain (kind_of_word he rfl)),
    fun slots hs => .set (hinto slots hs) (like_of_word hn)
      (.grouped trivial (.get (hinto' slots hs) (like_of_word hn₂)) hoperator (hintov slots hs))⟩

theorem reads_choice {e yes no : Expr} {q u : Token} (hq : q.kind = .question) (hu : u.kind = .colon)
    (he : ReadsAs (.operand .or) e us) (hyes : ReadsAs .expression yes vs)
    (hno : ReadsAs .conditional no ws) :
    ReadsAs .conditional (.conditional e yes no) (us ++ q :: (vs ++ u :: ws)) := fun a => by
  obtain ⟨e', b, he', hinto⟩ := he a
  obtain ⟨yes', c, hyes', hinto₁⟩ := hyes b
  obtain ⟨no', d, hno', hinto₂⟩ := hno c
  exact ⟨_, d, .choice he' hq hyes' hu hno', fun slots hs =>
    .conditional (hinto slots hs) (hinto₁ slots hs) (hinto₂ slots hs)⟩

theorem reads_forLoop {loops : Nat} {init : Option Stmt} {cond inc : Option Expr} {body : Stmt}
    {t p u q : Token} {xs : List Token} (ht : t.kind = .kwFor) (hp : p.kind = .leftParen)
    (hu : u.kind = .semicolon) (hq : q.kind = .rightParen) (hinit : ReadsAs .loopStart init us)
    (hcond : ReadsAs .optionalExpression cond vs) (hinc : ReadsAs .optionalExpression inc ws)
    (hbody : ReadsAs (.statement (loops + 1)) body xs) :
    ReadsAs (.statement loops) (.forLoop init (cond.getD (.literal (.bool true))) inc body)
      (t :: p :: (us ++ (vs ++ u :: (ws ++ q :: xs)))) := fun a => by
  obtain ⟨init', b, hinit', hinto⟩ := hinit a
  obtain ⟨cond', c, hcond', hinto₁⟩ := hcond b
  obtain ⟨inc', d, hinc', hinto₂⟩ := hinc c
  obtain ⟨body', e, hbody', hinto₃⟩ := hbody d
  refine ⟨_, e, .forLoop ht hp hinit' hcond' hu hinc' hq hbody', fun slots hs => ?_⟩
  have hs' := shared_cons hs
  exact .forLoop (hinto _ hs') (getD_grouped (hinto₁ _ hs') _) (hinto₂ _ hs') (hinto₃ _ hs')

theorem reads_branchElse {loops : Nat} {cond : Expr} {yes no : Stmt} {t p q u : Token}
    (ht : t.kind = .kwIf) (hp : p.kind = .leftParen) (hq : q.kind = .rightParen) (hu : u.kind = .kwElse)
    (hopen : ¬ EndsOpen yes) (hcond : ReadsAs .expression cond us)
    (hyes : ReadsAs (.statement loops) yes vs) (hno : ReadsAs (.statement loops) no ws) :
    ReadsAs (.statement loops) (.branch cond yes (some no))
      (t :: p :: (us ++ q :: (vs ++ u :: ws))) := fun a => by
  obtain ⟨cond', b, hcond', hinto⟩ := hcond a
  obtain ⟨yes', c, hyes', hinto₁⟩ := hyes b
  obtain ⟨no', d, hno', hinto₂⟩ := hno c
  have hclosed : ¬ EndsOpen yes' := fun hend =>
    hopen ((endsOpen_grouped (hinto₁ [] shared_nil)).mp hend)
  exact ⟨_, d, .branchElse ht hp hcond' hq hyes' hu hno' fun _ => hclosed, fun slots hs =>
    .branch (hinto slots hs) (hinto₁ slots hs) (.some (hinto₂ slots hs))⟩

end Phrases

/-- **Tokens with the words of a written-out phrase are a phrase**, and its tree is the short one with some
    right operands in parentheses. -/
theorem WrittenOut.reads {s : Symbol} {ts : List Token} {x : s.Tree} {ws : List Word}
    (h : WrittenOut s ts x ws) : ∀ us : List Token, us.map Token.word = ws → ReadsAs s x us := by
  -- in each case, the words of the phrase say where the words of its parts are
  induction h with
    (intro us hus
     try simp only [assignmentWords, List.append_assoc, List.cons_append, List.nil_append,
       List.map_eq_cons_iff, List.map_eq_append_iff, List.map_eq_nil_iff] at hus)
  | literal h =>
    obtain ⟨t, _, rfl, ht, rfl⟩ := hus
    have hkind : t.kind = _ := kind_of_word ht rfl
    exact fun a => ⟨_, a, .literal (hkind ▸ h), fun _ _ => .literal⟩
  | this h =>
    obtain ⟨t, _, rfl, ht, rfl⟩ := hus
    exact fun a => ⟨_, _, .this (kind_of_word ht h), fun _ _ => .this (ref_grouped ht _ _)⟩
  | super ht hd hm =>
    obtain ⟨t, _, rfl, ht', d, _, rfl, hd', m, _, rfl, hm', rfl⟩ := hus
    exact fun a => ⟨_, _, .super (kind_of_word ht' ht) (kind_of_word hd' hd) (kind_of_word hm' hm),
      fun _ _ => .super ⟨like_of_word ht', trivial⟩ (like_of_word hm')⟩
  | name h =>
    obtain ⟨t, _, rfl, ht, rfl⟩ := hus
    exact fun a => ⟨_, _, .name (kind_of_word ht h), fun _ _ => .read (ref_grouped ht _ _)⟩
  | lambda h _ ih =>
    obtain ⟨t, us, rfl, ht, hus⟩ := hus
    exact (ih us hus).via fun hc hinto =>
      ⟨_, .lambda (kind_of_word ht h) hc, fun slots hs => .lambda (hinto slots hs)⟩
  | group ht _ hu ih =>
    obtain ⟨t, _, rfl, ht', us, _, rfl, hus, u, _, rfl, hu', rfl⟩ := hus
    exact (ih us hus).via fun he hinto => ⟨_, .group (kind_of_word ht' ht) he (kind_of_word hu' hu),
      fun slots hs => .group (hinto slots hs)⟩
  | callee _ ih => exact (ih us hus).via fun he hinto => ⟨_, .callee he, hinto⟩
  | apply _ hp _ hq ihe ihargs =>
    obtain ⟨us, _, rfl, hus, p, _, rfl, hp', vs, _, rfl, hvs, q, _, rfl, hq', rfl⟩ := hus
    exact (ihe us hus).both (ihargs vs hvs) fun he hargs hinto hintos =>
      ⟨_, .apply he (kind_of_word hp' hp) hargs (kind_of_word hq' hq), fun slots hs =>
        .call (hinto slots hs) (like_of_word hq') (hintos slots hs)⟩
  | property _ hd hn ih =>
    obtain ⟨us, _, rfl, hus, d, _, rfl, hd', n, _, rfl, hn', rfl⟩ := hus
    exact (ih us hus).via fun he hinto =>
      ⟨_, .property he (kind_of_word hd' hd) (kind_of_word hn' hn), fun slots hs =>
        .get (hinto slots hs) (like_of_word hn')⟩
  | lastArgument _ ih =>
    exact (ih us hus).via fun he hinto =>
      ⟨_, .lastArgument he, fun slots hs => .cons (hinto slots hs) .nil⟩
  | moreArguments _ ht _ ihe ihes =>
    obtain ⟨us, _, rfl, hus, t, vs, rfl, ht', hvs⟩ := hus
    exact (ihe us hus).both (ihes vs hvs) fun he hes hinto hintos =>
      ⟨_, .moreArguments he (kind_of_word ht' ht) hes, fun slots hs =>
        .cons (hinto slots hs) (hintos slots hs)⟩
  | noArguments =>
    subst hus
    exact fun a => ⟨_, a, .noArguments, fun _ _ => .nil⟩
  | someArguments _ hlimit ih =>
    exact (ih us hus).via fun hes hinto =>
      ⟨_, .someArguments hes (arguments_grouped (hinto [] shared_nil) hlimit), hinto⟩
  | sign hop _ ih =>
    obtain ⟨op, us, rfl, hop', hus⟩ := hus
    exact (ih us hus).via fun he hinto =>
      ⟨_, .sign (hop.imp (kind_of_word hop') (kind_of_word hop')) he, fun slots hs =>
        .unary (like_of_word hop') (hinto slots hs)⟩
  | unsigned _ ih => exact (ih us hus).via fun he hinto => ⟨_, .unsigned he, hinto⟩
  | tightest _ ih => exact (ih us hus).via fun he hinto => ⟨_, .tightest he, hinto⟩
  | tighter _ ih => exact (ih us hus).via fun he hinto => ⟨_, .tighter he, hinto⟩
  | single _ ih => exact (ih us hus).via fun he hinto => ⟨_, .single he, hinto⟩
  | @join l _ _ _ _ _ _ _ _ hop _ ihl ihr =>
    obtain ⟨us, _, rfl, hus, op, vs, rfl, hop', hvs⟩ := hus
    have hhas : l.has op.kind = true := (congrArg l.has (kind_of_word hop' rfl)).trans hop
    exact (ihl us hus).both (ihr vs hvs) fun hl hr hleft hright =>
      ⟨_, .join hl hhas hr, fun slots hs =>
        join_grouped l (hleft slots hs) (like_of_word hop') (hright slots hs)⟩
  | choice _ hq _ hu _ ihe ihyes ihno =>
    obtain ⟨us, _, rfl, hus, q, _, rfl, hq', vs, _, rfl, hvs, u, ws, rfl, hu', hws⟩ := hus
    exact reads_choice (kind_of_word hq' hq) (kind_of_word hu' hu) (ihe us hus) (ihyes vs hvs) (ihno ws hws)
  | noChoice _ ih => exact (ih us hus).via fun he hinto => ⟨_, .noChoice he, hinto⟩
  | assign hn _ hw ih =>
    obtain ⟨n, _, rfl, hn', eq, us, rfl, heq', hus⟩ := hus
    exact reads_assign hn hw hn' heq' (ih us hus)
  | set _ hd hn _ hw ihe ihv =>
    obtain ⟨us, _, rfl, hus, d, _, rfl, hd', n, _, rfl, hn', eq, vs, rfl, heq', hvs⟩ := hus
    exact reads_set hd hn hw hd' hn' heq' (ihe us hus) (ihv vs hvs)
  | assignOut hn heq _ ih =>
    obtain ⟨n, _, rfl, hn', e, _, rfl, he', n₂, _, rfl, hn₂, op, _, rfl, hop', p, _, rfl, hp', us, _, rfl,
      hus, q, _, rfl, hq', rfl⟩ := hus
    exact reads_assignOut hn heq hn' he' hn₂ hop' hp' hq' (ih us hus)
  | setOut _ _ hd hn heq _ ihe ihe' ihv =>
    obtain ⟨us, _, rfl, hus, d, _, rfl, hd', n, _, rfl, hn', e, _, rfl, he', us₂, _, rfl, hus₂, d₂, _, rfl,
      hd₂, n₂, _, rfl, hn₂, op, _, rfl, hop', p, _, rfl, hp', vs, _, rfl, hvs, q, _, rfl, hq', rfl⟩ := hus
    exact reads_setOut hd hn heq hd' hn' he' hd₂ hn₂ hop' hp' hq' (ihe us hus) (ihe' us₂ hus₂) (ihv vs hvs)
  | noAssignment _ ih => exact (ih us hus).via fun he hinto => ⟨_, .noAssignment he, hinto⟩
  | oneAssignment _ ih => exact (ih us hus).via fun he hinto => ⟨_, .oneAssignment he, hinto⟩
  | comma _ hop _ ihl ihr =>
    obtain ⟨us, _, rfl, hus, op, vs, rfl, hop', hvs⟩ := hus
    exact (ihl us hus).both (ihr vs hvs) fun hl hr hleft hright =>
      ⟨_, .comma hl (kind_of_word hop' hop) hr, fun slots hs =>
        .binary (hleft slots hs) (like_of_word hop') (hright slots hs)⟩
  | noExpression =>
    subst hus
    exact fun a => ⟨_, a, .noExpression, fun _ _ => .none⟩
  | someExpression _ ih =>
    exact (ih us hus).via fun he hinto => ⟨_, .someExpression he, fun slots hs => .some (hinto slots hs)⟩
  | lastName h =>
    obtain ⟨n, _, rfl, hn, rfl⟩ := hus
    exact fun a => ⟨_, a, .lastName (kind_of_word hn h), fun _ _ => .cons (like_of_word hn) .nil⟩
  | moreNames hn ht _ ih =>
    obtain ⟨n, _, rfl, hn', t, us, rfl, ht', hus⟩ := hus
    exact (ih us hus).via fun hns hinto =>
      ⟨_, .moreNames (kind_of_word hn' hn) (kind_of_word ht' ht) hns, fun slots hs =>
        .cons (like_of_word hn') (hinto slots hs)⟩
  | noParameters =>
    subst hus
    exact fun a => ⟨_, a, .noParameters, fun _ _ => .nil⟩
  | someParameters _ hlimit ih =>
    exact (ih us hus).via fun hns hinto =>
      ⟨_, .someParameters hns ((hinto [] shared_nil).length_eq ▸ hlimit), hinto⟩
  | code hp _ hq ho _ hu ihns ihbody =>
    obtain ⟨p, _, rfl, hp', us, _, rfl, hus, q, _, rfl, hq', o, _, rfl, ho', vs, _, rfl, hvs, u, _, rfl,
      hu', rfl⟩ := hus
    exact (ihns us hus).both (ihbody vs hvs) fun hns hbody hparams hinto =>
      ⟨_, .code (kind_of_word hp' hp) hns (kind_of_word hq' hq) (kind_of_word ho' ho) hbody
        (kind_of_word hu' hu), fun slots hs => .mk (hparams slots hs) (hinto _ (shared_cons hs))⟩
  | function hn _ ih =>
    obtain ⟨n, us, rfl, hn', hus⟩ := hus
    exact (ih us hus).via fun hc hinto => ⟨_, .function (kind_of_word hn' hn) hc, fun slots hs =>
      ⟨like_of_word hn', hinto slots hs⟩⟩
  | noMethods =>
    subst hus
    exact fun a => ⟨_, a, .noMethods, fun _ _ => .nil⟩
  | moreMethods _ _ ihf ihfs =>
    obtain ⟨us, vs, rfl, hus, hvs⟩ := hus
    exact (ihf us hus).both (ihfs vs hvs) fun hf hfs hinto hintos =>
      ⟨_, .moreMethods hf hfs, fun slots hs => methods_grouped (hinto slots hs) (hintos slots hs)⟩
  | noSuperclass =>
    subst hus
    exact fun a => ⟨_, a, .noSuperclass, fun _ _ => .none⟩
  | superclass ht hn =>
    obtain ⟨t, _, rfl, ht', n, _, rfl, hn', rfl⟩ := hus
    exact fun a => ⟨_, _, .superclass (kind_of_word ht' ht) (kind_of_word hn' hn), fun _ _ =>
      .some (ref_grouped hn' _ _)⟩
  | expressionStatement _ ht ih =>
    obtain ⟨us, _, rfl, hus, t, _, rfl, ht', rfl⟩ := hus
    exact (ih us hus).via fun he hinto =>
      ⟨_, .expressionStatement he (kind_of_word ht' ht), fun slots hs => .expr (hinto slots hs)⟩
  | bareVariable hn ht =>
    obtain ⟨n, _, rfl, hn', t, _, rfl, ht', rfl⟩ := hus
    exact fun a => ⟨_, a, .bareVariable (kind_of_word hn' hn) (kind_of_word ht' ht), fun _ hs =>
      .varDecl (innermost_of_shared hs) (like_of_word hn') .literal⟩
  | initializedVariable hn heq _ ht ih =>
    obtain ⟨n, _, rfl, hn', eq, _, rfl, heq', us, _, rfl, hus, t, _, rfl, ht', rfl⟩ := hus
    exact (ih us hus).via fun he hinto =>
      ⟨_, .initializedVariable (kind_of_word hn' hn) (kind_of_word heq' heq) he (kind_of_word ht' ht),
        fun slots hs => .varDecl (innermost_of_shared hs) (like_of_word hn') (hinto slots hs)⟩
  | noStart h =>
    obtain ⟨t, _, rfl, ht, rfl⟩ := hus
    exact fun a => ⟨_, a, .noStart (kind_of_word ht h), fun _ _ => .none⟩
  | variableStart ht _ ih =>
    obtain ⟨t, us, rfl, ht', hus⟩ := hus
    exact (ih us hus).via fun hv hinto =>
      ⟨_, .variableStart (kind_of_word ht' ht) hv, fun slots hs => .some (hinto slots hs)⟩
  | expressionStart _ ih =>
    exact (ih us hus).via fun he hinto => ⟨_, .expressionStart he, fun slots hs => .some (hinto slots hs)⟩
  | simple _ ih => exact (ih us hus).via fun he hinto => ⟨_, .simple he, hinto⟩
  | forLoop ht hp _ _ hu _ hq _ ihinit ihcond ihinc ihbody =>
    obtain ⟨t, _, rfl, ht', p, _, rfl, hp', us, _, rfl, hus, us₁, _, rfl, hus₁, u, _, rfl, hu', us₂, _, rfl,
      hus₂, q, us₃, rfl, hq', hus₃⟩ := hus
    exact reads_forLoop (kind_of_word ht' ht) (kind_of_word hp' hp) (kind_of_word hu' hu)
      (kind_of_word hq' hq) (ihinit us hus) (ihcond us₁ hus₁) (ihinc us₂ hus₂) (ihbody us₃ hus₃)
  | whileLoop ht hp _ hq _ ihcond ihbody =>
    obtain ⟨t, _, rfl, ht', p, _, rfl, hp', us, _, rfl, hus, q, vs, rfl, hq', hvs⟩ := hus
    exact (ihcond us hus).both (ihbody vs hvs) fun hcond hbody hinto hinto' =>
      ⟨_, .whileLoop (kind_of_word ht' ht) (kind_of_word hp' hp) hcond (kind_of_word hq' hq) hbody,
        fun slots hs => .whileLoop (hinto slots hs) (hinto' slots hs)⟩
  | branch ht hp _ hq _ ihcond ihyes =>
    obtain ⟨t, _, rfl, ht', p, _, rfl, hp', us, _, rfl, hus, q, vs, rfl, hq', hvs⟩ := hus
    exact (ihcond us hus).both (ihyes vs hvs) fun hcond hyes hinto hinto' =>
      ⟨_, .branch (kind_of_word ht' ht) (kind_of_word hp' hp) hcond (kind_of_word hq' hq) hyes,
        fun slots hs => .branch (hinto slots hs) (hinto' slots hs) .none⟩
  | branchElse ht hp _ hq _ hu _ hopen ihcond ihyes ihno =>
    obtain ⟨t, _, rfl, ht', p, _, rfl, hp', us, _, rfl, hus, q, _, rfl, hq', vs, _, rfl, hvs, u, ws, rfl,
      hu', hws⟩ := hus
    exact reads_branchElse (kind_of_word ht' ht) (kind_of_word hp' hp) (kind_of_word hq' hq)
      (kind_of_word hu' hu) hopen (ihcond us hus) (ihyes vs hvs) (ihno ws hws)
  | block ht _ hu ih =>
    obtain ⟨t, _, rfl, ht', us, _, rfl, hus, u, _, rfl, hu', rfl⟩ := hus
    exact (ih us hus).via fun hbody hinto =>
      ⟨_, .block (kind_of_word ht' ht) hbody (kind_of_word hu' hu), fun slots hs =>
        .block no_loop (hinto _ (shared_cons hs))⟩
  | ret ht _ hu ih =>
    obtain ⟨t, _, rfl, ht', us, _, rfl, hus, u, _, rfl, hu', rfl⟩ := hus
    exact (ih us hus).via fun hvalue hinto =>
      ⟨_, .ret (kind_of_word ht' ht) hvalue (kind_of_word hu' hu), fun slots hs =>
        .ret (like_of_word ht') (hinto slots hs)⟩
  | leave ht hu hloops =>
    obtain ⟨t, _, rfl, ht', u, _, rfl, hu', rfl⟩ := hus
    exact fun a => ⟨_, a, .leave (kind_of_word ht' ht) (kind_of_word hu' hu) hloops, fun _ _ =>
      .leave (like_of_word ht')⟩
  | next ht hu hloops =>
    obtain ⟨t, _, rfl, ht', u, _, rfl, hu', rfl⟩ := hus
    exact fun a => ⟨_, a, .next (kind_of_word ht' ht) (kind_of_word hu' hu) hloops, fun _ _ =>
      .next no_loop (like_of_word ht')⟩
  | classDecl ht hn _ ho _ hu ihsup ihms =>
    obtain ⟨t, _, rfl, ht', n, _, rfl, hn', us, _, rfl, hus, o, _, rfl, ho', vs, _, rfl, hvs, u, _, rfl,
      hu', rfl⟩ := hus
    exact (ihsup us hus).both (ihms vs hvs) fun hsup hms hinto hinto' =>
      ⟨_, .classDecl (kind_of_word ht' ht) (kind_of_word hn' hn) hsup (kind_of_word ho' ho) hms
        (kind_of_word hu' hu), fun slots hs => .classDecl (innermost_of_shared hs) (like_of_word hn')
          (hinto slots hs) (hinto' _ (shared_class hs _))⟩
  | funDecl ht _ ih =>
    obtain ⟨t, us, rfl, ht', hus⟩ := hus
    exact (ih us hus).via fun hf hinto =>
      ⟨_, .funDecl (kind_of_word ht' ht) hf, fun slots hs => funDecl_grouped hs (hinto slots hs)⟩
  | varDecl ht _ ih =>
    obtain ⟨t, us, rfl, ht', hus⟩ := hus
    exact (ih us hus).via fun hv hinto => ⟨_, .varDecl (kind_of_word ht' ht) hv, hinto⟩
  | statement _ ih => exact (ih us hus).via fun hstmt hinto => ⟨_, .statement hstmt, hinto⟩
  | noDeclarations =>
    subst hus
    exact fun a => ⟨_, a, .noDeclarations, fun _ _ => .nil⟩
  | moreDeclarations _ _ ih ihs =>
    obtain ⟨us, vs, rfl, hus, hvs⟩ := hus
    exact (ih us hus).both (ihs vs hvs) fun hd hds hinto hintos =>
      ⟨_, .moreDeclarations hd hds, fun slots hs => .cons (hinto slots hs) (hintos slots hs)⟩

end Lox.Syntax
