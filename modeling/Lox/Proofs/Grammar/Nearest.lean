import Lox.Proofs.Grammar.Rules

/-!
# An `else` can always be given to the nearest `if`

The rules with `ElseRule.any` allow several trees for some tokens, those with `ElseRule.nearest`
allow one of them. Both allow the same tokens.

* `statement_raise`: a statement stays one inside more loops;
* `attach`: an `else` behind a statement that ends in an open `if` can be made a part of it;
* `derives_nearest`: so every phrase is a phrase with each `else` at the nearest `if`.
-/

namespace Lox.Syntax

section Raise

variable {g : ElseRule}

/-- A phrase of statements is one inside more loops. -/
def Raises (g : ElseRule) : (s : Symbol) → Nat → List Token → s.Tree → Nat → Prop
  | .statement l, a, ts, x, b => ∀ k, l ≤ k → Derives g (.statement k) a ts x b
  | .declaration l, a, ts, x, b => ∀ k, l ≤ k → Derives g (.declaration k) a ts x b
  | .declarations l, a, ts, x, b => ∀ k, l ≤ k → Derives g (.declarations k) a ts x b
  | _, _, _, _, _ => True

theorem derives_raises {s : Symbol} {a b : Nat} {ts : List Token} {x : s.Tree}
    (h : Derives g s a ts x b) : Raises g s a ts x b := by
  induction h with
  | simple h => exact fun _ _ => .simple h
  | forLoop ht hp hinit hcond hu hinc hq _ _ _ _ ih =>
    exact fun k hk => .forLoop ht hp hinit hcond hu hinc hq (ih _ (Nat.succ_le_succ hk))
  | whileLoop ht hp hcond hq _ _ ih =>
    exact fun k hk => .whileLoop ht hp hcond hq (ih _ (Nat.succ_le_succ hk))
  | branch ht hp hcond hq _ _ ih => exact fun k hk => .branch ht hp hcond hq (ih k hk)
  | branchElse ht hp hcond hq _ hu _ hopen _ ihy ihn =>
    exact fun k hk => .branchElse ht hp hcond hq (ihy k hk) hu (ihn k hk) hopen
  | block ht _ hu ih => exact fun k hk => .block ht (ih k hk) hu
  | ret ht hvalue hu => exact fun _ _ => .ret ht hvalue hu
  | leave ht hu hl => exact fun _ hk => .leave ht hu (Nat.lt_of_lt_of_le hl hk)
  | next ht hu hl => exact fun _ hk => .next ht hu (Nat.lt_of_lt_of_le hl hk)
  | classDecl ht hn hsup ho hms hu => exact fun _ _ => .classDecl ht hn hsup ho hms hu
  | funDecl ht hf => exact fun _ _ => .funDecl ht hf
  | varDecl ht hs => exact fun _ _ => .varDecl ht hs
  | statement _ ih => exact fun k hk => .statement (ih k hk)
  | noDeclarations => exact fun _ _ => .noDeclarations
  | moreDeclarations _ _ ihs ihss => exact fun k hk => .moreDeclarations (ihs k hk) (ihss k hk)
  | _ => trivial

theorem statement_raise {l k a b : Nat} {ts : List Token} {s : Stmt}
    (h : Derives g (.statement l) a ts s b) (hk : l ≤ k) : Derives g (.statement k) a ts s b :=
  derives_raises h k hk

end Raise

/-- Where an `else` may stand behind a phrase that is a statement with an open end. -/
def Attaches : (s : Symbol) → Nat → List Token → s.Tree → Nat → Prop
  | .statement l, a, ts, x, b => EndsOpen x → ∀ (u : Token) us no c, u.kind = .kwElse →
      Derives .nearest (.statement l) b us no c →
      ∃ z, Derives .nearest (.statement l) a (ts ++ u :: us) z c
  | _, _, _, _, _ => True

theorem attach {s : Symbol} {a b : Nat} {ts : List Token} {x : s.Tree}
    (h : Derives .nearest s a ts x b) : Attaches s a ts x b := by
  induction h with
  | @branch a b c l t p ts cond q ss yes ht hp hcond hq hyes _ ih =>
    intro _ u us no d hu hno
    by_cases hopen : EndsOpen yes
    · obtain ⟨z, hz⟩ := ih hopen u us no d hu hno
      exact ⟨_, by simpa using Derives.branch ht hp hcond hq hz⟩
    · exact ⟨_, by simpa using Derives.branchElse ht hp hcond hq hyes hu hno fun _ => hopen⟩
  | branchElse ht hp hcond hq hyes hv _ hopen _ _ ih =>
    intro hend u us no d hu hno
    obtain ⟨z, hz⟩ := ih hend u us no d hu hno
    exact ⟨_, by simpa using Derives.branchElse ht hp hcond hq hyes hv hz hopen⟩
  | whileLoop ht hp hcond hq _ _ ih =>
    intro hend u us no d hu hno
    obtain ⟨z, hz⟩ := ih hend u us no d hu (statement_raise hno (Nat.le_succ _))
    exact ⟨_, by simpa using Derives.whileLoop ht hp hcond hq hz⟩
  | forLoop ht hp hinit hcond hv hinc hq _ _ _ _ ih =>
    intro hend u us no d hu hno
    obtain ⟨z, hz⟩ := ih hend u us no d hu (statement_raise hno (Nat.le_succ _))
    exact ⟨_, by simpa using Derives.forLoop ht hp hinit hcond hv hinc hq hz⟩
  | simple h => cases h; exact fun hend => hend.elim
  | block | ret | leave | next => exact fun hend => hend.elim
  | _ => trivial

/-- Two trees of a symbol that count the same towards a limit. -/
def SameCount : (s : Symbol) → s.Tree → s.Tree → Prop
  | .arguments, x, y | .argumentList, x, y => x.length = y.length
  | .names, x, y | .parameterList, x, y => x = y
  | _, _, _ => True

theorem Assigned.retarget {target value w : Expr} {eq : Token} (h : Assigned target eq value w)
    (target' value' : Expr) : ∃ w', Assigned target' eq value' w' := by
  cases h with
  | plain h => exact ⟨_, .plain h⟩
  | joined h => exact ⟨_, .joined h⟩

/-- **The same tokens are phrases with each `else` at the nearest `if`.** -/
theorem derives_nearest {s : Symbol} {a b : Nat} {ts : List Token} {x : s.Tree}
    (h : Derives .any s a ts x b) : ∃ y, Derives .nearest s a ts y b ∧ SameCount s x y := by
  induction h with
  | literal h => exact ⟨_, .literal h, trivial⟩
  | this h => exact ⟨_, .this h, trivial⟩
  | super ht hd hm => exact ⟨_, .super ht hd hm, trivial⟩
  | name h => exact ⟨_, .name h, trivial⟩
  | lambda h _ ih =>
    obtain ⟨c, hc, -⟩ := ih
    exact ⟨_, .lambda h hc, trivial⟩
  | group ht _ hu ih =>
    obtain ⟨e, he, -⟩ := ih
    exact ⟨_, .group ht he hu, trivial⟩
  | callee _ ih =>
    obtain ⟨e, he, -⟩ := ih
    exact ⟨_, .callee he, trivial⟩
  | apply _ hp _ hq ihe iha =>
    obtain ⟨e, he, -⟩ := ihe
    obtain ⟨es, hes, -⟩ := iha
    exact ⟨_, .apply he hp hes hq, trivial⟩
  | property _ hd hn ih =>
    obtain ⟨e, he, -⟩ := ih
    exact ⟨_, .property he hd hn, trivial⟩
  | lastArgument _ ih =>
    obtain ⟨e, he, -⟩ := ih
    exact ⟨_, .lastArgument he, rfl⟩
  | moreArguments _ ht _ ihe ihes =>
    obtain ⟨e, he, -⟩ := ihe
    obtain ⟨es, hes, hlen⟩ := ihes
    exact ⟨_, .moreArguments he ht hes, congrArg Nat.succ hlen⟩
  | noArguments => exact ⟨_, .noArguments, rfl⟩
  | someArguments _ hlimit ih =>
    obtain ⟨es, hes, hlen⟩ := ih
    exact ⟨_, .someArguments hes (hlen ▸ hlimit), hlen⟩
  | sign hop _ ih =>
    obtain ⟨e, he, -⟩ := ih
    exact ⟨_, .sign hop he, trivial⟩
  | unsigned _ ih =>
    obtain ⟨e, he, -⟩ := ih
    exact ⟨_, .unsigned he, trivial⟩
  | tightest _ ih =>
    obtain ⟨e, he, -⟩ := ih
    exact ⟨_, .tightest he, trivial⟩
  | tighter _ ih =>
    obtain ⟨e, he, -⟩ := ih
    exact ⟨_, .tighter he, trivial⟩
  | single _ ih =>
    obtain ⟨e, he, -⟩ := ih
    exact ⟨_, .single he, trivial⟩
  | join _ hop _ ihl ihr =>
    obtain ⟨l, hl, -⟩ := ihl
    obtain ⟨r, hr, -⟩ := ihr
    exact ⟨_, .join hl hop hr, trivial⟩
  | choice _ hq _ hu _ ihe ihy ihn =>
    obtain ⟨e, he, -⟩ := ihe
    obtain ⟨y, hy, -⟩ := ihy
    obtain ⟨n, hn, -⟩ := ihn
    exact ⟨_, .choice he hq hy hu hn, trivial⟩
  | noChoice _ ih =>
    obtain ⟨e, he, -⟩ := ih
    exact ⟨_, .noChoice he, trivial⟩
  | assign hn _ hw ih =>
    obtain ⟨v, hv, -⟩ := ih
    obtain ⟨w, hw⟩ := hw.retarget _ v
    exact ⟨_, .assign hn hv hw, trivial⟩
  | @set _ _ _ _ e _ n _ _ _ _ _ hd hn _ hw ihe ihv =>
    obtain ⟨e, he, -⟩ := ihe
    obtain ⟨v, hv, -⟩ := ihv
    obtain ⟨w, hw⟩ := hw.retarget (.get e n) v
    exact ⟨_, .set he hd hn hv hw, trivial⟩
  | noAssignment _ ih =>
    obtain ⟨e, he, -⟩ := ih
    exact ⟨_, .noAssignment he, trivial⟩
  | oneAssignment _ ih =>
    obtain ⟨e, he, -⟩ := ih
    exact ⟨_, .oneAssignment he, trivial⟩
  | comma _ hop _ ihl ihr =>
    obtain ⟨l, hl, -⟩ := ihl
    obtain ⟨r, hr, -⟩ := ihr
    exact ⟨_, .comma hl hop hr, trivial⟩
  | noExpression => exact ⟨_, .noExpression, trivial⟩
  | someExpression _ ih =>
    obtain ⟨e, he, -⟩ := ih
    exact ⟨_, .someExpression he, trivial⟩
  | lastName h => exact ⟨_, .lastName h, rfl⟩
  | moreNames hn ht _ ih =>
    obtain ⟨ns, hns, rfl⟩ := ih
    exact ⟨_, .moreNames hn ht hns, rfl⟩
  | noParameters => exact ⟨_, .noParameters, rfl⟩
  | someParameters _ hlimit ih =>
    obtain ⟨ns, hns, rfl⟩ := ih
    exact ⟨_, .someParameters hns hlimit, rfl⟩
  | code hp _ hq ho _ hu ihn ihb =>
    obtain ⟨ns, hns, -⟩ := ihn
    obtain ⟨body, hbody, -⟩ := ihb
    exact ⟨_, .code hp hns hq ho hbody hu, trivial⟩
  | function hn _ ih =>
    obtain ⟨c, hc, -⟩ := ih
    exact ⟨_, .function hn hc, trivial⟩
  | noMethods => exact ⟨_, .noMethods, trivial⟩
  | moreMethods _ _ ihf ihfs =>
    obtain ⟨f, hf, -⟩ := ihf
    obtain ⟨fs, hfs, -⟩ := ihfs
    exact ⟨_, .moreMethods hf hfs, trivial⟩
  | noSuperclass => exact ⟨_, .noSuperclass, trivial⟩
  | superclass ht hn => exact ⟨_, .superclass ht hn, trivial⟩
  | expressionStatement _ ht ih =>
    obtain ⟨e, he, -⟩ := ih
    exact ⟨_, .expressionStatement he ht, trivial⟩
  | bareVariable hn ht => exact ⟨_, .bareVariable hn ht, trivial⟩
  | initializedVariable hn heq _ ht ih =>
    obtain ⟨e, he, -⟩ := ih
    exact ⟨_, .initializedVariable hn heq he ht, trivial⟩
  | noStart h => exact ⟨_, .noStart h, trivial⟩
  | variableStart ht _ ih =>
    obtain ⟨s, hs, -⟩ := ih
    exact ⟨_, .variableStart ht hs, trivial⟩
  | expressionStart _ ih =>
    obtain ⟨s, hs, -⟩ := ih
    exact ⟨_, .expressionStart hs, trivial⟩
  | simple _ ih =>
    obtain ⟨s, hs, -⟩ := ih
    exact ⟨_, .simple hs, trivial⟩
  | forLoop ht hp _ _ hu _ hq _ ihi ihc ihn ihb =>
    obtain ⟨init, hinit, -⟩ := ihi
    obtain ⟨cond, hcond, -⟩ := ihc
    obtain ⟨inc, hinc, -⟩ := ihn
    obtain ⟨body, hbody, -⟩ := ihb
    exact ⟨_, .forLoop ht hp hinit hcond hu hinc hq hbody, trivial⟩
  | whileLoop ht hp _ hq _ ihc ihb =>
    obtain ⟨cond, hcond, -⟩ := ihc
    obtain ⟨body, hbody, -⟩ := ihb
    exact ⟨_, .whileLoop ht hp hcond hq hbody, trivial⟩
  | branch ht hp _ hq _ ihc ihy =>
    obtain ⟨cond, hcond, -⟩ := ihc
    obtain ⟨yes, hyes, -⟩ := ihy
    exact ⟨_, .branch ht hp hcond hq hyes, trivial⟩
  | branchElse ht hp _ hq _ hu _ _ ihc ihy ihn =>
    obtain ⟨cond, hcond, -⟩ := ihc
    obtain ⟨yes, hyes, -⟩ := ihy
    obtain ⟨no, hno, -⟩ := ihn
    by_cases hopen : EndsOpen yes
    · -- an `if` further in takes the `else`, and this one is left without
      obtain ⟨z, hz⟩ := attach hyes hopen _ _ _ _ hu hno
      exact ⟨_, .branch ht hp hcond hq hz, trivial⟩
    · exact ⟨_, .branchElse ht hp hcond hq hyes hu hno fun _ => hopen, trivial⟩
  | block ht _ hu ih =>
    obtain ⟨body, hbody, -⟩ := ih
    exact ⟨_, .block ht hbody hu, trivial⟩
  | ret ht _ hu ih =>
    obtain ⟨value, hvalue, -⟩ := ih
    exact ⟨_, .ret ht hvalue hu, trivial⟩
  | leave ht hu hl => exact ⟨_, .leave ht hu hl, trivial⟩
  | next ht hu hl => exact ⟨_, .next ht hu hl, trivial⟩
  | classDecl ht hn _ ho _ hu ihs ihm =>
    obtain ⟨sup, hsup, -⟩ := ihs
    obtain ⟨ms, hms, -⟩ := ihm
    exact ⟨_, .classDecl ht hn hsup ho hms hu, trivial⟩
  | funDecl ht _ ih =>
    obtain ⟨f, hf, -⟩ := ih
    exact ⟨_, .funDecl ht hf, trivial⟩
  | varDecl ht _ ih =>
    obtain ⟨s, hs, -⟩ := ih
    exact ⟨_, .varDecl ht hs, trivial⟩
  | statement _ ih =>
    obtain ⟨s, hs, -⟩ := ih
    exact ⟨_, .statement hs, trivial⟩
  | noDeclarations => exact ⟨_, .noDeclarations, trivial⟩
  | moreDeclarations _ _ ihs ihss =>
    obtain ⟨s, hs, -⟩ := ihs
    obtain ⟨ss, hss, -⟩ := ihss
    exact ⟨_, .moreDeclarations hs hss, trivial⟩

end Lox.Syntax
