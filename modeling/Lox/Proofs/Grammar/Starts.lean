import Lox.Proofs.Grammar.Rules

/-!
# What phrases start with and what ends them

One token is enough to tell which rule comes next. This file says which tokens stand in front of a
phrase (`Starts`, `derives_starts`), and which tokens behind a phrase would still belong to it
(`goesOn` and its like; `Stops` says that none of them is there).
-/

namespace Lox.Syntax

/-! ## 1. In front -/

/-- Whether a kind of token starts a primary. -/
def startsPrimary : Token.Kind → Bool
  | .kwFalse | .kwTrue | .kwNil | .number _ | .string _ | .kwThis | .kwSuper | .identifier
  | .kwFun | .leftParen => true
  | _ => false

/-- Whether a kind of token starts an expression. -/
def startsExpression (k : Token.Kind) : Bool := k = .bang || k = .minus || startsPrimary k

/-- Whether a kind of token starts a statement that is no expression. -/
def startsSpecial : Token.Kind → Bool
  | .kwFor | .kwIf | .kwReturn | .kwWhile | .leftBrace | .kwBreak | .kwContinue => true
  | _ => false

/-- Some tokens start with one that satisfies `p`; if that is `fun`, a parenthesis follows. -/
def StartsWith (p : Token.Kind → Bool) (ts : List Token) : Prop :=
  ∃ t us, ts = t :: us ∧ p t.kind = true ∧
    (t.kind = .kwFun → ∃ u vs, us = u :: vs ∧ u.kind = .leftParen)

theorem StartsWith.append {p : Token.Kind → Bool} {ts us : List Token} (h : StartsWith p ts) :
    StartsWith p (ts ++ us) := by
  obtain ⟨t, vs, rfl, hp, hfun⟩ := h
  refine ⟨t, vs ++ us, rfl, hp, fun ht => ?_⟩
  obtain ⟨u, ws, rfl, hu⟩ := hfun ht
  exact ⟨u, ws ++ us, rfl, hu⟩

theorem StartsWith.mono {p q : Token.Kind → Bool} {ts : List Token} (h : StartsWith p ts)
    (hpq : ∀ k, p k = true → q k = true) : StartsWith q ts := by
  obtain ⟨t, us, e, hp, hfun⟩ := h
  exact ⟨t, us, e, hpq _ hp, hfun⟩

/-- Whether a kind of token starts a statement that declares nothing. -/
def startsSimple (k : Token.Kind) : Bool := startsSpecial k || startsExpression k

/-- Whether a kind of token starts a declaration or a statement. -/
def startsDeclaration (k : Token.Kind) : Bool :=
  k = .kwClass || k = .kwFun || k = .kwVar || startsSimple k

/-- What the phrases of a symbol start with. -/
def Starts : Symbol → List Token → Prop
  | .primary, ts | .call, ts => StartsWith startsPrimary ts
  | .unary, ts | .within _, ts | .operand _, ts | .conditional, ts | .assignment, ts
  | .expression, ts | .arguments, ts | .expressionStatement, ts => StartsWith startsExpression ts
  | .code, ts => ∃ t us, ts = t :: us ∧ t.kind = .leftParen
  | .function, ts | .names, ts => ∃ t us, ts = t :: us ∧ t.kind = .identifier
  | .statement _, ts => StartsWith startsSimple ts
  | .declaration _, ts => ∃ t us, ts = t :: us ∧ startsDeclaration t.kind = true
  | .declarations _, ts => ts = [] ∨ ∃ t us, ts = t :: us ∧ startsDeclaration t.kind = true
  | _, _ => True

theorem startsPrimary_of_literalOf? {k : Token.Kind} {l : Literal} (h : literalOf? k = some l) :
    startsPrimary k = true ∧ k ≠ .kwFun := by
  unfold literalOf? at h
  split at h <;> first | exact ⟨rfl, fun h => nomatch h⟩ | cases h

theorem startsExpression_of_primary {k : Token.Kind} (h : startsPrimary k = true) :
    startsExpression k = true := by simp [startsExpression, h]

theorem startsWith_of_ne {p : Token.Kind → Bool} {t : Token} {us : List Token}
    (hp : p t.kind = true) (ht : t.kind ≠ .kwFun) : StartsWith p (t :: us) :=
  ⟨t, us, rfl, hp, fun h => absurd h ht⟩

/-- **What a phrase starts with.** -/
theorem derives_starts {g : ElseRule} {s : Symbol} {a b : Nat} {ts : List Token} {x : s.Tree}
    (h : Derives g s a ts x b) : Starts s ts := by
  induction h with
  | literal h =>
    exact startsWith_of_ne (startsPrimary_of_literalOf? h).1 (startsPrimary_of_literalOf? h).2
  | this h | name h | super h | group h =>
    exact startsWith_of_ne (by rw [h]; rfl) (by rw [h]; exact fun h => nomatch h)
  | lambda h _ ih =>
    obtain ⟨u, vs, rfl, hu⟩ := ih
    exact ⟨_, _, rfl, by rw [h]; rfl, fun _ => ⟨u, vs, rfl, hu⟩⟩
  | callee _ ih | tightest _ ih | tighter _ ih | single _ ih | noChoice _ ih | noAssignment _ ih
  | oneAssignment _ ih | lastArgument _ ih => exact ih
  | apply _ _ _ _ ih | property _ _ _ ih | moreArguments _ _ _ ih | join _ _ _ ih
  | choice _ _ _ _ _ ih | comma _ _ _ ih | expressionStatement _ _ ih => exact ih.append
  | sign hop =>
    rcases hop with h | h <;>
      exact startsWith_of_ne (by rw [h]; rfl) (by rw [h]; exact fun h => nomatch h)
  | unsigned _ ih => exact ih.mono fun _ => startsExpression_of_primary
  | assign hn => exact startsWith_of_ne (by rw [hn]; rfl) (by rw [hn]; exact fun h => nomatch h)
  | set _ _ _ _ _ ih => exact ih.append.mono fun _ => startsExpression_of_primary
  | code hp => exact ⟨_, _, rfl, hp⟩
  | function hn | moreNames hn | lastName hn => exact ⟨_, _, rfl, hn⟩
  | simple _ ih =>
    refine StartsWith.mono (q := startsSimple) ih fun k h => ?_
    rw [startsSimple, h, Bool.or_true]
  | forLoop ht | whileLoop ht | branch ht | branchElse ht | block ht | ret ht | leave ht
  | next ht =>
    exact startsWith_of_ne (p := startsSimple) (by rw [ht]; rfl)
      (by rw [ht]; exact fun h => nomatch h)
  | classDecl ht | funDecl ht | varDecl ht => exact ⟨_, _, rfl, by rw [ht]; rfl⟩
  | statement _ ih =>
    obtain ⟨t, us, rfl, h, -⟩ := ih
    refine ⟨t, us, rfl, ?_⟩
    rw [startsDeclaration, h, Bool.or_true]
  | noDeclarations => exact .inl rfl
  | moreDeclarations _ _ ih =>
    obtain ⟨t, us, rfl, h⟩ := ih
    exact .inr ⟨t, _, rfl, h⟩
  | _ => trivial

/-! ## 2. Behind -/

/-- No token that satisfies `p` is in front. -/
def Stops (p : Token.Kind → Bool) (ts : List Token) : Prop :=
  ∀ t us, ts = t :: us → p t.kind = false

theorem stops_nil (p : Token.Kind → Bool) : Stops p [] := by
  rintro _ _ ⟨⟩

theorem stops_cons {p : Token.Kind → Bool} {t : Token} {ts : List Token} (h : p t.kind = false) :
    Stops p (t :: ts) := by
  rintro _ _ ⟨rfl, rfl⟩
  exact h

theorem Stops.of_or {p q : Token.Kind → Bool} {ts : List Token}
    (h : Stops (fun k => p k || q k) ts) : Stops p ts ∧ Stops q ts :=
  ⟨fun t us e => (Bool.or_eq_false_iff.mp (h t us e)).1,
    fun t us e => (Bool.or_eq_false_iff.mp (h t us e)).2⟩

/-- Whether a kind of token goes on with a call. -/
def goesOnCall (k : Token.Kind) : Bool := k = .leftParen || k = .dot

/-- A level and the tighter ones. -/
def Level.andTighter : Level → List Level
  | .or => [.or, .and, .equality, .comparison, .term, .factor]
  | .and => [.and, .equality, .comparison, .term, .factor]
  | .equality => [.equality, .comparison, .term, .factor]
  | .comparison => [.comparison, .term, .factor]
  | .term => [.term, .factor]
  | .factor => [.factor]

/-- Whether a kind of token goes on with an operand. -/
def goesOnWithin (l : Option Level) (k : Token.Kind) : Bool :=
  (l.elim [] Level.andTighter).any (·.has k) || goesOnCall k

theorem goesOnWithin_some (l : Level) (k : Token.Kind) :
    goesOnWithin (some l) k = (l.has k || goesOnWithin l.tighter? k) := by
  cases l <;> simp [goesOnWithin, Level.andTighter, Level.tighter?, Bool.or_assoc]

/-- Whether a kind of token goes on with a conditional. -/
def goesOnConditional (k : Token.Kind) : Bool := k = .question || goesOnWithin (some .or) k

/-- Whether a kind of token goes on with an assignment. -/
def goesOnAssignment (k : Token.Kind) : Bool := assigns k || goesOnConditional k

/-- Whether a kind of token goes on with an expression. -/
def goesOnExpression (k : Token.Kind) : Bool := k = .comma || goesOnAssignment k

/-- An operator of a level does not go on with an operand of the next. -/
theorem goesOnWithin_of_has {l : Level} {k : Token.Kind} (h : l.has k = true) :
    goesOnWithin l.tighter? k = false := by
  unfold Level.has at h
  split at h <;> first | rfl | cases h

theorem goesOnConditional_of_assigns {k : Token.Kind} (h : assigns k = true) :
    goesOnConditional k = false := by
  unfold assigns at h
  split at h <;> first | rfl | cases h

end Lox.Syntax
