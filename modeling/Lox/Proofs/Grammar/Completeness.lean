import Lox.Proofs.Grammar.Reads
import Lox.Proofs.Grammar.Soundness
import Lox.Proofs.Grammar.Starts

/-!
# What is derived is read

Every phrase that the rules derive, with each `else` at the nearest `if`, is read as its tree and
without a complaint, whatever stands behind it that does not go on with it.

* `Completes eof errs s a ts x b`: how the parser reads the phrase `ts` of `s`. Where a rule groups
  to the left, it comes to the loop that reads the rest.
* `completes`: every derivation is read so. Each rule of the grammar is a lemma of its own, or a case
  where it is only a few lines.
* `parse_complete`: so a program that the rules derive is parsed as its tree.
-/

namespace Lox.Syntax

/-! ## 1. The steps of the cursor on the tokens they look for -/

section Steps

variable {α β : Type} {eof t u : Token} {errs : List SyntaxError} {a b : Nat} {ts us : List Token}
  {s s' : Cursor}

theorem run_bind_ok {p : Parse α} {x : α} (f : α → Parse β) (h : p.run s = (.ok x, s')) :
    (p >>= f).run s = (f x).run s' := by rw [run_bind, h]

theorem run_map_ok {p : Parse α} {x : α} (f : α → β) (h : p.run s = (.ok x, s')) :
    (f <$> p).run s = (.ok (f x), s') := by
  rw [← bind_pure_comp, run_bind_ok _ h, run_pure]

theorem run_accepted {q : Token.Kind → Bool} (h : q t.kind = true) :
    (acceptIf q).run ⟨t :: ts, eof, a, errs⟩ = (.ok (some t), ⟨ts, eof, a, errs⟩) := by
  rw [run_acceptIf_cons q rfl, if_pos h]

theorem run_accept {k : Token.Kind} (h : t.kind = k) :
    (accept k).run ⟨t :: ts, eof, a, errs⟩ = (.ok (some t), ⟨ts, eof, a, errs⟩) :=
  run_accepted (decide_eq_true h)

theorem run_passed {q : Token.Kind → Bool} (h : Stops q ts) :
    (acceptIf q).run ⟨ts, eof, a, errs⟩ = (.ok none, ⟨ts, eof, a, errs⟩) := by
  rcases ts with _ | ⟨t, ts⟩
  · exact run_acceptIf_nil q rfl
  · rw [run_acceptIf_cons q rfl, h t ts rfl]
    rfl

theorem run_expect {k : Token.Kind} (c : Complaint) (h : t.kind = k) :
    (expect k c).run ⟨t :: ts, eof, a, errs⟩ = (.ok t, ⟨ts, eof, a, errs⟩) := by
  unfold expect
  rw [run_bind_ok _ (run_accept h)]
  rfl

theorem run_limit {c : Complaint} {count : Nat} (h : count ≤ maxArguments) :
    (limit c count).run s = (.ok (), s) := by
  unfold limit
  rw [if_neg (Nat.not_lt.mpr h)]
  rfl

theorem run_check_cons {k : Token.Kind} :
    (check k).run ⟨t :: ts, eof, a, errs⟩ = (.ok (t.kind = k : Bool), ⟨t :: ts, eof, a, errs⟩) := rfl

theorem run_checkSecond_cons {k : Token.Kind} :
    (checkSecond k).run ⟨t :: ts, eof, a, errs⟩
      = (.ok (ts.head?.any (·.kind = k)), ⟨t :: ts, eof, a, errs⟩) := by
  cases ts <;> rfl

theorem run_before_none {k : Token.Kind} {p : Parse α} (h : t.kind = k) :
    (before k p).run ⟨t :: ts, eof, a, errs⟩ = (.ok none, ⟨t :: ts, eof, a, errs⟩) := by
  unfold before
  rw [run_bind_ok _ run_check_cons, if_pos (decide_eq_true h)]
  rfl

theorem run_before_some {k : Token.Kind} {p : Parse α} {x : α} (h : t.kind ≠ k)
    (hp : p.run ⟨t :: ts, eof, a, errs⟩ = (.ok x, s')) :
    (before k p).run ⟨t :: ts, eof, a, errs⟩ = (.ok (some x), s') := by
  unfold before
  rw [run_bind_ok _ run_check_cons, if_neg (by simpa using h)]
  exact run_map_ok some hp

theorem run_behind_none {k : Token.Kind} {p : Parse α} (h : Stops (· = k) ts) :
    (behind k p).run ⟨ts, eof, a, errs⟩ = (.ok none, ⟨ts, eof, a, errs⟩) := by
  unfold behind
  rw [accept, run_bind_ok _ (run_passed h)]
  rfl

theorem run_behind_some {k : Token.Kind} {p : Parse α} {x : α} (h : t.kind = k)
    (hp : p.run ⟨ts, eof, a, errs⟩ = (.ok x, s')) :
    (behind k p).run ⟨t :: ts, eof, a, errs⟩ = (.ok (some x), s') := by
  unfold behind
  rw [run_bind_ok _ (run_accept h)]
  exact run_map_ok some hp

theorem assignedValue_of_assigned {target value w : Expr} {equals : Token}
    (h : Assigned target equals value w) :
    assigns equals.kind = true ∧ assignedValue target equals value = w := by
  cases h with
  | plain h =>
    refine ⟨by rw [h]; rfl, ?_⟩
    rw [assignedValue, innerOperator?, h]
  | joined h =>
    simp only [compounds, List.mem_cons, Prod.mk.injEq, List.not_mem_nil, or_false] at h
    rcases h with ⟨h, rfl, rfl⟩ | ⟨h, rfl, rfl⟩ | ⟨h, rfl, rfl⟩ | ⟨h, rfl, rfl⟩ <;>
      exact ⟨by rw [h]; rfl, by rw [assignedValue, innerOperator?, h]⟩

end Steps

/-! ## 2. How a phrase is read -/

/-- How the parser reads the phrase `ts` of a symbol. -/
def Completes (eof : Token) (errs : List SyntaxError) :
    (s : Symbol) → Nat → List Token → s.Tree → Nat → Prop
  | .primary, a, ts, x, b => ∀ n rest, need (ts ++ rest) 1 < n →
      (primary n).run ⟨ts ++ rest, eof, a, errs⟩ = (.ok x, ⟨rest, eof, b, errs⟩)
  | .call, a, ts, x, b => ∀ n rest, need (ts ++ rest) 2 < n → ∃ k, need rest 1 < k ∧
      (unary n).run ⟨ts ++ rest, eof, a, errs⟩ = (moreCalls k x).run ⟨rest, eof, b, errs⟩
  | .unary, a, ts, x, b => ∀ n rest, need (ts ++ rest) 2 < n → Stops goesOnCall rest →
      (unary n).run ⟨ts ++ rest, eof, a, errs⟩ = (.ok x, ⟨rest, eof, b, errs⟩)
  | .within l, a, ts, x, b => ∀ n rest, need (ts ++ rest) (rankWithin l) < n →
      Stops (goesOnWithin l) rest →
      (operandWithin n l).run ⟨ts ++ rest, eof, a, errs⟩ = (.ok x, ⟨rest, eof, b, errs⟩)
  | .operand l, a, ts, x, b => ∀ n rest, need (ts ++ rest) l.rank < n →
      Stops (goesOnWithin l.tighter?) rest → ∃ k, need rest 1 < k ∧
      (operand n l).run ⟨ts ++ rest, eof, a, errs⟩ = (moreOperands k l x).run ⟨rest, eof, b, errs⟩
  | .conditional, a, ts, x, b => ∀ n rest, need (ts ++ rest) 15 < n →
      Stops goesOnConditional rest →
      (conditional n).run ⟨ts ++ rest, eof, a, errs⟩ = (.ok x, ⟨rest, eof, b, errs⟩)
  | .assignment, a, ts, x, b => ∀ n rest, need (ts ++ rest) 16 < n →
      Stops goesOnAssignment rest →
      (assignment n).run ⟨ts ++ rest, eof, a, errs⟩ = (.ok x, ⟨rest, eof, b, errs⟩)
  | .expression, a, ts, x, b => ∀ n rest, need (ts ++ rest) 17 < n →
      Stops goesOnAssignment rest → ∃ k, need rest 1 < k ∧
      (expression n).run ⟨ts ++ rest, eof, a, errs⟩ = (moreAssignments k x).run ⟨rest, eof, b, errs⟩
  | .arguments, a, ts, x, b => ∀ n q rest, q.kind = .rightParen → need (ts ++ q :: rest) 17 < n →
      (arguments n).run ⟨ts ++ q :: rest, eof, a, errs⟩ = (.ok x, ⟨q :: rest, eof, b, errs⟩)
  | .argumentList, a, ts, x, b => ∀ n q rest, q.kind = .rightParen →
      need (ts ++ q :: rest) 17 < n → x.length ≤ maxArguments ∧ ∃ o, o.getD [] = x ∧
      (before .rightParen (arguments n)).run ⟨ts ++ q :: rest, eof, a, errs⟩
        = (.ok o, ⟨q :: rest, eof, b, errs⟩)
  | .optionalExpression, a, ts, x, b => ∀ k n q rest, q.kind = k → k = .semicolon ∨ k = .rightParen →
      need (ts ++ q :: rest) 17 < n →
      (before k (expression n)).run ⟨ts ++ q :: rest, eof, a, errs⟩
        = (.ok x, ⟨q :: rest, eof, b, errs⟩)
  | .names, a, ts, x, b => ∀ n q rest, q.kind = .rightParen → need (ts ++ q :: rest) 1 < n →
      (parameterNames n).run ⟨ts ++ q :: rest, eof, a, errs⟩ = (.ok x, ⟨q :: rest, eof, b, errs⟩)
  | .parameterList, a, ts, x, b => ∀ n q rest, q.kind = .rightParen → need (ts ++ q :: rest) 1 < n →
      (parameters n).run ⟨ts ++ q :: rest, eof, a, errs⟩ = (.ok x, ⟨rest, eof, b, errs⟩)
  | .code, a, ts, x, b => ∀ f n rest, need (ts ++ rest) 1 < n →
      (code n f).run ⟨ts ++ rest, eof, a, errs⟩ = (.ok x, ⟨rest, eof, b, errs⟩)
  | .function, a, ts, x, b => ∀ f n rest, need (ts ++ rest) 1 < n →
      (funDecl n f).run ⟨ts ++ rest, eof, a, errs⟩ = (.ok x, ⟨rest, eof, b, errs⟩)
  | .methods, a, ts, x, b => ∀ n q rest, q.kind = .rightBrace → need (ts ++ q :: rest) 2 < n →
      (methodsRest n).run ⟨ts ++ q :: rest, eof, a, errs⟩ = (.ok x, ⟨q :: rest, eof, b, errs⟩)
  | .superclass, a, ts, x, b => ∀ q rest, q.kind = .leftBrace →
      (behind .less superclassName).run ⟨ts ++ q :: rest, eof, a, errs⟩
        = (.ok x, ⟨q :: rest, eof, b, errs⟩)
  | .variable, a, ts, x, b => ∀ n rest, need (ts ++ rest) 1 < n →
      (varDecl n).run ⟨ts ++ rest, eof, a, errs⟩ = (.ok x, ⟨rest, eof, b, errs⟩)
  | .expressionStatement, a, ts, x, b => ∀ n rest, need (ts ++ rest) 18 < n →
      (exprStatement n).run ⟨ts ++ rest, eof, a, errs⟩ = (.ok x, ⟨rest, eof, b, errs⟩)
  | .loopStart, a, ts, x, b => ∀ n rest, need (ts ++ rest) 19 < n →
      (forInit n).run ⟨ts ++ rest, eof, a, errs⟩ = (.ok x, ⟨rest, eof, b, errs⟩)
  | .statement loops, a, ts, x, b => ∀ n rest, need (ts ++ rest) 19 < n →
      (EndsOpen x → Stops (· = .kwElse) rest) →
      (statement n loops).run ⟨ts ++ rest, eof, a, errs⟩ = (.ok x, ⟨rest, eof, b, errs⟩)
  | .declaration loops, a, ts, x, b => ∀ n rest, need (ts ++ rest) 20 < n →
      (EndsOpen x → Stops (· = .kwElse) rest) →
      (declarationOrFail n loops).run ⟨ts ++ rest, eof, a, errs⟩ = (.ok x, ⟨rest, eof, b, errs⟩)
  | .declarations loops, a, ts, x, b =>
      (∀ n q rest, q.kind = .rightBrace → need (ts ++ q :: rest) 22 < n →
        (declarations n loops).run ⟨ts ++ q :: rest, eof, a, errs⟩
          = (.ok x, ⟨q :: rest, eof, b, errs⟩)) ∧
      (loops = 0 → ∀ n, need ts 22 < n →
        (program n).run ⟨ts, eof, a, errs⟩ = (.ok x, ⟨[], eof, b, errs⟩))

/-! ## 3. Expressions -/

section Expressions

variable {g : ElseRule} {eof t u : Token} {errs : List SyntaxError} {a b c d : Nat}
  {ts us vs : List Token} {e e' : Expr}

theorem StartsWith.length_pos {p : Token.Kind → Bool} (h : StartsWith p ts) : 0 < ts.length := by
  obtain ⟨_, _, rfl, -⟩ := h
  exact Nat.zero_lt_succ _

/-- A call that nothing goes on with is a unary. -/
theorem completes_unsigned (ih : Completes eof errs .call a ts e b) :
    Completes eof errs .unary a ts e b := fun n rest hn hstop => by
  obtain ⟨k, hk, hrun⟩ := ih n rest hn
  rw [hrun]
  obtain ⟨k, rfl⟩ : ∃ j, k = j + 1 := ⟨k - 1, by omega⟩
  obtain ⟨hparen, hdot⟩ := hstop.of_or
  rw [moreCalls, accept, run_bind_ok _ (run_passed hparen)]
  show (accept .dot >>= _).run _ = _
  rw [accept, run_bind_ok _ (run_passed hdot)]
  rfl

theorem completes_tightest (ih : Completes eof errs .unary a ts e b) :
    Completes eof errs (.within none) a ts e b := fun n rest hn hstop => by
  obtain ⟨n, rfl⟩ : ∃ j, n = j + 1 := ⟨n - 1, by omega⟩
  rw [operandWithin]
  refine ih n rest ?_ hstop
  simp only [need, rankWithin] at hn ⊢
  omega

/-- Operands that nothing goes on with. -/
theorem run_operand {l : Level} {n : Nat} {rest : List Token}
    (ih : Completes eof errs (.operand l) a ts e b) (hn : need (ts ++ rest) l.rank < n)
    (hstop : Stops (goesOnWithin (some l)) rest) :
    (operand n l).run ⟨ts ++ rest, eof, a, errs⟩ = (.ok e, ⟨rest, eof, b, errs⟩) := by
  have hor : Stops (fun k => l.has k || goesOnWithin l.tighter? k) rest := fun t us e =>
    (goesOnWithin_some l t.kind).symm.trans (hstop t us e)
  obtain ⟨k, hk, hrun⟩ := ih n rest hn hor.of_or.2
  rw [hrun]
  obtain ⟨k, rfl⟩ : ∃ j, k = j + 1 := ⟨k - 1, by omega⟩
  rw [moreOperands, run_bind_ok _ (run_passed hor.of_or.1)]
  rfl

theorem completes_tighter {l : Level} (ih : Completes eof errs (.operand l) a ts e b) :
    Completes eof errs (.within (some l)) a ts e b := fun n rest hn hstop => by
  obtain ⟨n, rfl⟩ : ∃ j, n = j + 1 := ⟨n - 1, by omega⟩
  rw [operandWithin]
  refine run_operand ih ?_ hstop
  simp only [need, rankWithin] at hn ⊢
  omega

theorem completes_single {l : Level} (hpos : 0 < ts.length)
    (ih : Completes eof errs (.within l.tighter?) a ts e b) :
    Completes eof errs (.operand l) a ts e b := fun n rest hn hstop => by
  obtain ⟨n, rfl⟩ : ∃ j, n = j + 1 := ⟨n - 1, by omega⟩
  have hrank := rank_tighter l
  refine ⟨n, ?_, ?_⟩
  · simp only [need, List.length_append] at hn ⊢
    omega
  · rw [operand, run_bind_ok _ (ih n rest ?_ hstop)]
    unfold need at hn ⊢
    omega

theorem completes_join {l : Level} {op : Token}
    (hl : Completes eof errs (.operand l) a ts e b) (hop : l.has op.kind = true)
    (hpos : 0 < us.length) (hr : Completes eof errs (.within l.tighter?) b us e' c) :
    Completes eof errs (.operand l) a (ts ++ op :: us) (l.join e op e') c :=
  fun n rest hn hstop => by
  have happ : (ts ++ op :: us) ++ rest = ts ++ op :: (us ++ rest) := by simp
  rw [happ] at hn ⊢
  obtain ⟨k, hk, hrun⟩ := hl n _ hn (stops_cons (goesOnWithin_of_has hop))
  obtain ⟨k, rfl⟩ : ∃ j, k = j + 1 := ⟨k - 1, by omega⟩
  refine ⟨k, ?_, ?_⟩
  · simp only [need, List.length_append, List.length_cons] at hk ⊢
    omega
  · rw [hrun, moreOperands, run_bind_ok _ (run_accepted hop)]
    refine run_bind_ok _ (hr k rest ?_ hstop)
    have hrank := rankWithin_le l.tighter?
    simp only [need, List.length_cons] at hk ⊢
    omega

/-- Operands that nothing goes on with are a conditional. -/
theorem completes_noChoice (ih : Completes eof errs (.operand .or) a ts e b) :
    Completes eof errs .conditional a ts e b := fun n rest hn hstop => by
  obtain ⟨n, rfl⟩ : ∃ j, n = j + 1 := ⟨n - 1, by omega⟩
  obtain ⟨hquestion, hor⟩ := hstop.of_or
  have hn' : need (ts ++ rest) Level.or.rank < n := by
    simp only [need, Level.rank] at hn ⊢
    omega
  rw [conditional, run_bind_ok _ (run_operand ih hn' hor), accept,
    run_bind_ok _ (run_passed hquestion)]
  rfl

/-- An expression that nothing goes on with. -/
theorem run_expression {n : Nat} {rest : List Token}
    (ih : Completes eof errs .expression a ts e b) (hn : need (ts ++ rest) 17 < n)
    (hstop : Stops goesOnExpression rest) :
    (expression n).run ⟨ts ++ rest, eof, a, errs⟩ = (.ok e, ⟨rest, eof, b, errs⟩) := by
  obtain ⟨hcomma, hstop⟩ := hstop.of_or
  obtain ⟨k, hk, hrun⟩ := ih n rest hn hstop
  rw [hrun]
  obtain ⟨k, rfl⟩ : ∃ j, k = j + 1 := ⟨k - 1, by omega⟩
  rw [moreAssignments, accept, run_bind_ok _ (run_passed hcomma)]
  rfl

theorem completes_choice {q : Token} {yes no : Expr}
    (he : Completes eof errs (.operand .or) a ts e b) (hq : q.kind = .question)
    (hyes : Completes eof errs .expression b us yes c) (hu : u.kind = .colon)
    (hno : Completes eof errs .conditional c vs no d) :
    Completes eof errs .conditional a (ts ++ q :: (us ++ u :: vs)) (.conditional e yes no) d :=
  fun n rest hn hstop => by
  obtain ⟨n, rfl⟩ : ∃ j, n = j + 1 := ⟨n - 1, by omega⟩
  have happ : (ts ++ q :: (us ++ u :: vs)) ++ rest = ts ++ q :: (us ++ u :: (vs ++ rest)) := by
    simp
  rw [happ] at hn ⊢
  simp only [need, List.length_append, List.length_cons] at hn
  rw [conditional, run_bind_ok _ (run_operand he ?_ (stops_cons (by rw [hq]; rfl))),
    run_bind_ok _ (run_accept hq)]
  · show (expression n >>= _).run _ = _
    rw [run_bind_ok _ (run_expression hyes ?_ (stops_cons (by rw [hu]; rfl))),
      run_bind_ok _ (run_expect _ hu), run_bind_ok _ (hno n rest ?_ hstop)]
    · rfl
    all_goals
      simp only [need, List.length_append, List.length_cons]
      omega
  · simp only [need, List.length_append, List.length_cons, Level.rank]
    omega

/-- A call that nothing goes on with is a conditional. -/
theorem conditional_of_call (hpos : 0 < ts.length) (h : Completes eof errs .call a ts e b) :
    Completes eof errs .conditional a ts e b := by
  have hfactor : Completes eof errs (.operand .factor) a ts e b :=
    completes_single hpos (completes_tightest (completes_unsigned h))
  have hterm : Completes eof errs (.operand .term) a ts e b :=
    completes_single hpos (completes_tighter hfactor)
  have hcomparison : Completes eof errs (.operand .comparison) a ts e b :=
    completes_single hpos (completes_tighter hterm)
  have hequality : Completes eof errs (.operand .equality) a ts e b :=
    completes_single hpos (completes_tighter hcomparison)
  have hand : Completes eof errs (.operand .and) a ts e b :=
    completes_single hpos (completes_tighter hequality)
  exact completes_noChoice (completes_single hpos (completes_tighter hand))

theorem completes_noAssignment (ih : Completes eof errs .conditional a ts e b) :
    Completes eof errs .assignment a ts e b := fun n rest hn hstop => by
  obtain ⟨n, rfl⟩ : ∃ j, n = j + 1 := ⟨n - 1, by omega⟩
  obtain ⟨hassigns, hstop⟩ := hstop.of_or
  rw [assignment, run_bind_ok _ (ih n rest ?_ hstop), run_bind_ok _ (run_passed hassigns)]
  · rfl
  · unfold need at hn ⊢
    omega

/-- **An assignment** to what is read as the call `ts`. -/
theorem run_assignment {n : Nat} {eq : Token} {rest : List Token} {v w : Expr}
    (he : Completes eof errs .call a ts e b) (hpos : 0 < ts.length)
    (hw : Assigned e eq v w) (hv : Completes eof errs .assignment b us v c)
    (hn : need (ts ++ eq :: (us ++ rest)) 16 < n) (hstop : Stops goesOnAssignment rest) :
    (assignment n).run ⟨ts ++ eq :: (us ++ rest), eof, a, errs⟩
      = (assignTo e eq w).run ⟨rest, eof, c, errs⟩ := by
  obtain ⟨n, rfl⟩ : ∃ j, n = j + 1 := ⟨n - 1, by omega⟩
  obtain ⟨heq, rfl⟩ := assignedValue_of_assigned hw
  simp only [need, List.length_append, List.length_cons] at hn
  rw [assignment, run_bind_ok _ (conditional_of_call hpos he n _ ?_
    (stops_cons (goesOnConditional_of_assigns heq))), run_bind_ok _ (run_accepted heq)]
  · refine run_bind_ok _ (hv n rest ?_ hstop)
    simp only [need, List.length_append]
    omega
  · simp only [need, List.length_append, List.length_cons]
    omega

theorem completes_literal {l : Literal} (h : literalOf? t.kind = some l) :
    Completes eof errs .primary a [t] (.literal l) a := fun n rest hn => by
  obtain ⟨n, rfl⟩ : ∃ j, n = j + 1 := ⟨n - 1, by omega⟩
  rcases t with ⟨k, lexeme, pos⟩
  rw [primary]
  cases k <;> cases h <;> rfl

theorem completes_name (h : t.kind = .identifier) :
    Completes eof errs .primary a [t] (.read ⟨⟨a⟩, t⟩) (a + 1) := fun n rest hn => by
  obtain ⟨n, rfl⟩ : ∃ j, n = j + 1 := ⟨n - 1, by omega⟩
  rcases t with ⟨k, lexeme, pos⟩
  obtain rfl := h
  rw [primary]
  rfl

theorem completes_this (h : t.kind = .kwThis) :
    Completes eof errs .primary a [t] (.this ⟨⟨a⟩, t⟩) (a + 1) := fun n rest hn => by
  obtain ⟨n, rfl⟩ : ∃ j, n = j + 1 := ⟨n - 1, by omega⟩
  rcases t with ⟨k, lexeme, pos⟩
  obtain rfl := h
  rw [primary]
  rfl

theorem completes_super {m : Token} (ht : t.kind = .kwSuper) (hu : u.kind = .dot)
    (hm : m.kind = .identifier) :
    Completes eof errs .primary a [t, u, m] (.super ⟨⟨a⟩, t⟩ m) (a + 1) := fun n rest hn => by
  obtain ⟨n, rfl⟩ : ∃ j, n = j + 1 := ⟨n - 1, by omega⟩
  rcases t with ⟨k, lexeme, pos⟩
  obtain rfl := ht
  rw [primary]
  show (expect .dot .superDot >>= _).run ⟨u :: m :: rest, eof, a, errs⟩ = _
  rw [run_bind_ok _ (run_expect _ hu), run_bind_ok _ (run_expect _ hm)]
  rfl

theorem completes_lambda {c : Code} (h : t.kind = .kwFun) (hc : Completes eof errs .code a ts c b) :
    Completes eof errs .primary a (t :: ts) (.lambda c) b := fun n rest hn => by
  obtain ⟨n, rfl⟩ : ∃ j, n = j + 1 := ⟨n - 1, by omega⟩
  rcases t with ⟨k, lexeme, pos⟩
  obtain rfl := h
  rw [primary]
  show (code n .lambda >>= _).run ⟨ts ++ rest, eof, a, errs⟩ = _
  rw [run_bind_ok _ (hc .lambda n rest ?_)]
  · rfl
  · simp only [need, List.length_append, List.length_cons] at hn ⊢
    omega

theorem completes_group (ht : t.kind = .leftParen) (he : Completes eof errs .expression a ts e b)
    (hu : u.kind = .rightParen) :
    Completes eof errs .primary a (t :: (ts ++ [u])) (.group e) b := fun n rest hn => by
  obtain ⟨n, rfl⟩ : ∃ j, n = j + 1 := ⟨n - 1, by omega⟩
  rcases t with ⟨k, lexeme, pos⟩
  obtain rfl := ht
  have happ : (ts ++ [u]) ++ rest = ts ++ u :: rest := by simp
  rw [primary]
  show (expression n >>= _).run ⟨(ts ++ [u]) ++ rest, eof, a, errs⟩ = _
  rw [happ, run_bind_ok _ (run_expression he ?_ (stops_cons (by rw [hu]; rfl))),
    run_bind_ok _ (run_expect _ hu)]
  · rfl
  · simp only [need, List.length_append, List.length_cons] at hn ⊢
    omega

theorem completes_callee (hpos : StartsWith startsPrimary ts)
    (ih : Completes eof errs .primary a ts e b) :
    Completes eof errs .call a ts e b := fun n rest hn => by
  obtain ⟨n, rfl⟩ : ∃ j, n = j + 1 := ⟨n - 1, by omega⟩
  obtain ⟨t, us, rfl, ht, -⟩ := hpos
  simp only [need, List.length_append, List.length_cons] at hn
  have hsign : Stops (fun k => k = .bang || k = .minus) (t :: us ++ rest) := by
    refine stops_cons ?_
    rw [Bool.or_eq_false_iff]
    constructor <;> (rw [decide_eq_false_iff_not]; intro h; rw [h] at ht; cases ht)
  refine ⟨n, ?_, ?_⟩
  · unfold need
    omega
  · rw [unary, run_bind_ok _ (run_passed hsign)]
    refine run_bind_ok _ (ih n rest ?_)
    simp only [need, List.length_append, List.length_cons]
    omega

theorem completes_apply {p q : Token} {args : List Expr} (he : Completes eof errs .call a ts e b)
    (hp : p.kind = .leftParen) (hargs : Completes eof errs .argumentList b us args c)
    (hq : q.kind = .rightParen) :
    Completes eof errs .call a (ts ++ p :: (us ++ [q])) (.call e q args) c := fun n rest hn => by
  have happ : (ts ++ p :: (us ++ [q])) ++ rest = ts ++ p :: (us ++ q :: rest) := by simp
  rw [happ] at hn ⊢
  obtain ⟨k, hk, hrun⟩ := he n _ hn
  obtain ⟨k, rfl⟩ : ∃ j, k = j + 1 := ⟨k - 1, by omega⟩
  simp only [need, List.length_append, List.length_cons] at hk
  obtain ⟨hlen, o, rfl, hbefore⟩ := hargs k q rest hq
    (by simp only [need, List.length_append, List.length_cons]; omega)
  refine ⟨k, ?_, ?_⟩
  · unfold need
    omega
  · rw [hrun, moreCalls, run_bind_ok _ (run_accept hp)]
    show (before .rightParen (arguments k) >>= _).run _ = _
    rw [run_bind_ok _ hbefore, run_bind_ok _ (run_limit hlen), run_bind_ok _ (run_expect _ hq)]

theorem completes_property {m : Token} (he : Completes eof errs .call a ts e b) (hu : u.kind = .dot)
    (hm : m.kind = .identifier) :
    Completes eof errs .call a (ts ++ [u, m]) (.get e m) b := fun n rest hn => by
  have happ : (ts ++ [u, m]) ++ rest = ts ++ u :: m :: rest := by simp
  rw [happ] at hn ⊢
  obtain ⟨k, hk, hrun⟩ := he n _ hn
  obtain ⟨k, rfl⟩ : ∃ j, k = j + 1 := ⟨k - 1, by omega⟩
  simp only [need, List.length_cons] at hk
  have hparen : Stops (· = .leftParen) (u :: m :: rest) := stops_cons (by rw [hu]; rfl)
  refine ⟨k, ?_, ?_⟩
  · unfold need
    omega
  · rw [hrun, moreCalls, accept, run_bind_ok _ (run_passed hparen)]
    show (accept .dot >>= _).run _ = _
    rw [run_bind_ok _ (run_accept hu)]
    show (expect .identifier .propertyName >>= _).run _ = _
    rw [run_bind_ok _ (run_expect _ hm)]

theorem completes_sign (ht : t.kind = .bang ∨ t.kind = .minus)
    (ih : Completes eof errs .unary a ts e b) :
    Completes eof errs .unary a (t :: ts) (.unary t e) b := fun n rest hn hstop => by
  obtain ⟨n, rfl⟩ : ∃ j, n = j + 1 := ⟨n - 1, by omega⟩
  have hsign : (t.kind = .bang || t.kind = .minus : Bool) = true := by simpa using ht
  rw [unary, List.cons_append, run_bind_ok _ (run_accepted hsign)]
  show (unary n >>= _).run _ = _
  rw [run_bind_ok _ (ih n rest ?_ hstop)]
  · rfl
  · simp only [need, List.length_append, List.length_cons] at hn ⊢
    omega

theorem completes_set {m eq : Token} {v w : Expr} (hpos : 0 < ts.length)
    (he : Completes eof errs .call a ts e b) (hu : u.kind = .dot) (hm : m.kind = .identifier)
    (hv : Completes eof errs .assignment b us v c) (hw : Assigned (.get e m) eq v w) :
    Completes eof errs .assignment a (ts ++ u :: m :: eq :: us) (.set e m w) c :=
  fun n rest hn hstop => by
  have happ : (ts ++ u :: m :: eq :: us) ++ rest = (ts ++ [u, m]) ++ eq :: (us ++ rest) := by simp
  rw [happ] at hn ⊢
  rw [run_assignment (completes_property he hu hm) ?_ hw hv hn hstop]
  · rfl
  · rw [List.length_append]
    omega

theorem completes_assign {m eq : Token} {v w : Expr} (hm : m.kind = .identifier)
    (hv : Completes eof errs .assignment (a + 1) ts v b) (hw : Assigned (.read ⟨⟨a⟩, m⟩) eq v w) :
    Completes eof errs .assignment a (m :: eq :: ts) (.assign ⟨⟨b⟩, m⟩ w) (b + 1) :=
  fun n rest hn hstop => by
  have hstart : StartsWith startsPrimary [m] :=
    startsWith_of_ne (by rw [hm]; rfl) (by rw [hm]; exact fun h => nomatch h)
  have hname : Completes eof errs .call a [m] (.read ⟨⟨a⟩, m⟩) (a + 1) :=
    completes_callee hstart (completes_name hm)
  exact (run_assignment hname Nat.one_pos hw hv hn hstop).trans rfl

theorem completes_oneAssignment (hpos : 0 < ts.length)
    (ih : Completes eof errs .assignment a ts e b) :
    Completes eof errs .expression a ts e b := fun n rest hn hstop => by
  obtain ⟨n, rfl⟩ : ∃ j, n = j + 1 := ⟨n - 1, by omega⟩
  simp only [need, List.length_append] at hn
  refine ⟨n, ?_, ?_⟩
  · unfold need
    omega
  · rw [expression]
    refine run_bind_ok _ (ih n rest ?_ hstop)
    simp only [need, List.length_append]
    omega

theorem completes_comma {op : Token} (hl : Completes eof errs .expression a ts e b)
    (hop : op.kind = .comma) (hpos : 0 < us.length)
    (hr : Completes eof errs .assignment b us e' c) :
    Completes eof errs .expression a (ts ++ op :: us) (.binary e op e') c :=
  fun n rest hn hstop => by
  have happ : (ts ++ op :: us) ++ rest = ts ++ op :: (us ++ rest) := by simp
  rw [happ] at hn ⊢
  obtain ⟨k, hk, hrun⟩ := hl n _ hn (stops_cons (by rw [hop]; rfl))
  obtain ⟨k, rfl⟩ : ∃ j, k = j + 1 := ⟨k - 1, by omega⟩
  simp only [need, List.length_append, List.length_cons] at hk
  refine ⟨k, ?_, ?_⟩
  · unfold need
    omega
  · rw [hrun, moreAssignments, run_bind_ok _ (run_accept hop)]
    refine run_bind_ok _ (hr k rest ?_ hstop)
    simp only [need, List.length_append]
    omega

theorem completes_lastArgument (ih : Completes eof errs .assignment a ts e b) :
    Completes eof errs .arguments a ts [e] b := fun n q rest hq hn => by
  obtain ⟨n, rfl⟩ : ∃ j, n = j + 1 := ⟨n - 1, by omega⟩
  have hcomma : Stops (· = .comma) (q :: rest) := stops_cons (by rw [hq]; rfl)
  rw [arguments, run_bind_ok _ (ih n (q :: rest) ?_ (stops_cons (by rw [hq]; rfl))), accept,
    run_bind_ok _ (run_passed hcomma)]
  · rfl
  · unfold need at hn ⊢
    omega

theorem completes_moreArguments {es : List Expr} (he : Completes eof errs .assignment a ts e b)
    (ht : t.kind = .comma) (hes : Completes eof errs .arguments b us es c) :
    Completes eof errs .arguments a (ts ++ t :: us) (e :: es) c := fun n q rest hq hn => by
  obtain ⟨n, rfl⟩ : ∃ j, n = j + 1 := ⟨n - 1, by omega⟩
  have happ : (ts ++ t :: us) ++ q :: rest = ts ++ t :: (us ++ q :: rest) := by simp
  rw [happ] at hn ⊢
  simp only [need, List.length_append, List.length_cons] at hn
  rw [arguments, run_bind_ok _ (he n _ ?_ (stops_cons (by rw [ht]; rfl))),
    run_bind_ok _ (run_accept ht)]
  · show (arguments n >>= _).run _ = _
    rw [run_bind_ok _ (hes n q rest hq ?_)]
    · rfl
    · simp only [need, List.length_append, List.length_cons]
      omega
  · simp only [need, List.length_append, List.length_cons]
    omega

theorem startsExpression_ne {k : Token.Kind} (h : startsExpression k = true) :
    k ≠ .rightParen ∧ k ≠ .semicolon := by
  constructor <;> (rintro rfl; cases h)

theorem completes_someArguments {es : List Expr} (hstart : StartsWith startsExpression ts)
    (ih : Completes eof errs .arguments a ts es b) (hlimit : es.length ≤ maxArguments) :
    Completes eof errs .argumentList a ts es b := fun n q rest hq hn => by
  obtain ⟨t, us, rfl, ht, -⟩ := hstart
  exact ⟨hlimit, some es, rfl, run_before_some (startsExpression_ne ht).1 (ih n q rest hq hn)⟩

theorem completes_someExpression (hstart : StartsWith startsExpression ts)
    (ih : Completes eof errs .expression a ts e b) :
    Completes eof errs .optionalExpression a ts (some e) b := fun k n q rest hq hk hn => by
  have hstop : Stops goesOnExpression (q :: rest) := by
    refine stops_cons ?_
    rcases hk with rfl | rfl <;> (rw [hq]; rfl)
  have hrun := run_expression ih hn hstop
  obtain ⟨t, us, rfl, ht, -⟩ := hstart
  refine run_before_some ?_ hrun
  rcases hk with rfl | rfl
  · exact (startsExpression_ne ht).2
  · exact (startsExpression_ne ht).1

end Expressions

/-! ## 4. Functions and classes -/

section Functions

variable {eof t u n : Token} {errs : List SyntaxError} {a b c d : Nat} {ts us vs : List Token}

theorem completes_lastName (h : t.kind = .identifier) :
    Completes eof errs .names a [t] [t] a := fun n q rest hq hn => by
  obtain ⟨n, rfl⟩ : ∃ j, n = j + 1 := ⟨n - 1, by omega⟩
  have hcomma : Stops (· = .comma) (q :: rest) := stops_cons (by rw [hq]; rfl)
  rw [parameterNames, List.singleton_append, run_bind_ok _ (run_expect _ h), accept,
    run_bind_ok _ (run_passed hcomma)]
  rfl

theorem completes_moreNames {ns : List Token} (ht : t.kind = .identifier) (hu : u.kind = .comma)
    (ih : Completes eof errs .names a ts ns b) :
    Completes eof errs .names a (t :: u :: ts) (t :: ns) b := fun n q rest hq hn => by
  obtain ⟨n, rfl⟩ : ∃ j, n = j + 1 := ⟨n - 1, by omega⟩
  rw [parameterNames, List.cons_append, List.cons_append, run_bind_ok _ (run_expect _ ht),
    run_bind_ok _ (run_accept hu)]
  show (parameterNames n >>= _).run _ = _
  rw [run_bind_ok _ (ih n q rest hq ?_)]
  · rfl
  · simp only [need, List.length_append, List.length_cons] at hn ⊢
    omega

theorem completes_noParameters : Completes eof errs .parameterList a [] [] a :=
  fun n q rest hq hn => by
  rw [parameters, List.nil_append, run_bind_ok _ (run_before_none hq)]
  show (limit .tooManyParameters 0 >>= _).run _ = _
  rw [run_bind_ok _ (run_limit (Nat.zero_le _)), run_bind_ok _ (run_expect _ hq)]
  rfl

theorem completes_someParameters {ns : List Token} (hstart : Starts .names ts)
    (ih : Completes eof errs .names a ts ns b) (hlimit : ns.length ≤ maxArguments) :
    Completes eof errs .parameterList a ts ns b := fun n q rest hq hn => by
  have hrun := ih n q rest hq hn
  obtain ⟨t, us, rfl, ht⟩ := hstart
  have hne : t.kind ≠ .rightParen := by rw [ht]; exact fun h => nomatch h
  have hbefore : (before .rightParen (parameterNames n)).run ⟨t :: us ++ q :: rest, eof, a, errs⟩
      = (.ok (some ns), ⟨q :: rest, eof, b, errs⟩) := run_before_some hne hrun
  rw [parameters, run_bind_ok _ hbefore]
  show (limit .tooManyParameters ns.length >>= _).run _ = _
  rw [run_bind_ok _ (run_limit hlimit), run_bind_ok _ (run_expect _ hq)]
  rfl

/-- Declarations and the brace behind them. -/
theorem run_blockRest {loops n : Nat} {body : List Stmt} {rest : List Token}
    (ih : Completes eof errs (.declarations loops) a ts body b) (hu : u.kind = .rightBrace)
    (hn : need (ts ++ u :: rest) 23 < n) :
    (blockRest n loops).run ⟨ts ++ u :: rest, eof, a, errs⟩ = (.ok body, ⟨rest, eof, b, errs⟩) := by
  obtain ⟨n, rfl⟩ : ∃ j, n = j + 1 := ⟨n - 1, by omega⟩
  rw [blockRest, run_bind_ok _ (ih.1 n u rest hu ?_), run_bind_ok _ (run_expect _ hu)]
  · rfl
  · unfold need at hn ⊢
    omega

theorem completes_code {p q o : Token} {ns : List Token} {body : List Stmt}
    (hp : p.kind = .leftParen) (hns : Completes eof errs .parameterList a ts ns b)
    (hq : q.kind = .rightParen) (ho : o.kind = .leftBrace)
    (hbody : Completes eof errs (.declarations 0) b us body c) (hu : u.kind = .rightBrace) :
    Completes eof errs .code a (p :: (ts ++ q :: o :: (us ++ [u]))) (.mk ns body) c :=
  fun f n rest hn => by
  obtain ⟨n, rfl⟩ : ∃ j, n = j + 1 := ⟨n - 1, by omega⟩
  have happ : p :: (ts ++ q :: o :: (us ++ [u])) ++ rest
      = p :: (ts ++ q :: o :: (us ++ u :: rest)) := by simp
  rw [happ] at hn ⊢
  simp only [need, List.length_append, List.length_cons] at hn
  rw [code, run_bind_ok _ (run_expect _ hp), run_bind_ok _ (hns n q _ hq ?_),
    run_bind_ok _ (run_expect _ ho), run_bind_ok _ (run_blockRest hbody hu ?_)]
  · rfl
  all_goals
    simp only [need, List.length_append, List.length_cons]
    omega

theorem completes_function {f : Code} (ht : t.kind = .identifier)
    (ih : Completes eof errs .code a ts f b) :
    Completes eof errs .function a (t :: ts) (.mk t f) b := fun k n rest hn => by
  obtain ⟨n, rfl⟩ : ∃ j, n = j + 1 := ⟨n - 1, by omega⟩
  rw [funDecl, List.cons_append, run_bind_ok _ (run_expect _ ht), run_bind_ok _ (ih k n rest ?_)]
  · rfl
  · simp only [need, List.length_append, List.length_cons] at hn ⊢
    omega

/-- Whether a list of methods or of declarations ends here. -/
theorem run_closes {α : Type} {p q : Parse α} {rest : List Token} :
    (do if (← check .rightBrace) || (← atEnd) then p else q).run ⟨t :: rest, eof, a, errs⟩
      = if t.kind = .rightBrace then p.run ⟨t :: rest, eof, a, errs⟩
        else q.run ⟨t :: rest, eof, a, errs⟩ := by
  rw [run_bind_ok _ run_check_cons]
  by_cases h : t.kind = .rightBrace
  · simp only [h]
    rfl
  · simp only [h]
    rfl

theorem completes_noMethods : Completes eof errs .methods a [] [] a := fun n q rest hq hn => by
  obtain ⟨n, rfl⟩ : ∃ j, n = j + 1 := ⟨n - 1, by omega⟩
  rw [methodsRest, List.nil_append, run_closes, if_pos hq]
  rfl

theorem completes_moreMethods {f : FunDecl} {fs : List FunDecl} (hstart : Starts .function ts)
    (hf : Completes eof errs .function a ts f b) (hfs : Completes eof errs .methods b us fs c) :
    Completes eof errs .methods a (ts ++ us) (f :: fs) c := fun n q rest hq hn => by
  obtain ⟨n, rfl⟩ : ∃ j, n = j + 1 := ⟨n - 1, by omega⟩
  have hrun := hf .method n (us ++ q :: rest)
  obtain ⟨t, vs, rfl, ht⟩ := hstart
  have happ : t :: vs ++ us ++ q :: rest = t :: vs ++ (us ++ q :: rest) := by simp
  have hne : t.kind ≠ .rightBrace := by rw [ht]; exact fun h => nomatch h
  rw [happ] at hn ⊢
  simp only [need, List.length_append, List.length_cons] at hn hrun
  rw [methodsRest, List.cons_append, run_closes, if_neg hne, ← List.cons_append,
    run_bind_ok _ (hrun (by omega)), run_bind_ok _ (hfs n q rest hq ?_)]
  · rfl
  · simp only [need, List.length_append, List.length_cons]
    omega

theorem completes_noSuperclass : Completes eof errs .superclass a [] none a := fun q rest hq =>
  run_behind_none (stops_cons (by rw [hq]; rfl))

theorem completes_superclass (ht : t.kind = .less) (hu : u.kind = .identifier) :
    Completes eof errs .superclass a [t, u] (some ⟨⟨a⟩, u⟩) (a + 1) := fun q rest hq => by
  refine run_behind_some ht ?_
  show (expect .identifier .superclassName >>= _).run ⟨u :: q :: rest, eof, a, errs⟩ = _
  rw [run_bind_ok _ (run_expect _ hu)]
  rfl

end Functions

/-! ## 5. Statements -/

section Statements

variable {eof t u : Token} {errs : List SyntaxError} {a b c d d' loops : Nat}
  {ts us vs : List Token} {e : Expr}

theorem completes_expressionStatement (ih : Completes eof errs .expression a ts e b)
    (ht : t.kind = .semicolon) :
    Completes eof errs .expressionStatement a (ts ++ [t]) (.expr e) b := fun n rest hn => by
  obtain ⟨n, rfl⟩ : ∃ j, n = j + 1 := ⟨n - 1, by omega⟩
  have happ : ts ++ [t] ++ rest = ts ++ t :: rest := by simp
  rw [happ] at hn ⊢
  rw [exprStatement, run_bind_ok _ (run_expression ih ?_ (stops_cons (by rw [ht]; rfl))),
    run_bind_ok _ (run_expect _ ht)]
  · rfl
  · unfold need at hn ⊢
    omega

theorem completes_bareVariable (ht : t.kind = .identifier) (hu : u.kind = .semicolon) :
    Completes eof errs .variable a [t, u] (.varDecl t (.literal .nil)) a := fun n rest hn => by
  obtain ⟨n, rfl⟩ : ∃ j, n = j + 1 := ⟨n - 1, by omega⟩
  have hequal : Stops (· = .equal) (u :: rest) := stops_cons (by rw [hu]; rfl)
  rw [varDecl, List.cons_append, List.cons_append, run_bind_ok _ (run_expect _ ht),
    List.nil_append, run_bind_ok _ (run_behind_none hequal), run_bind_ok _ (run_expect _ hu)]
  rfl

theorem completes_initializedVariable {eq : Token} (ht : t.kind = .identifier)
    (heq : eq.kind = .equal) (ih : Completes eof errs .expression a ts e b)
    (hu : u.kind = .semicolon) :
    Completes eof errs .variable a (t :: eq :: (ts ++ [u])) (.varDecl t e) b := fun n rest hn => by
  obtain ⟨n, rfl⟩ : ∃ j, n = j + 1 := ⟨n - 1, by omega⟩
  have happ : t :: eq :: (ts ++ [u]) ++ rest = t :: eq :: (ts ++ u :: rest) := by simp
  rw [happ] at hn ⊢
  simp only [need, List.length_append, List.length_cons] at hn
  rw [varDecl, run_bind_ok _ (run_expect _ ht),
    run_bind_ok _ (run_behind_some heq (run_expression ih ?_ (stops_cons (by rw [hu]; rfl)))),
    run_bind_ok _ (run_expect _ hu)]
  · rfl
  · simp only [need, List.length_append, List.length_cons]
    omega

theorem completes_noStart (ht : t.kind = .semicolon) :
    Completes eof errs .loopStart a [t] none a := fun n rest hn => by
  obtain ⟨n, rfl⟩ : ∃ j, n = j + 1 := ⟨n - 1, by omega⟩
  rw [forInit, List.singleton_append, run_bind_ok _ (run_accept ht)]
  rfl

theorem completes_variableStart {s : Stmt} (ht : t.kind = .kwVar)
    (ih : Completes eof errs .variable a ts s b) :
    Completes eof errs .loopStart a (t :: ts) (some s) b := fun n rest hn => by
  obtain ⟨n, rfl⟩ : ∃ j, n = j + 1 := ⟨n - 1, by omega⟩
  have hsemi : Stops (· = .semicolon) (t :: ts ++ rest) := stops_cons (by rw [ht]; rfl)
  rw [forInit, accept, run_bind_ok _ (run_passed hsemi)]
  show (accept .kwVar >>= _).run _ = _
  rw [List.cons_append, run_bind_ok _ (run_accept ht)]
  refine run_map_ok _ (ih n rest ?_)
  simp only [need, List.length_append, List.length_cons] at hn ⊢
  omega

theorem completes_expressionStart {s : Stmt} (hstart : StartsWith startsExpression ts)
    (ih : Completes eof errs .expressionStatement a ts s b) :
    Completes eof errs .loopStart a ts (some s) b := fun n rest hn => by
  obtain ⟨n, rfl⟩ : ∃ j, n = j + 1 := ⟨n - 1, by omega⟩
  have hrun := ih n rest (by unfold need at hn ⊢; omega)
  obtain ⟨t, us, rfl, ht, -⟩ := hstart
  have hsemi : Stops (· = .semicolon) (t :: us ++ rest) :=
    stops_cons (decide_eq_false (startsExpression_ne ht).2)
  have hvar : Stops (· = .kwVar) (t :: us ++ rest) := by
    refine stops_cons (decide_eq_false fun h => ?_)
    rw [h] at ht
    cases ht
  rw [forInit, accept, run_bind_ok _ (run_passed hsemi)]
  show (accept .kwVar >>= _).run _ = _
  rw [accept, run_bind_ok _ (run_passed hvar)]
  exact run_map_ok _ hrun

/-- An expression statement is what stands in front of no keyword of a statement. -/
theorem completes_simple {s : Stmt} (hstart : StartsWith startsExpression ts)
    (ih : Completes eof errs .expressionStatement a ts s b) :
    Completes eof errs (.statement loops) a ts s b := fun n rest hn _ => by
  obtain ⟨n, rfl⟩ : ∃ j, n = j + 1 := ⟨n - 1, by omega⟩
  have hrun := ih n rest (by unfold need at hn ⊢; omega)
  obtain ⟨⟨k, lexeme, pos⟩, us, rfl, ht, -⟩ := hstart
  rw [← hrun, statement]
  cases k <;> first | rfl | cases ht

theorem completes_forLoop {p q : Token} {is cs ss : List Token} {init : Option Stmt}
    {cond inc : Option Expr} {body : Stmt} (ht : t.kind = .kwFor) (hp : p.kind = .leftParen)
    (hinit : Completes eof errs .loopStart a is init b)
    (hcond : Completes eof errs .optionalExpression b cs cond c) (hu : u.kind = .semicolon)
    (hinc : Completes eof errs .optionalExpression c us inc d) (hq : q.kind = .rightParen)
    (hbody : Completes eof errs (.statement (loops + 1)) d ss body d') :
    Completes eof errs (.statement loops) a (t :: p :: (is ++ (cs ++ u :: (us ++ q :: ss))))
      (.forLoop init (cond.getD (.literal (.bool true))) inc body) d' := fun n rest hn hopen => by
  obtain ⟨n, rfl⟩ : ∃ j, n = j + 2 := ⟨n - 2, by unfold need at hn; omega⟩
  have happ : t :: p :: (is ++ (cs ++ u :: (us ++ q :: ss))) ++ rest
      = t :: p :: (is ++ (cs ++ u :: (us ++ q :: (ss ++ rest)))) := by simp
  rw [happ] at hn ⊢
  simp only [need, List.length_append, List.length_cons] at hn
  rcases t with ⟨k, lexeme, pos⟩
  obtain rfl := ht
  rw [statement]
  show (forLoop (n + 1) loops).run ⟨p :: _, eof, a, errs⟩ = _
  rw [forLoop, run_bind_ok _ (run_expect _ hp), run_bind_ok _ (hinit n _ ?_),
    run_bind_ok _ (hcond .semicolon n u _ hu (.inl rfl) ?_), run_bind_ok _ (run_expect _ hu),
    run_bind_ok _ (hinc .rightParen n q _ hq (.inr rfl) ?_), run_bind_ok _ (run_expect _ hq),
    run_bind_ok _ (hbody n rest ?_ hopen)]
  · rfl
  all_goals
    simp only [need, List.length_append, List.length_cons]
    omega

theorem completes_whileLoop {p q : Token} {ss : List Token} {body : Stmt} (ht : t.kind = .kwWhile)
    (hp : p.kind = .leftParen) (hcond : Completes eof errs .expression a ts e b)
    (hq : q.kind = .rightParen) (hbody : Completes eof errs (.statement (loops + 1)) b ss body c) :
    Completes eof errs (.statement loops) a (t :: p :: (ts ++ q :: ss)) (.whileLoop e body) c :=
  fun n rest hn hopen => by
  obtain ⟨n, rfl⟩ : ∃ j, n = j + 2 := ⟨n - 2, by unfold need at hn; omega⟩
  have happ : t :: p :: (ts ++ q :: ss) ++ rest = t :: p :: (ts ++ q :: (ss ++ rest)) := by simp
  rw [happ] at hn ⊢
  simp only [need, List.length_append, List.length_cons] at hn
  rcases t with ⟨k, lexeme, pos⟩
  obtain rfl := ht
  rw [statement]
  show (whileLoop (n + 1) loops).run ⟨p :: _, eof, a, errs⟩ = _
  rw [whileLoop, run_bind_ok _ (run_expect _ hp),
    run_bind_ok _ (run_expression hcond ?_ (stops_cons (by rw [hq]; rfl))),
    run_bind_ok _ (run_expect _ hq), run_bind_ok _ (hbody n rest ?_ hopen)]
  · rfl
  all_goals
    simp only [need, List.length_append, List.length_cons]
    omega

/-- Both choices begin alike: what is left is to read the `else`, if it is there. -/
theorem run_branch {n : Nat} {p q : Token} {ss rest : List Token} {yes : Stmt}
    (ht : t.kind = .kwIf) (hp : p.kind = .leftParen)
    (hcond : Completes eof errs .expression a ts e b) (hq : q.kind = .rightParen)
    (hyes : Completes eof errs (.statement loops) b ss yes c)
    (hn : need (t :: p :: (ts ++ q :: (ss ++ rest))) 19 < n + 2)
    (hopen : EndsOpen yes → Stops (· = .kwElse) rest) :
    (statement (n + 2) loops).run ⟨t :: p :: (ts ++ q :: (ss ++ rest)), eof, a, errs⟩
      = (do return Stmt.branch e yes (← behind .kwElse (statement n loops))).run
          ⟨rest, eof, c, errs⟩ := by
  simp only [need, List.length_append, List.length_cons] at hn
  rcases t with ⟨k, lexeme, pos⟩
  obtain rfl := ht
  rw [statement]
  show (branch (n + 1) loops).run ⟨p :: _, eof, a, errs⟩ = _
  rw [branch, run_bind_ok _ (run_expect _ hp),
    run_bind_ok _ (run_expression hcond ?_ (stops_cons (by rw [hq]; rfl))),
    run_bind_ok _ (run_expect _ hq), run_bind_ok _ (hyes n rest ?_ hopen)]
  all_goals
    simp only [need, List.length_append, List.length_cons]
    omega

theorem completes_branch {p q : Token} {ss : List Token} {yes : Stmt} (ht : t.kind = .kwIf)
    (hp : p.kind = .leftParen) (hcond : Completes eof errs .expression a ts e b)
    (hq : q.kind = .rightParen) (hyes : Completes eof errs (.statement loops) b ss yes c) :
    Completes eof errs (.statement loops) a (t :: p :: (ts ++ q :: ss)) (.branch e yes none) c :=
  fun n rest hn hopen => by
  obtain ⟨n, rfl⟩ : ∃ j, n = j + 2 := ⟨n - 2, by unfold need at hn; omega⟩
  have happ : t :: p :: (ts ++ q :: ss) ++ rest = t :: p :: (ts ++ q :: (ss ++ rest)) := by simp
  rw [happ] at hn ⊢
  have hstop := hopen trivial
  rw [run_branch ht hp hcond hq hyes hn fun _ => hstop, run_bind_ok _ (run_behind_none hstop)]
  rfl

theorem completes_branchElse {p q : Token} {ss : List Token} {yes no : Stmt} (ht : t.kind = .kwIf)
    (hp : p.kind = .leftParen) (hcond : Completes eof errs .expression a ts e b)
    (hq : q.kind = .rightParen) (hyes : Completes eof errs (.statement loops) b ss yes c)
    (hu : u.kind = .kwElse) (hno : Completes eof errs (.statement loops) c us no d)
    (hclosed : ¬ EndsOpen yes) :
    Completes eof errs (.statement loops) a (t :: p :: (ts ++ q :: (ss ++ u :: us)))
      (.branch e yes (some no)) d := fun n rest hn hopen => by
  obtain ⟨n, rfl⟩ : ∃ j, n = j + 2 := ⟨n - 2, by unfold need at hn; omega⟩
  have happ : t :: p :: (ts ++ q :: (ss ++ u :: us)) ++ rest
      = t :: p :: (ts ++ q :: (ss ++ u :: (us ++ rest))) := by simp
  rw [happ] at hn ⊢
  rw [run_branch ht hp hcond hq hyes hn fun h => absurd h hclosed,
    run_bind_ok _ (run_behind_some hu (hno n rest ?_ hopen))]
  · rfl
  · simp only [need, List.length_append, List.length_cons] at hn ⊢
    omega

theorem completes_block {body : List Stmt} (ht : t.kind = .leftBrace)
    (ih : Completes eof errs (.declarations loops) a ts body b) (hu : u.kind = .rightBrace) :
    Completes eof errs (.statement loops) a (t :: (ts ++ [u])) (.block body) b :=
  fun n rest hn _ => by
  obtain ⟨n, rfl⟩ : ∃ j, n = j + 1 := ⟨n - 1, by omega⟩
  have happ : t :: (ts ++ [u]) ++ rest = t :: (ts ++ u :: rest) := by simp
  rw [happ] at hn ⊢
  rcases t with ⟨k, lexeme, pos⟩
  obtain rfl := ht
  rw [statement]
  show (blockRest n loops >>= _).run ⟨ts ++ u :: rest, eof, a, errs⟩ = _
  rw [run_bind_ok _ (run_blockRest ih hu ?_)]
  · rfl
  · simp only [need, List.length_append, List.length_cons] at hn ⊢
    omega

theorem completes_ret {value : Option Expr} (ht : t.kind = .kwReturn)
    (ih : Completes eof errs .optionalExpression a ts value b) (hu : u.kind = .semicolon) :
    Completes eof errs (.statement loops) a (t :: (ts ++ [u])) (.ret t value) b :=
  fun n rest hn _ => by
  obtain ⟨n, rfl⟩ : ∃ j, n = j + 2 := ⟨n - 2, by unfold need at hn; omega⟩
  have happ : t :: (ts ++ [u]) ++ rest = t :: (ts ++ u :: rest) := by simp
  rw [happ] at hn ⊢
  rcases t with ⟨k, lexeme, pos⟩
  obtain rfl := ht
  rw [statement]
  show (ret (n + 1) _).run ⟨ts ++ u :: rest, eof, a, errs⟩ = _
  rw [ret, run_bind_ok _ (ih .semicolon n u rest hu (.inl rfl) ?_), run_bind_ok _ (run_expect _ hu)]
  · rfl
  · simp only [need, List.length_append, List.length_cons] at hn ⊢
    omega

/-- A way out of a loop, inside one. -/
theorem run_loopExit {x : LoopExit} {rest : List Token} (hu : u.kind = .semicolon)
    (hloops : 0 < loops) :
    (loopExit loops x t).run ⟨u :: rest, eof, a, errs⟩
      = (.ok (exitStatement x t), ⟨rest, eof, a, errs⟩) := by
  unfold loopExit complainOutside
  rw [if_neg (by omega), pure_bind, run_bind_ok _ (run_expect _ hu)]
  rfl

theorem completes_leave (ht : t.kind = .kwBreak) (hu : u.kind = .semicolon) (hloops : 0 < loops) :
    Completes eof errs (.statement loops) a [t, u] (.leave t) a := fun n rest hn _ => by
  obtain ⟨n, rfl⟩ : ∃ j, n = j + 1 := ⟨n - 1, by omega⟩
  rcases t with ⟨k, lexeme, pos⟩
  obtain rfl := ht
  rw [statement]
  exact run_loopExit hu hloops

theorem completes_next (ht : t.kind = .kwContinue) (hu : u.kind = .semicolon) (hloops : 0 < loops) :
    Completes eof errs (.statement loops) a [t, u] (.next t) a := fun n rest hn _ => by
  obtain ⟨n, rfl⟩ : ∃ j, n = j + 1 := ⟨n - 1, by omega⟩
  rcases t with ⟨k, lexeme, pos⟩
  obtain rfl := ht
  rw [statement]
  exact run_loopExit hu hloops

end Statements

/-! ## 6. Declarations -/

section Declarations

variable {eof t u : Token} {errs : List SyntaxError} {a b c d loops : Nat} {ts us vs : List Token}

/-- **What a declaration starts with decides which it is.** -/
theorem run_declarationOrFail {n : Nat} {rest : List Token} :
    (declarationOrFail (n + 1) loops).run ⟨t :: rest, eof, a, errs⟩ =
      if t.kind = .kwClass then (classDecl n).run ⟨rest, eof, a, errs⟩
      else if t.kind = .kwFun ∧ rest.head?.any (·.kind = .identifier) = true then
        (Stmt.funDecl <$> funDecl n .function).run ⟨rest, eof, a, errs⟩
      else if t.kind = .kwVar then (varDecl n).run ⟨rest, eof, a, errs⟩
      else (statement n loops).run ⟨t :: rest, eof, a, errs⟩ := by
  rw [declarationOrFail]
  by_cases hclass : t.kind = .kwClass
  · rw [if_pos hclass, run_bind_ok _ (run_accept hclass)]
  · have hpass : Stops (· = .kwClass) (t :: rest) := stops_cons (decide_eq_false hclass)
    rw [if_neg hclass, accept, run_bind_ok _ (run_passed hpass)]
    show (check .kwFun >>= _).run _ = _
    rw [run_bind_ok _ run_check_cons]
    show (checkSecond .identifier >>= _).run _ = _
    rw [run_bind_ok _ run_checkSecond_cons]
    by_cases hname : t.kind = .kwFun ∧ rest.head?.any (·.kind = .identifier) = true
    · rw [if_pos hname, if_pos (by simpa using hname), run_bind_ok _ (run_accept hname.1)]
      show (funDecl n .function >>= _).run _ = _
      rw [← bind_pure_comp]
    · rw [if_neg hname, if_neg (by simpa using hname)]
      show (accept .kwVar >>= _).run _ = _
      by_cases hvar : t.kind = .kwVar
      · rw [if_pos hvar, run_bind_ok _ (run_accept hvar)]
      · have hpass : Stops (· = .kwVar) (t :: rest) := stops_cons (decide_eq_false hvar)
        rw [if_neg hvar, accept, run_bind_ok _ (run_passed hpass)]

theorem completes_classDecl {n o : Token} {ss ms : List Token} {sup : Option Reference}
    {methods : List FunDecl} (ht : t.kind = .kwClass) (hn : n.kind = .identifier)
    (hsup : Completes eof errs .superclass a ss sup b) (ho : o.kind = .leftBrace)
    (hms : Completes eof errs .methods b ms methods c) (hu : u.kind = .rightBrace) :
    Completes eof errs (.declaration loops) a (t :: n :: (ss ++ o :: (ms ++ [u])))
      (.classDecl n sup methods) c := fun k rest hk _ => by
  obtain ⟨k, rfl⟩ : ∃ j, k = j + 2 := ⟨k - 2, by unfold need at hk; omega⟩
  have happ : t :: n :: (ss ++ o :: (ms ++ [u])) ++ rest
      = t :: n :: (ss ++ o :: (ms ++ u :: rest)) := by simp
  rw [happ] at hk ⊢
  simp only [need, List.length_append, List.length_cons] at hk
  rw [run_declarationOrFail, if_pos ht, classDecl, run_bind_ok _ (run_expect _ hn),
    run_bind_ok _ (hsup o _ ho), run_bind_ok _ (run_expect _ ho),
    run_bind_ok _ (hms k u rest hu ?_), run_bind_ok _ (run_expect _ hu)]
  · rfl
  · simp only [need, List.length_append, List.length_cons]
    omega

theorem completes_funDecl {f : FunDecl} (ht : t.kind = .kwFun) (hstart : Starts .function ts)
    (ih : Completes eof errs .function a ts f b) :
    Completes eof errs (.declaration loops) a (t :: ts) (.funDecl f) b := fun n rest hn _ => by
  obtain ⟨n, rfl⟩ : ∃ j, n = j + 1 := ⟨n - 1, by omega⟩
  have hrun := ih .function n rest
  obtain ⟨u, us, rfl, hu⟩ := hstart
  simp only [need, List.cons_append, List.length_cons] at hn hrun
  have hclass : t.kind ≠ .kwClass := by rw [ht]; decide
  rw [List.cons_append, run_declarationOrFail, if_neg hclass, if_pos ⟨ht, decide_eq_true hu⟩]
  exact run_map_ok _ (hrun (by omega))

theorem completes_varDecl {s : Stmt} (ht : t.kind = .kwVar)
    (ih : Completes eof errs .variable a ts s b) :
    Completes eof errs (.declaration loops) a (t :: ts) s b := fun n rest hn _ => by
  obtain ⟨n, rfl⟩ : ∃ j, n = j + 1 := ⟨n - 1, by omega⟩
  rw [List.cons_append, run_declarationOrFail, if_neg (by rw [ht]; exact fun h => nomatch h),
    if_neg (by rw [ht]; exact fun h => nomatch h.1), if_pos ht]
  refine ih n rest ?_
  simp only [need, List.length_append, List.length_cons] at hn ⊢
  omega

theorem completes_statement {s : Stmt} (hstart : StartsWith startsSimple ts)
    (ih : Completes eof errs (.statement loops) a ts s b) :
    Completes eof errs (.declaration loops) a ts s b := fun n rest hn hopen => by
  obtain ⟨n, rfl⟩ : ∃ j, n = j + 1 := ⟨n - 1, by omega⟩
  have hrun := ih n rest (by unfold need at hn ⊢; omega) hopen
  obtain ⟨t, us, rfl, ht, hfun⟩ := hstart
  have hclass : t.kind ≠ .kwClass := fun h => by
    rw [h] at ht
    cases ht
  have hvar : t.kind ≠ .kwVar := fun h => by
    rw [h] at ht
    cases ht
  have hname : ¬ (t.kind = .kwFun ∧ (us ++ rest).head?.any (·.kind = .identifier) = true) := by
    rintro ⟨h, hname⟩
    obtain ⟨u, vs, rfl, hu⟩ := hfun h
    cases hu.symm.trans (of_decide_eq_true hname)
  rw [List.cons_append, run_declarationOrFail, if_neg hclass, if_neg hname, if_neg hvar]
  exact hrun

/-- A declaration without a failure. -/
theorem run_declaration {s : Stmt} {n : Nat} {rest : List Token}
    (ih : Completes eof errs (.declaration loops) a ts s b) (hn : need (ts ++ rest) 21 < n)
    (hopen : EndsOpen s → Stops (· = .kwElse) rest) :
    (declaration n loops).run ⟨ts ++ rest, eof, a, errs⟩
      = (.ok (some s), ⟨rest, eof, b, errs⟩) := by
  obtain ⟨n, rfl⟩ : ∃ j, n = j + 1 := ⟨n - 1, by omega⟩
  have hrun := ih n rest (by unfold need at hn ⊢; omega) hopen
  rw [declaration, run_recovering, hrun]
  rfl

theorem completes_noDeclarations : Completes eof errs (.declarations loops) a [] [] a := by
  refine ⟨fun n q rest hq hn => ?_, fun _ n hn => ?_⟩
  · obtain ⟨n, rfl⟩ : ∃ j, n = j + 1 := ⟨n - 1, by omega⟩
    rw [declarations, List.nil_append, run_closes, if_pos hq]
    rfl
  · obtain ⟨n, rfl⟩ : ∃ j, n = j + 1 := ⟨n - 1, by omega⟩
    rfl

theorem startsDeclaration_ne {k : Token.Kind} (h : startsDeclaration k = true) :
    k ≠ .rightBrace ∧ k ≠ .kwElse := by
  constructor <;> (rintro rfl; cases h)

theorem completes_moreDeclarations {s : Stmt} {ss : List Stmt} (hts : Starts (.declaration loops) ts)
    (hus : Starts (.declarations loops) us) (hs : Completes eof errs (.declaration loops) a ts s b)
    (hss : Completes eof errs (.declarations loops) b us ss c) :
    Completes eof errs (.declarations loops) a (ts ++ us) (s :: ss) c := by
  obtain ⟨t, ts, rfl, ht⟩ := hts
  have hne := (startsDeclaration_ne ht).1
  -- neither another declaration nor the end of the list starts with `else`
  have helse : ∀ rest, Stops (· = .kwElse) rest → Stops (· = .kwElse) (us ++ rest) := by
    intro rest hrest
    rcases hus with rfl | ⟨u, vs, rfl, hu⟩
    · exact hrest
    · exact stops_cons (decide_eq_false (startsDeclaration_ne hu).2)
  refine ⟨fun n q rest hq hn => ?_, fun hloops n hn => ?_⟩
  · obtain ⟨n, rfl⟩ : ∃ j, n = j + 1 := ⟨n - 1, by omega⟩
    have happ : t :: ts ++ us ++ q :: rest = t :: ts ++ (us ++ q :: rest) := by simp
    rw [happ] at hn ⊢
    simp only [need, List.length_append, List.length_cons] at hn
    have hrun := run_declaration (n := n) hs
      (by simp only [need, List.length_append, List.length_cons]; omega)
      fun _ => helse (q :: rest) (stops_cons (by rw [hq]; rfl))
    rw [declarations, List.cons_append, run_closes, if_neg hne, ← List.cons_append,
      run_bind_ok _ hrun, run_bind_ok _ (hss.1 n q rest hq ?_)]
    · rfl
    · simp only [need, List.length_append, List.length_cons]
      omega
  · obtain rfl := hloops
    obtain ⟨n, rfl⟩ : ∃ j, n = j + 1 := ⟨n - 1, by omega⟩
    simp only [need, List.length_append, List.length_cons] at hn
    have hstop : Stops (· = .kwElse) us := by simpa using helse [] (stops_nil _)
    have hrun := run_declaration (n := n) hs
      (by simp only [need, List.length_append, List.length_cons]; omega) fun _ => hstop
    rw [program]
    show (declaration n 0 >>= _).run _ = _
    rw [run_bind_ok _ hrun, run_bind_ok _ (hss.2 rfl n ?_)]
    · rfl
    · unfold need
      omega

end Declarations

/-! ## 7. All phrases -/

/-- **What is derived is read.** -/
theorem completes {eof : Token} {errs : List SyntaxError} {s : Symbol} {a b : Nat}
    {ts : List Token} {x : s.Tree} (h : Derives .nearest s a ts x b) :
    Completes eof errs s a ts x b := by
  induction h with
  | literal h => exact completes_literal h
  | this h => exact completes_this h
  | super ht hd hm => exact completes_super ht hd hm
  | name h => exact completes_name h
  | lambda h _ ih => exact completes_lambda h ih
  | group ht _ hu ih => exact completes_group ht ih hu
  | callee h ih => exact completes_callee (derives_starts h) ih
  | apply _ hp _ hq ihe ihargs => exact completes_apply ihe hp ihargs hq
  | property _ hd hn ih => exact completes_property ih hd hn
  | lastArgument _ ih => exact completes_lastArgument ih
  | moreArguments _ ht _ ihe ihes => exact completes_moreArguments ihe ht ihes
  | noArguments => exact fun n q rest hq _ => ⟨Nat.zero_le _, none, rfl, run_before_none hq⟩
  | someArguments h hlimit ih => exact completes_someArguments (derives_starts h) ih hlimit
  | sign hop _ ih => exact completes_sign hop ih
  | unsigned _ ih => exact completes_unsigned ih
  | tightest _ ih => exact completes_tightest ih
  | tighter _ ih => exact completes_tighter ih
  | single h ih => exact completes_single (derives_starts h).length_pos ih
  | join _ hop hr ihl ihr => exact completes_join ihl hop (derives_starts hr).length_pos ihr
  | choice _ hq _ hu _ ihe ihyes ihno => exact completes_choice ihe hq ihyes hu ihno
  | noChoice _ ih => exact completes_noChoice ih
  | assign hn _ hw ih => exact completes_assign hn ih hw
  | set he hd hn _ hw ihe ihv =>
    exact completes_set (derives_starts he).length_pos ihe hd hn ihv hw
  | noAssignment _ ih => exact completes_noAssignment ih
  | oneAssignment h ih => exact completes_oneAssignment (derives_starts h).length_pos ih
  | comma _ hop hr ihl ihr => exact completes_comma ihl hop (derives_starts hr).length_pos ihr
  | noExpression => exact fun k n q rest hq _ _ => run_before_none hq
  | someExpression h ih => exact completes_someExpression (derives_starts h) ih
  | lastName h => exact completes_lastName h
  | moreNames hn ht _ ih => exact completes_moreNames hn ht ih
  | noParameters => exact completes_noParameters
  | someParameters h hlimit ih => exact completes_someParameters (derives_starts h) ih hlimit
  | code hp _ hq ho _ hu ihns ihbody => exact completes_code hp ihns hq ho ihbody hu
  | function hn _ ih => exact completes_function hn ih
  | noMethods => exact completes_noMethods
  | moreMethods hf _ ihf ihfs => exact completes_moreMethods (derives_starts hf) ihf ihfs
  | noSuperclass => exact completes_noSuperclass
  | superclass ht hn => exact completes_superclass ht hn
  | expressionStatement _ ht ih => exact completes_expressionStatement ih ht
  | bareVariable hn ht => exact completes_bareVariable hn ht
  | initializedVariable hn heq _ ht ih => exact completes_initializedVariable hn heq ih ht
  | noStart h => exact completes_noStart h
  | variableStart ht _ ih => exact completes_variableStart ht ih
  | expressionStart hs ih => exact completes_expressionStart (derives_starts hs) ih
  | simple h ih => exact completes_simple (derives_starts h) ih
  | forLoop ht hp _ _ hu _ hq _ ihinit ihcond ihinc ihbody =>
    exact completes_forLoop ht hp ihinit ihcond hu ihinc hq ihbody
  | whileLoop ht hp _ hq _ ihcond ihbody => exact completes_whileLoop ht hp ihcond hq ihbody
  | branch ht hp _ hq _ ihcond ihyes => exact completes_branch ht hp ihcond hq ihyes
  | branchElse ht hp _ hq _ hu _ hopen ihcond ihyes ihno =>
    exact completes_branchElse ht hp ihcond hq ihyes hu ihno (hopen rfl)
  | block ht _ hu ih => exact completes_block ht ih hu
  | ret ht _ hu ih => exact completes_ret ht ih hu
  | leave ht hu hloops => exact completes_leave ht hu hloops
  | next ht hu hloops => exact completes_next ht hu hloops
  | classDecl ht hn _ ho _ hu ihsup ihms => exact completes_classDecl ht hn ihsup ho ihms hu
  | funDecl ht hf ih => exact completes_funDecl ht (derives_starts hf) ih
  | varDecl ht _ ih => exact completes_varDecl ht ih
  | statement h ih => exact completes_statement (derives_starts h) ih
  | noDeclarations => exact completes_noDeclarations
  | moreDeclarations hs hss ihs ihss =>
    exact completes_moreDeclarations (derives_starts hs) (derives_starts hss) ihs ihss

/-! ## 8. The whole parse -/

section Parse

variable {tokens : List Token} {eof : Token} {nextId : Nat}

theorem takeWhile_append_eof (hts : ∀ t ∈ tokens, t.kind ≠ .eof) (heof : eof.kind = .eof) :
    (tokens ++ [eof]).takeWhile (·.kind ≠ .eof) = tokens := by
  rw [List.takeWhile_append_of_pos fun t ht => decide_eq_true (hts t ht)]
  simp [heof]

theorem ofTokens_append (hts : ∀ t ∈ tokens, t.kind ≠ .eof) (heof : eof.kind = .eof) :
    Cursor.ofTokens (tokens ++ [eof]) nextId = ⟨tokens, eof, nextId, []⟩ := by
  have hfind : (tokens ++ [eof]).find? (·.kind = .eof) = some eof := by
    rw [List.find?_append, List.find?_eq_none.mpr fun t ht => by simpa using hts t ht]
    simp [heof]
  rw [Cursor.ofTokens, takeWhile_append_eof hts heof, hfind]
  rfl

/-- **A program that the rules derive is parsed** as the tree they give. -/
theorem parse_complete {program : List Stmt} {last : Nat} (hts : ∀ t ∈ tokens, t.kind ≠ .eof)
    (heof : eof.kind = .eof) (h : Derives .nearest .program nextId tokens program last) :
    parse (tokens ++ [eof]) nextId = ⟨program, [], last⟩ := by
  have hfuel : need tokens 22 < fuelFor (tokens ++ [eof]).length := by
    simp only [need, fuelFor, List.length_append, List.length_singleton]
    omega
  have hrun := (show Completes eof [] .program nextId tokens program last from completes h).2 rfl _ hfuel
  rw [parse, ofTokens_append hts heof, hrun]

end Parse

end Lox.Syntax
