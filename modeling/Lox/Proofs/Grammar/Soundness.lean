import Lox.Proofs.Grammar.Reads
import Lox.Proofs.Grammar.Rules

/-!
# What the parser reads is derived

Every rule of the parser, whatever tokens it meets, reads a phrase of its symbol or complains, and
has fuel enough.

* `Sound n`: what each rule with the fuel `n` comes to, with the number of calls that it makes in
  front of the next token.
* `sound`: this holds for every `n`. Each rule is a lemma of its own from `Sound` with one unit of
  fuel less.
* `Extends s left`: what may follow the phrase `left` so that both are a phrase of `s`; the loops
  of the parser read that.
* `parse_ends`: every parse comes to an end; without a complaint, what it gives is derived.
-/

namespace Lox.Syntax

/-! ## 1. What each rule comes to -/

/-- The calls that a level needs in front of a token. -/
def Level.rank : Level → Nat
  | .factor => 4
  | .term => 6
  | .comparison => 8
  | .equality => 10
  | .and => 12
  | .or => 14

/-- The calls that an operand needs in front of a token. -/
def rankWithin : Option Level → Nat
  | none => 3
  | some l => l.rank + 1

theorem rank_tighter (l : Level) : rankWithin l.tighter? + 1 = l.rank := by cases l <;> rfl

theorem rank_le (l : Level) : l.rank ≤ 14 := by cases l <;> decide

theorem rankWithin_le (l : Option Level) : rankWithin l ≤ 15 := by
  rcases l with _ | l
  · decide
  · exact Nat.succ_le_succ (rank_le l)

/-- What may follow the phrase `left` of `s`. -/
def Extends (s : Symbol) (left : s.Tree) : Language s.Tree := fun b us x c =>
  ∀ a ts, Derives .any s a ts left b → Derives .any s a (ts ++ us) x c

theorem extends_nil {s : Symbol} {left : s.Tree} {a : Nat} : Extends s left a [] left a :=
  fun _ _ h => by rwa [List.append_nil]

/-- What each rule comes to with the fuel `n`. -/
structure Sound (n : Nat) : Prop where
  expression : Reads n 17 1 (expression n) (Derives .any .expression)
  moreAssignments : ∀ left, Reads n 1 0 (moreAssignments n left) (Extends .expression left)
  assignment : Reads n 16 1 (assignment n) (Derives .any .assignment)
  conditional : Reads n 15 1 (conditional n) (Derives .any .conditional)
  operand : ∀ l, Reads n l.rank 1 (operand n l) (Derives .any (.operand l))
  moreOperands : ∀ l left, Reads n 1 0 (moreOperands n l left) (Extends (.operand l) left)
  operandWithin : ∀ l, Reads n (rankWithin l) 1 (operandWithin n l) (Derives .any (.within l))
  unary : Reads n 2 1 (unary n) (Derives .any .unary)
  moreCalls : ∀ left, Reads n 1 0 (moreCalls n left) (Extends .call left)
  arguments : Reads n 17 1 (arguments n) (Derives .any .arguments)
  primary : Reads n 1 1 (primary n) (Derives .any .primary)
  code : ∀ f, Reads n 1 1 (code n f) (Derives .any .code)
  funDecl : ∀ f, Reads n 1 1 (funDecl n f) (Derives .any .function)
  declaration : ∀ loops s, s.eof.kind = .eof → s.ahead ≠ [] →
    ReadsAt n 21 1 (declaration n loops)
      (fun a ts o b => ∃ x, o = some x ∧ Derives .any (.declaration loops) a ts x b) s
  declarationOrFail : ∀ loops,
    Reads n 20 1 (declarationOrFail n loops) (Derives .any (.declaration loops))
  classDecl : ∀ loops, Reads n 1 1 (classDecl n) (fun a ts x b => ∀ t : Token,
    t.kind = .kwClass → Derives .any (.declaration loops) a (t :: ts) x b)
  methodsRest : Reads n 2 0 (methodsRest n) (Derives .any .methods)
  varDecl : Reads n 1 1 (varDecl n) (Derives .any .variable)
  statement : ∀ loops, Reads n 19 1 (statement n loops) (Derives .any (.statement loops))
  exprStatement : Reads n 18 1 (exprStatement n) (Derives .any .expressionStatement)
  forLoop : ∀ loops, Reads n 1 1 (forLoop n loops) (fun a ts x b => ∀ t : Token,
    t.kind = .kwFor → Derives .any (.statement loops) a (t :: ts) x b)
  forInit : Reads n 19 1 (forInit n) (Derives .any .loopStart)
  whileLoop : ∀ loops, Reads n 1 1 (whileLoop n loops) (fun a ts x b => ∀ t : Token,
    t.kind = .kwWhile → Derives .any (.statement loops) a (t :: ts) x b)
  branch : ∀ loops, Reads n 1 1 (branch n loops) (fun a ts x b => ∀ t : Token,
    t.kind = .kwIf → Derives .any (.statement loops) a (t :: ts) x b)
  ret : ∀ loops t, t.kind = .kwReturn → Reads n 18 1 (ret n t)
    (fun a ts x b => Derives .any (.statement loops) a (t :: ts) x b)
  blockRest : ∀ loops, Reads n 23 1 (blockRest n loops) (fun a ts x b => ∃ us u,
    u.kind = .rightBrace ∧ Derives .any (.declarations loops) a us x b ∧ ts = us ++ [u])
  declarations : ∀ loops, Reads n 22 0 (declarations n loops) (Derives .any (.declarations loops))

theorem readsAt_starve {α : Type} {r k : Nat} {L : Language α} {s : Cursor} :
    ReadsAt 0 r k starve L s := Nat.zero_le _

/-! ## 2. Expressions -/

section Expressions

variable {n : Nat}

/-- Nothing more to read behind a phrase. -/
theorem reads_done {s : Symbol} (left : s.Tree) {r : Nat} :
    Reads n r 0 (pure left) (Extends s left) := fun c _ => by
  refine ReadsAt.mono (ReadsAt.pure left) ?_
  intro a ts x b hread
  obtain ⟨rfl, rfl, rfl⟩ := hread
  exact extends_nil

theorem expression_reads (ih : Sound n) :
    Reads (n + 1) 17 1 (expression (n + 1)) (Derives .any .expression) := fun s he => by
  rw [expression]
  refine ReadsAt.mono (ReadsAt.bind he (ih.assignment.call (by omega) s he)
    (fun e => (ih.moreAssignments e).call (by omega)) (by omega)) ?_
  intro a ts x b hread
  obtain ⟨us, e, c, vs, he, hx, rfl⟩ := hread
  exact hx _ _ (.oneAssignment he)

theorem moreAssignments_reads (ih : Sound n) (left : Expr) :
    Reads (n + 1) 1 0 (moreAssignments (n + 1) left) (Extends .expression left) := fun s he => by
  rw [moreAssignments]
  refine ReadsAt.mono (ReadsAt.acceptIf he (reads_done (s := .expression) left s he)
    (fun op hop s he => ReadsAt.bind he (ih.assignment.call (by omega) s he)
      (fun e => (ih.moreAssignments (.binary left op e)).call (by omega)) (Nat.le_refl _))
    (by omega)) ?_
  intro a ts x b hread
  rcases hread with h | ⟨op, us, hop, ⟨vs, e, c, ws, he, hx, rfl⟩, rfl⟩
  · exact h
  · intro z zs hz
    have h := hx _ _ (.comma hz (of_decide_eq_true hop) he)
    simpa using h

/-- What a phrase tighter than an assignment is, where its tree is a name or a property. -/
def IsTarget : (s : Symbol) → Nat → List Token → s.Tree → Nat → Prop
  | .primary, a, ts, x, b | .call, a, ts, x, b | .unary, a, ts, x, b | .within _, a, ts, x, b
  | .operand _, a, ts, x, b | .conditional, a, ts, x, b =>
    (∀ ref, x = .read ref →
      ∃ t : Token, t.kind = .identifier ∧ ts = [t] ∧ ref = ⟨⟨a⟩, t⟩ ∧ b = a + 1) ∧
    (∀ e n, x = .get e n → ∃ us, ∃ d : Token,
      Derives .any .call a us e b ∧ d.kind = .dot ∧ n.kind = .identifier ∧ ts = us ++ [d, n])
  | _, _, _, _, _ => True

theorem isTarget {s : Symbol} {a b : Nat} {ts : List Token} {x : s.Tree}
    (h : Derives .any s a ts x b) : IsTarget s a ts x b := by
  induction h with
  | @name a t h => exact ⟨fun ref e => ⟨t, h, rfl, by simpa using e.symm, rfl⟩, by simp⟩
  | property he hd hn =>
    refine ⟨by simp, fun e n h => ?_⟩
    obtain ⟨rfl, rfl⟩ := Expr.get.inj h
    exact ⟨_, _, he, hd, hn, rfl⟩
  | join => exact ⟨fun _ h => absurd h (by unfold Level.join; split <;> simp),
      fun _ _ h => absurd h (by unfold Level.join; split <;> simp)⟩
  | callee _ ih | unsigned _ ih | tightest _ ih | tighter _ ih | single _ ih | noChoice _ ih =>
    exact ih
  | literal | this | super | lambda | group | apply | sign | choice => exact ⟨by simp, by simp⟩
  | _ => trivial

theorem assigned_assignedValue (target : Expr) {equals : Token} {value : Expr}
    (h : assigns equals.kind = true) :
    Assigned target equals value (assignedValue target equals value) := by
  unfold assignedValue innerOperator?
  cases hk : equals.kind <;> rw [hk] at h <;> try cases h
  · exact .plain hk
  all_goals exact .joined (by rw [hk]; decide)

theorem assignTo_reads (target : Expr) (equals : Token) (value : Expr) {m r : Nat} :
    Reads m r 0 (assignTo target equals value) (fun c ts x d => ts = [] ∧
      ((∃ ref, target = .read ref ∧ x = .assign ⟨⟨c⟩, ref.token⟩ value ∧ d = c + 1) ∨
        ∃ e n, target = .get e n ∧ x = .set e n value ∧ d = c)) := fun s he => by
  unfold assignTo
  split
  · rename_i ref
    refine ReadsAt.mono (ReadsAt.refer he fun r s _ => ReadsAt.pure _) ?_
    intro c ts x d hread
    obtain ⟨rfl, rfl, rfl⟩ := hread
    exact ⟨rfl, .inl ⟨ref, rfl, rfl, rfl⟩⟩
  · rename_i e n
    refine ReadsAt.mono (ReadsAt.pure _) ?_
    intro c ts x d hread
    obtain ⟨rfl, rfl, rfl⟩ := hread
    exact ⟨rfl, .inr ⟨e, n, rfl, rfl, rfl⟩⟩
  · exact ReadsAt.report he fun s _ => ReadsAt.pure _

theorem assignment_reads (ih : Sound n) :
    Reads (n + 1) 16 1 (assignment (n + 1)) (Derives .any .assignment) := fun s he => by
  rw [assignment]
  refine ReadsAt.mono (ReadsAt.bind he (ih.conditional.call (by omega) s he)
    (fun target s he => ReadsAt.acceptIf he (ReadsAt.pure target)
      (fun equals _ s he => ReadsAt.bind he (ih.assignment.call (by omega) s he)
        (fun value => assignTo_reads target equals (assignedValue target equals value))
        (Nat.le_refl _))
      (by omega)) (by omega)) ?_
  intro a ts x b hread
  obtain ⟨us, target, c, vs, ht, ⟨rfl, rfl, rfl⟩ | ⟨equals, ws, heq, ⟨vs', value, d, _, hv,
    ⟨rfl, hx⟩, rfl⟩, rfl⟩, rfl⟩ := hread
  · rw [List.append_nil]
    exact .noAssignment ht
  · rw [List.append_nil]
    obtain ⟨hread, hget⟩ := isTarget ht
    rcases hx with ⟨ref, rfl, rfl, rfl⟩ | ⟨e, m, rfl, rfl, rfl⟩
    · obtain ⟨t, hk, rfl, rfl, rfl⟩ := hread ref rfl
      exact .assign hk hv (assigned_assignedValue _ heq)
    · obtain ⟨ys, d, hcall, hd, hm, rfl⟩ := hget e m rfl
      have h := Derives.set hcall hd hm hv (assigned_assignedValue (.get e m) heq)
      simpa using h

theorem conditional_reads (ih : Sound n) :
    Reads (n + 1) 15 1 (conditional (n + 1)) (Derives .any .conditional) := fun s he => by
  rw [conditional]
  refine ReadsAt.mono (ReadsAt.bind he ((ih.operand .or).call (by decide) s he)
    (fun e s he => ReadsAt.acceptIf he (ReadsAt.pure e)
      (fun q _ s he => ReadsAt.bind he (ih.expression.call (by omega) s he)
        (fun yes s he => ReadsAt.expect he fun u _ s he =>
          ReadsAt.bind he (ih.conditional.call (by omega) s he)
            (fun no _ _ => ReadsAt.pure (Expr.conditional e yes no)) (Nat.le_refl _))
        (Nat.le_refl _))
      (by omega)) (by omega)) ?_
  intro a ts x b hread
  obtain ⟨us, e, c, vs, he, ⟨rfl, rfl, rfl⟩ | ⟨q, _, hq, ⟨us', yes, d, _, hyes, ⟨u, _, hu,
    ⟨vs', no, _, _, hno, ⟨rfl, rfl, rfl⟩, rfl⟩, rfl⟩, rfl⟩, rfl⟩, rfl⟩ := hread
  · rw [List.append_nil]
    exact .noChoice he
  · rw [List.append_nil]
    exact .choice he (of_decide_eq_true hq) hyes hu hno

theorem operand_reads (ih : Sound n) (l : Level) :
    Reads (n + 1) l.rank 1 (operand (n + 1) l) (Derives .any (.operand l)) := fun s he => by
  rw [operand]
  refine ReadsAt.mono (ReadsAt.bind he ((ih.operandWithin l.tighter?).call (Nat.le_of_eq (rank_tighter l)) s he)
    (fun e => (ih.moreOperands l e).call (by omega)) (by omega)) ?_
  intro a ts x b hread
  obtain ⟨us, e, c, vs, he, hx, rfl⟩ := hread
  exact hx _ _ (.single he)

theorem moreOperands_reads (ih : Sound n) (l : Level) (left : Expr) :
    Reads (n + 1) 1 0 (moreOperands (n + 1) l left) (Extends (.operand l) left) := fun s he => by
  rw [moreOperands]
  have hrank := rankWithin_le l.tighter?
  refine ReadsAt.mono (ReadsAt.acceptIf he (reads_done (s := .operand l) left s he)
    (fun op _ s he => ReadsAt.bind he ((ih.operandWithin l.tighter?).call (by omega) s he)
      (fun e => (ih.moreOperands l (l.join left op e)).call (by omega)) (Nat.le_refl _))
    (by omega)) ?_
  intro a ts x b hread
  rcases hread with h | ⟨op, us, hop, ⟨vs, e, c, ws, he, hx, rfl⟩, rfl⟩
  · exact h
  · intro z zs hz
    have h := hx _ _ (.join hz hop he)
    simpa using h

theorem operandWithin_reads (ih : Sound n) (l : Option Level) :
    Reads (n + 1) (rankWithin l) 1 (operandWithin (n + 1) l) (Derives .any (.within l)) :=
  fun s he => by
  rcases l with _ | l
  · rw [operandWithin]
    exact (ih.unary.call (by decide) s he).mono fun _ _ _ _ h => .tightest h
  · rw [operandWithin]
    exact ((ih.operand l).call (Nat.le_refl _) s he).mono fun _ _ _ _ h => .tighter h

theorem unary_reads (ih : Sound n) :
    Reads (n + 1) 2 1 (unary (n + 1)) (Derives .any .unary) := fun s he => by
  rw [unary]
  refine ReadsAt.mono (ReadsAt.acceptIf he
    (ReadsAt.bind he (ih.primary.call (by omega) s he)
      (fun e => (ih.moreCalls e).call (by omega)) (by omega))
    (fun op _ s he => ReadsAt.bind he (ih.unary.call (by omega) s he)
      (fun e _ _ => ReadsAt.pure (Expr.unary op e)) (Nat.le_refl _))
    (by omega)) ?_
  intro a ts x b hread
  rcases hread with ⟨us, e, c, vs, he, hx, rfl⟩ | ⟨op, us, hop, ⟨vs, e, c, _, he,
    ⟨rfl, rfl, rfl⟩, rfl⟩, rfl⟩
  · exact .unsigned (hx _ _ (.callee he))
  · rw [List.append_nil]
    exact .sign (by simpa using hop) he

theorem arguments_reads (ih : Sound n) :
    Reads (n + 1) 17 1 (arguments (n + 1)) (Derives .any .arguments) := fun s he => by
  rw [arguments]
  refine ReadsAt.mono (ReadsAt.bind he (ih.assignment.call (by omega) s he)
    (fun e s he => ReadsAt.acceptIf he (ReadsAt.pure [e])
      (fun t _ s he => ReadsAt.bind he (ih.arguments.call (by omega) s he)
        (fun es _ _ => ReadsAt.pure (e :: es)) (Nat.le_refl _))
      (by omega)) (by omega)) ?_
  intro a ts x b hread
  obtain ⟨us, e, c, vs, he, ⟨rfl, rfl, rfl⟩ | ⟨t, _, ht, ⟨us', es, _, _, hes,
    ⟨rfl, rfl, rfl⟩, rfl⟩, rfl⟩, rfl⟩ := hread
  · rw [List.append_nil]
    exact .lastArgument he
  · rw [List.append_nil]
    exact .moreArguments he (of_decide_eq_true ht) hes

theorem moreCalls_reads (ih : Sound n) (left : Expr) :
    Reads (n + 1) 1 0 (moreCalls (n + 1) left) (Extends .call left) := fun s he => by
  rw [moreCalls]
  refine ReadsAt.mono (ReadsAt.acceptIf he
    (ReadsAt.acceptIf he (reads_done (s := .call) left s he)
      (fun d _ s he => ReadsAt.expect he fun m _ =>
        (ih.moreCalls (.get left m)).call (by omega)) (by omega))
    (fun p _ s he => ReadsAt.bind he (ReadsAt.before he (ih.arguments.call (by omega) s he))
      (fun args s he => ReadsAt.limit he fun s he => ReadsAt.expect he fun q _ =>
        (ih.moreCalls (.call left q (args.getD []))).call (by omega)) (Nat.le_refl _))
    (by omega)) ?_
  rintro a ts x b ((h | ⟨d, us, hd, ⟨m, vs, hm, hx, rfl⟩, rfl⟩) |
    ⟨p, us, hp, ⟨vs, args, c, _, hargs, ⟨hlimit, q, ws, hq, hx, rfl⟩, rfl⟩, rfl⟩) <;> intro z zs hz
  · exact h _ _ hz
  · have h := hx _ _ (.property hz (of_decide_eq_true hd) hm)
    simpa using h
  · have hlist : Derives .any .argumentList a vs (args.getD []) c := by
      rcases hargs with ⟨rfl, rfl, rfl⟩ | ⟨es, rfl, hes⟩
      · exact .noArguments
      · exact .someArguments hes hlimit
    have h := hx _ _ (.apply hz (of_decide_eq_true hp) hlist hq)
    simpa using h

/-- A token that is a literal by itself. -/
theorem literal_reads {m r : Nat} {s : Cursor} {t : Token} {ts : List Token} {l : Literal}
    (he : s.eof.kind = .eof) (hs : s.ahead = t :: ts) (hl : literalOf? t.kind = some l) :
    ReadsAt m r 1 (do skip; return .literal l) (Derives .any .primary) s := by
  refine ReadsAt.mono (ReadsAt.skip he hs fun _ _ => ReadsAt.pure (Expr.literal l)) ?_
  intro a us x b hread
  obtain ⟨_, ⟨rfl, rfl, rfl⟩, rfl⟩ := hread
  exact .literal hl

theorem primary_reads (ih : Sound n) :
    Reads (n + 1) 1 1 (primary (n + 1)) (Derives .any .primary) := fun s he => by
  rw [primary]
  refine ReadsAt.peek ?_
  rcases hs : s.ahead with _ | ⟨t, ts⟩
  · show ReadsAt _ _ _ (match s.eof.kind with | _ => _) _ s
    simp only [List.head?_nil, Option.getD_none, he]
    exact ReadsAt.fail _
  · simp only [List.head?_cons, Option.getD_some]
    split
    · rename_i ht
      exact literal_reads he hs (by rw [ht]; rfl)
    · rename_i ht
      exact literal_reads he hs (by rw [ht]; rfl)
    · rename_i ht
      exact literal_reads he hs (by rw [ht]; rfl)
    · rename_i ht
      exact literal_reads he hs (by rw [ht]; rfl)
    · rename_i ht
      exact literal_reads he hs (by rw [ht]; rfl)
    · rename_i ht
      refine (ReadsAt.mono (ReadsAt.skip he hs fun s he => ReadsAt.expect he fun d _ s he =>
        ReadsAt.expect he fun m _ s he => ReadsAt.refer he fun ref s _ =>
          ReadsAt.pure (Expr.super ref m)) ?_).weaken (by omega)
      intro a us x b hread
      obtain ⟨_, ⟨d, _, hd, ⟨m, _, hm, ⟨rfl, rfl, rfl⟩, rfl⟩, rfl⟩, rfl⟩ := hread
      exact .super ht hd hm
    · rename_i ht
      refine ReadsAt.mono (ReadsAt.skip he hs fun s he => ReadsAt.refer he fun ref s _ =>
        ReadsAt.pure (Expr.this ref)) ?_
      intro a us x b hread
      obtain ⟨_, ⟨rfl, rfl, rfl⟩, rfl⟩ := hread
      exact .this ht
    · rename_i ht
      refine ReadsAt.mono (ReadsAt.skip he hs fun s he => ReadsAt.refer he fun ref s _ =>
        ReadsAt.pure (Expr.read ref)) ?_
      intro a us x b hread
      obtain ⟨_, ⟨rfl, rfl, rfl⟩, rfl⟩ := hread
      exact .name ht
    · rename_i ht
      refine (ReadsAt.mono (ReadsAt.skip he hs fun s he =>
        ReadsAt.bind he ((ih.code .lambda).call (by omega) s he) (fun c _ _ =>
          ReadsAt.pure (Expr.lambda c)) (Nat.le_refl _)) ?_).weaken (by omega)
      intro a us x b hread
      obtain ⟨_, ⟨vs, c, _, _, hc, ⟨rfl, rfl, rfl⟩, rfl⟩, rfl⟩ := hread
      rw [List.append_nil]
      exact .lambda ht hc
    · rename_i ht
      refine (ReadsAt.mono (ReadsAt.skip he hs fun s he =>
        ReadsAt.bind he (ih.expression.call (by omega) s he) (fun e s he =>
          ReadsAt.expect he fun u _ s _ => ReadsAt.pure (Expr.group e)) (Nat.le_refl _))
        ?_).weaken (by omega)
      intro a us x b hread
      obtain ⟨_, ⟨vs, e, _, _, he, ⟨u, _, hu, ⟨rfl, rfl, rfl⟩, rfl⟩, rfl⟩, rfl⟩ := hread
      exact .group ht he hu
    · split
      · rename_i l _
        have := rank_le l
        refine (ReadsAt.mono (ReadsAt.skip (L := fun _ _ _ _ => False) he hs fun s he =>
          ReadsAt.report he fun s he => ReadsAt.bind he ((ih.operand l).call (by omega) s he)
            (fun _ _ _ => ReadsAt.pure (Expr.literal .nil)) (Nat.le_refl _)) ?_).weaken (by omega)
        exact fun a us x b ⟨_, h, _⟩ => h.elim
      · exact ReadsAt.fail _

end Expressions

/-! ## 3. Functions -/

theorem names_reads : ∀ m, Reads m 1 1 (parameterNames m) (Derives .any .names)
  | 0 => fun _ _ => readsAt_starve
  | m + 1 => fun s he => by
    rw [parameterNames]
    refine ReadsAt.mono (ReadsAt.expect he fun t _ s he => ReadsAt.acceptIf he
      (ReadsAt.pure [t]) (fun c _ s he => ReadsAt.bind he ((names_reads m).call (by omega) s he)
        (fun ts _ _ => ReadsAt.pure (t :: ts)) (Nat.le_refl _)) (by omega)) ?_
    intro a us x b hread
    obtain ⟨t, _, ht, ⟨rfl, rfl, rfl⟩ | ⟨c, _, hc, ⟨vs, ts, _, _, hts,
      ⟨rfl, rfl, rfl⟩, rfl⟩, rfl⟩, rfl⟩ := hread
    · exact .lastName ht
    · rw [List.append_nil]
      exact .moreNames ht (of_decide_eq_true hc) hts

theorem parameters_reads (m : Nat) {r : Nat} (hr : 1 ≤ r) : Reads m r 1 (parameters m)
    (fun a ts ns b => ∃ us q, q.kind = .rightParen ∧ Derives .any .parameterList a us ns b ∧
      ts = us ++ [q]) := fun s he => by
  unfold parameters
  refine ReadsAt.mono (ReadsAt.bind he (ReadsAt.before he ((names_reads m s he).costlier hr))
    (fun ns s he =>
    ReadsAt.limit he fun s he => ReadsAt.expect he fun q _ s _ => ReadsAt.pure (ns.getD []))
    (by omega)) ?_
  intro a ts x b hread
  obtain ⟨us, ns, c, _, hns, ⟨hlimit, q, _, hq, ⟨rfl, rfl, rfl⟩, rfl⟩, rfl⟩ := hread
  refine ⟨us, q, hq, ?_, rfl⟩
  rcases hns with ⟨rfl, rfl, rfl⟩ | ⟨ns, rfl, hns⟩
  · exact .noParameters
  · exact .someParameters hns hlimit

section Functions

variable {n : Nat}

theorem code_reads (ih : Sound n) (f : Callable) :
    Reads (n + 1) 1 1 (code (n + 1) f) (Derives .any .code) := fun s he => by
  rw [code]
  refine (ReadsAt.mono (ReadsAt.expect he fun p _ s he =>
    ReadsAt.bind he ((parameters_reads n (r := 1) (Nat.le_refl _)).call (by omega) s he)
      (fun ns s he => ReadsAt.expect he fun o _ s he =>
        ReadsAt.bind he ((ih.blockRest 0).call (by omega) s he)
          (fun body _ _ => ReadsAt.pure (Code.mk ns body)) (Nat.le_refl _)) (Nat.le_refl _))
    ?_).weaken (by omega)
  intro a ts x b hread
  obtain ⟨p, _, hp, ⟨_, ns, c, _, ⟨us, q, hq, hns, rfl⟩, ⟨o, _, ho, ⟨_, body, _, _,
    ⟨vs, u, hu, hbody, rfl⟩, ⟨rfl, rfl, rfl⟩, rfl⟩, rfl⟩, rfl⟩, rfl⟩ := hread
  have h := Derives.code hp hns hq ho hbody hu
  simpa using h

theorem funDecl_reads (ih : Sound n) (f : Callable) :
    Reads (n + 1) 1 1 (funDecl (n + 1) f) (Derives .any .function) := fun s he => by
  rw [funDecl]
  refine (ReadsAt.mono (ReadsAt.expect he fun m _ s he =>
    ReadsAt.bind he ((ih.code f).call (by omega) s he)
      (fun c _ _ => ReadsAt.pure (FunDecl.mk m c)) (Nat.le_refl _)) ?_).weaken (by omega)
  intro a ts x b hread
  obtain ⟨m, _, hm, ⟨us, c, _, _, hc, ⟨rfl, rfl, rfl⟩, rfl⟩, rfl⟩ := hread
  rw [List.append_nil]
  exact .function hm hc

theorem methodsRest_reads (ih : Sound n) :
    Reads (n + 1) 2 0 (methodsRest (n + 1)) (Derives .any .methods) := fun s he => by
  rw [methodsRest]
  refine ReadsAt.check (ReadsAt.atEnd ?_)
  split
  · refine ReadsAt.mono (ReadsAt.pure []) ?_
    intro a ts x b hread
    obtain ⟨rfl, rfl, rfl⟩ := hread
    exact .noMethods
  · refine ReadsAt.mono (ReadsAt.bind he ((ih.funDecl .method).call (by omega) s he)
      (fun f s he => ReadsAt.bind he (ih.methodsRest.call (by omega) s he)
        (fun fs _ _ => ReadsAt.pure (f :: fs)) (Nat.le_refl _)) (by omega)) ?_
    intro a ts x b hread
    obtain ⟨us, f, c, _, hf, ⟨vs, fs, _, _, hfs, ⟨rfl, rfl, rfl⟩, rfl⟩, rfl⟩ := hread
    rw [List.append_nil]
    exact .moreMethods hf hfs

end Functions

/-! ## 4. Statements -/

section Statements

variable {n : Nat}

theorem exprStatement_reads (ih : Sound n) :
    Reads (n + 1) 18 1 (exprStatement (n + 1)) (Derives .any .expressionStatement) :=
  fun s he => by
  rw [exprStatement]
  refine (ReadsAt.mono (ReadsAt.bind he (ih.expression.call (by omega) s he) (fun e s he =>
    ReadsAt.expect he fun t _ s _ => ReadsAt.pure (Stmt.expr e)) (Nat.le_refl _)) ?_).weaken
    (by omega)
  intro a ts x b hread
  obtain ⟨us, e, c, _, he, ⟨t, _, ht, ⟨rfl, rfl, rfl⟩, rfl⟩, rfl⟩ := hread
  exact .expressionStatement he ht

theorem varDecl_reads (ih : Sound n) :
    Reads (n + 1) 1 1 (varDecl (n + 1)) (Derives .any .variable) := fun s he => by
  rw [varDecl]
  refine (ReadsAt.mono (ReadsAt.expect he fun m _ s he =>
    ReadsAt.bind he (ReadsAt.behind he (ih.expression.call (by omega))) (fun init s he =>
      ReadsAt.expect he fun t _ s _ =>
        ReadsAt.pure (Stmt.varDecl m (init.getD (.literal .nil)))) (Nat.le_refl _)) ?_).weaken
    (by omega)
  intro a ts x b hread
  obtain ⟨m, _, hm, ⟨us, init, c, _, hinit, ⟨t, _, ht, ⟨rfl, rfl, rfl⟩, rfl⟩, rfl⟩, rfl⟩ := hread
  rcases hinit with ⟨rfl, rfl, rfl⟩ | ⟨eq, us, e, heq, rfl, he, rfl⟩
  · exact .bareVariable hm ht
  · exact .initializedVariable hm heq he ht

theorem forInit_reads (ih : Sound n) :
    Reads (n + 1) 19 1 (forInit (n + 1)) (Derives .any .loopStart) := fun s he => by
  rw [forInit]
  refine ReadsAt.mono (ReadsAt.acceptIf (j := 0) he (ReadsAt.acceptIf (j := 1) he
    (ReadsAt.map some he (ih.exprStatement.call (by omega) s he))
    (fun t _ s he => ReadsAt.map some he (ih.varDecl.call (by omega) s he)) (by omega))
    (fun t _ s _ => ReadsAt.pure none) (by omega)) ?_
  intro a ts x b hread
  rcases hread with (⟨s, rfl, hs⟩ | ⟨t, us, ht, ⟨s, rfl, hs⟩, rfl⟩) | ⟨t, _, ht,
    ⟨rfl, rfl, rfl⟩, rfl⟩
  · exact .expressionStart hs
  · exact .variableStart (of_decide_eq_true ht) hs
  · exact .noStart (of_decide_eq_true ht)

theorem optionalExpression_derives {a b : Nat} {ts : List Token} {o : Option Expr}
    (h : (o = none ∧ ts = [] ∧ b = a) ∨ ∃ e, o = some e ∧ Derives .any .expression a ts e b) :
    Derives .any .optionalExpression a ts o b := by
  rcases h with ⟨rfl, rfl, rfl⟩ | ⟨e, rfl, he⟩
  · exact .noExpression
  · exact .someExpression he

theorem forLoop_reads (ih : Sound n) (loops : Nat) :
    Reads (n + 1) 1 1 (forLoop (n + 1) loops) (fun a ts x b => ∀ t : Token, t.kind = .kwFor →
      Derives .any (.statement loops) a (t :: ts) x b) := fun s he => by
  rw [forLoop]
  refine (ReadsAt.mono (ReadsAt.expect he fun p _ s he =>
    ReadsAt.bind he (ih.forInit.call (by omega) s he) (fun init s he =>
      ReadsAt.bind he (ReadsAt.before he (ih.expression.call (by omega) s he)) (fun cond s he =>
        ReadsAt.expect he fun u _ s he =>
          ReadsAt.bind he (ReadsAt.before he (ih.expression.call (by omega) s he)) (fun inc s he =>
            ReadsAt.expect he fun q _ s he =>
              ReadsAt.bind he ((ih.statement (loops + 1)).call (by omega) s he) (fun body _ _ =>
                ReadsAt.pure (Stmt.forLoop init (cond.getD (.literal (.bool true))) inc body))
                (Nat.le_refl _))
            (Nat.le_refl _)) (Nat.le_refl _)) (Nat.le_refl _)) ?_).weaken (by omega)
  intro a ts x b hread t ht
  obtain ⟨p, _, hp, ⟨is, init, c, _, hinit, ⟨cs, cond, d, _, hcond, ⟨u, _, hu, ⟨us, inc, e, _, hinc,
    ⟨q, _, hq, ⟨ss, body, f, _, hbody,
    ⟨rfl, rfl, rfl⟩, rfl⟩, rfl⟩, rfl⟩, rfl⟩, rfl⟩, rfl⟩, rfl⟩ := hread
  rw [List.append_nil]
  exact .forLoop ht hp hinit (optionalExpression_derives hcond) hu
    (optionalExpression_derives hinc) hq hbody

theorem whileLoop_reads (ih : Sound n) (loops : Nat) :
    Reads (n + 1) 1 1 (whileLoop (n + 1) loops) (fun a ts x b => ∀ t : Token,
      t.kind = .kwWhile → Derives .any (.statement loops) a (t :: ts) x b) := fun s he => by
  rw [whileLoop]
  refine (ReadsAt.mono (ReadsAt.expect he fun p _ s he =>
    ReadsAt.bind he (ih.expression.call (by omega) s he) (fun cond s he =>
      ReadsAt.expect he fun q _ s he =>
        ReadsAt.bind he ((ih.statement (loops + 1)).call (by omega) s he) (fun body _ _ =>
          ReadsAt.pure (Stmt.whileLoop cond body)) (Nat.le_refl _)) (Nat.le_refl _)) ?_).weaken
    (by omega)
  intro a ts x b hread t ht
  obtain ⟨p, _, hp, ⟨us, cond, c, _, hcond, ⟨q, _, hq, ⟨ss, body, d, _, hbody,
    ⟨rfl, rfl, rfl⟩, rfl⟩, rfl⟩, rfl⟩, rfl⟩ := hread
  rw [List.append_nil]
  exact .whileLoop ht hp hcond hq hbody

theorem branch_reads (ih : Sound n) (loops : Nat) :
    Reads (n + 1) 1 1 (branch (n + 1) loops) (fun a ts x b => ∀ t : Token, t.kind = .kwIf →
      Derives .any (.statement loops) a (t :: ts) x b) := fun s he => by
  rw [branch]
  refine (ReadsAt.mono (ReadsAt.expect he fun p _ s he =>
    ReadsAt.bind he (ih.expression.call (by omega) s he) (fun cond s he =>
      ReadsAt.expect he fun q _ s he =>
        ReadsAt.bind he ((ih.statement loops).call (by omega) s he) (fun yes s he =>
          ReadsAt.bind he (ReadsAt.behind he ((ih.statement loops).call (by omega)))
            (fun no _ _ => ReadsAt.pure (Stmt.branch cond yes no)) (Nat.le_refl _))
          (Nat.le_refl _)) (Nat.le_refl _)) ?_).weaken (by omega)
  intro a ts x b hread t ht
  obtain ⟨p, _, hp, ⟨us, cond, c, _, hcond, ⟨q, _, hq, ⟨ss, yes, d, _, hyes, ⟨vs, no, e, _, hno,
    ⟨rfl, rfl, rfl⟩, rfl⟩, rfl⟩, rfl⟩, rfl⟩, rfl⟩ := hread
  rw [List.append_nil]
  rcases hno with ⟨rfl, rfl, rfl⟩ | ⟨u, vs, no, hu, rfl, hno, rfl⟩
  · rw [List.append_nil]
    exact .branch ht hp hcond hq hyes
  · exact .branchElse ht hp hcond hq hyes hu hno (fun h => nomatch h)

theorem ret_reads (ih : Sound n) (loops : Nat) (t : Token) (ht : t.kind = .kwReturn) :
    Reads (n + 1) 18 1 (ret (n + 1) t)
      (fun a ts x b => Derives .any (.statement loops) a (t :: ts) x b) := fun s he => by
  rw [ret]
  refine ReadsAt.mono (ReadsAt.bind he (ReadsAt.before he (ih.expression.call (by omega) s he))
    (fun value s he => ReadsAt.expect he fun u _ s _ => ReadsAt.pure (Stmt.ret t value))
    (by omega)) ?_
  intro a ts x b hread
  obtain ⟨us, value, c, _, hvalue, ⟨u, _, hu, ⟨rfl, rfl, rfl⟩, rfl⟩, rfl⟩ := hread
  exact .ret ht (optionalExpression_derives hvalue) hu

theorem loopExit_reads {m r : Nat} (loops : Nat) (e : LoopExit) (t : Token) :
    Reads m r 1 (loopExit loops e t) (fun a ts x b => 0 < loops ∧ b = a ∧
      x = exitStatement e t ∧ ∃ u, u.kind = .semicolon ∧ ts = [u]) := fun s he => by
  unfold loopExit complainOutside
  split
  · exact ReadsAt.report he fun s he => ReadsAt.expect he fun u _ s _ =>
      ReadsAt.pure (exitStatement e t)
  · rename_i hloops
    rw [pure_bind]
    refine ReadsAt.mono (ReadsAt.expect he fun u _ s _ => ReadsAt.pure (exitStatement e t)) ?_
    intro a ts x b hread
    obtain ⟨u, _, hu, ⟨rfl, rfl, rfl⟩, rfl⟩ := hread
    exact ⟨Nat.pos_of_ne_zero hloops, rfl, rfl, u, hu, rfl⟩

theorem blockRest_reads (ih : Sound n) (loops : Nat) :
    Reads (n + 1) 23 1 (blockRest (n + 1) loops) (fun a ts x b => ∃ us u,
      u.kind = .rightBrace ∧ Derives .any (.declarations loops) a us x b ∧ ts = us ++ [u]) :=
  fun s he => by
  rw [blockRest]
  refine ReadsAt.mono (ReadsAt.bind he ((ih.declarations loops).call (by omega) s he)
    (fun body s he => ReadsAt.expect he fun u _ s _ => ReadsAt.pure body) (by omega)) ?_
  intro a ts x b hread
  obtain ⟨us, body, c, _, hbody, ⟨u, _, hu, ⟨rfl, rfl, rfl⟩, rfl⟩, rfl⟩ := hread
  exact ⟨us, u, hu, hbody, rfl⟩

theorem statement_reads (ih : Sound n) (loops : Nat) :
    Reads (n + 1) 19 1 (statement (n + 1) loops) (Derives .any (.statement loops)) :=
  fun s he => by
  rw [statement]
  refine ReadsAt.peek ?_
  have hsimple : ReadsAt (n + 1) 19 1 (exprStatement n) (Derives .any (.statement loops)) s :=
    ReadsAt.mono (ih.exprStatement.call (by omega) s he) fun _ _ _ _ h => .simple h
  rcases hs : s.ahead with _ | ⟨t, ts⟩
  · simp only [List.head?_nil, Option.getD_none, he]
    exact hsimple
  · simp only [List.head?_cons, Option.getD_some]
    split
    · rename_i ht
      refine (ReadsAt.mono (ReadsAt.skip he hs ((ih.forLoop loops).call (by omega))) ?_).weaken
        (by omega)
      intro a us x b hread
      obtain ⟨vs, h, rfl⟩ := hread
      exact h t ht
    · rename_i ht
      refine (ReadsAt.mono (ReadsAt.skip he hs ((ih.branch loops).call (by omega))) ?_).weaken
        (by omega)
      intro a us x b hread
      obtain ⟨vs, h, rfl⟩ := hread
      exact h t ht
    · rename_i ht
      refine (ReadsAt.mono (ReadsAt.skip he hs ((ih.ret loops t ht).call (by omega))) ?_).weaken
        (by omega)
      intro a us x b hread
      obtain ⟨vs, h, rfl⟩ := hread
      exact h
    · rename_i ht
      refine (ReadsAt.mono (ReadsAt.skip he hs ((ih.whileLoop loops).call (by omega))) ?_).weaken
        (by omega)
      intro a us x b hread
      obtain ⟨vs, h, rfl⟩ := hread
      exact h t ht
    · rename_i ht
      refine (ReadsAt.mono (ReadsAt.skip he hs fun s he =>
        ReadsAt.bind he ((ih.blockRest loops).call (by omega) s he)
          (fun body _ _ => ReadsAt.pure (Stmt.block body)) (Nat.le_refl _)) ?_).weaken (by omega)
      intro a us x b hread
      obtain ⟨_, ⟨_, body, _, _, ⟨vs, u, hu, hbody, rfl⟩, ⟨rfl, rfl, rfl⟩, rfl⟩, rfl⟩ := hread
      rw [List.append_nil]
      exact .block ht hbody hu
    · rename_i ht
      refine (ReadsAt.mono (ReadsAt.skip he hs (loopExit_reads loops .leave t)) ?_).weaken
        (by omega)
      intro a us x b hread
      obtain ⟨_, ⟨hloops, rfl, rfl, u, hu, rfl⟩, rfl⟩ := hread
      exact .leave ht hu hloops
    · rename_i ht
      refine (ReadsAt.mono (ReadsAt.skip he hs (loopExit_reads loops .next t)) ?_).weaken
        (by omega)
      intro a us x b hread
      obtain ⟨_, ⟨hloops, rfl, rfl, u, hu, rfl⟩, rfl⟩ := hread
      exact .next ht hu hloops
    · exact hsimple

end Statements

/-! ## 5. Declarations -/

section Declarations

variable {n : Nat}

theorem superclassName_reads {m r : Nat} : Reads m r 1 superclassName (fun a ts x b =>
    ∃ t : Token, t.kind = .identifier ∧ ts = [t] ∧ x = ⟨⟨a⟩, t⟩ ∧ b = a + 1) := fun s he => by
  unfold superclassName
  refine ReadsAt.mono (ReadsAt.expect he fun t _ s he => readsAt_refer t he) ?_
  intro a ts x b hread
  obtain ⟨t, _, ht, ⟨rfl, rfl, rfl⟩, rfl⟩ := hread
  exact ⟨t, ht, rfl, rfl, rfl⟩

theorem classDecl_reads (ih : Sound n) (loops : Nat) :
    Reads (n + 1) 1 1 (classDecl (n + 1)) (fun a ts x b => ∀ t : Token, t.kind = .kwClass →
      Derives .any (.declaration loops) a (t :: ts) x b) := fun s he => by
  rw [classDecl]
  refine (ReadsAt.mono (ReadsAt.expect he fun m _ s he =>
    ReadsAt.bind he (ReadsAt.behind he superclassName_reads) (fun sup s he =>
      ReadsAt.expect he fun o _ s he =>
        ReadsAt.bind he (ih.methodsRest.call (by omega) s he) (fun methods s he =>
          ReadsAt.expect he fun u _ s _ => ReadsAt.pure (Stmt.classDecl m sup methods))
          (Nat.le_refl _)) (Nat.le_refl _)) ?_).weaken (by omega)
  intro a ts x b hread t ht
  obtain ⟨m, _, hm, ⟨_, sup, c, _, hsup, ⟨o, _, ho, ⟨ms, methods, d, _, hms, ⟨u, _, hu,
    ⟨rfl, rfl, rfl⟩, rfl⟩, rfl⟩, rfl⟩, rfl⟩, rfl⟩ := hread
  rcases hsup with ⟨rfl, rfl, rfl⟩ | ⟨l, _, _, hl, rfl, ⟨m', hm', rfl, rfl, rfl⟩, rfl⟩
  · exact .classDecl ht hm .noSuperclass ho hms hu
  · exact .classDecl ht hm (.superclass hl hm') ho hms hu

theorem declarationOrFail_reads (ih : Sound n) (loops : Nat) :
    Reads (n + 1) 20 1 (declarationOrFail (n + 1) loops) (Derives .any (.declaration loops)) :=
  fun s he => by
  rw [declarationOrFail]
  refine ReadsAt.mono (ReadsAt.acceptIf he (L := Derives .any (.declaration loops)) ?_
    (fun t _ => (ih.classDecl loops).call (by omega)) (by omega)) ?_
  · refine ReadsAt.check (ReadsAt.checkSecond ?_)
    split
    · rename_i hfun
      obtain ⟨hfun, -⟩ := Bool.and_eq_true_iff.mp hfun
      rcases hs : s.ahead with _ | ⟨t, ts⟩ <;> rw [hs] at hfun
      · cases hfun
      · refine (ReadsAt.mono (ReadsAt.accepted he hs hfun fun s he =>
          ReadsAt.bind he ((ih.funDecl .function).call (by omega) s he)
            (fun f _ _ => ReadsAt.pure (Stmt.funDecl f)) (Nat.le_refl _)) ?_).weaken (by omega)
        intro a us x b hread
        obtain ⟨_, ⟨vs, f, _, _, hf, ⟨rfl, rfl, rfl⟩, rfl⟩, rfl⟩ := hread
        rw [List.append_nil]
        exact .funDecl (of_decide_eq_true hfun) hf
    · refine ReadsAt.mono (ReadsAt.acceptIf he ((ih.statement loops).call (by omega) s he)
        (fun t _ => ih.varDecl.call (by omega)) (by omega)) ?_
      intro a ts x b hread
      rcases hread with h | ⟨t, us, ht, hs, rfl⟩
      · exact .statement h
      · exact .varDecl (of_decide_eq_true ht) hs
  · intro a ts x b hread
    rcases hread with h | ⟨t, us, ht, hs, rfl⟩
    · exact h
    · exact hs t (of_decide_eq_true ht)

/-- Recovery takes a token at least, if there is one. -/
theorem resume_suffix (ts : List Token) :
    ∃ taken, ts = taken ++ resume ts ∧ min 1 ts.length ≤ taken.length := by
  fun_induction resume ts with
  | case1 => exact ⟨[], rfl, Nat.le_refl _⟩
  | case2 t rest => exact ⟨[t], rfl, Nat.min_le_left _ _⟩
  | case3 t => exact ⟨[t], rfl, Nat.min_le_left _ _⟩
  | case4 t u rest => exact ⟨[t], rfl, Nat.min_le_left _ _⟩
  | case5 t u rest _ _ ih =>
    obtain ⟨taken, e, _⟩ := ih
    exact ⟨t :: taken, by rw [List.cons_append, ← e], by simp⟩

theorem declaration_reads (ih : Sound n) (loops : Nat) (s : Cursor) (he : s.eof.kind = .eof)
    (hs : s.ahead ≠ []) : ReadsAt (n + 1) 21 1 (declaration (n + 1) loops)
      (fun a ts o b => ∃ x, o = some x ∧ Derives .any (.declaration loops) a ts x b) s := by
  rw [declaration]
  have h := (ih.declarationOrFail loops).call (q := 21) (by omega) s he
  unfold ReadsAt at h ⊢
  rw [run_recovering]
  generalize (declarationOrFail n loops).run s = o at h ⊢
  rcases o with ⟨(e | _) | x, s'⟩
  · obtain ⟨taken, et, htaken⟩ := resume_suffix s'.ahead
    obtain ⟨before, eb, _⟩ := h.ahead
    have hone : 1 ≤ (before ++ taken).length := by
      have hpos := List.length_pos_iff.mpr hs
      rw [eb, List.length_append] at hpos
      rw [List.length_append]
      omega
    refine ⟨⟨h.eof, h.errors.trans (List.prefix_append _ _), h.nextId, before ++ taken, ?_, hone⟩,
      fun he => ?_⟩
    · rw [List.append_assoc, ← et, eb]
    · -- the failure was reported, so this is no parse without complaints
      have hle := h.errors.length_le
      rw [← he] at hle
      simp only [List.length_append, List.length_singleton] at hle
      omega
  · exact h
  · exact ⟨h.1, fun he => (h.2 he).imp fun ts ⟨e, hts⟩ => ⟨e, x, rfl, hts⟩⟩

theorem declarations_reads (ih : Sound n) (loops : Nat) :
    Reads (n + 1) 22 0 (declarations (n + 1) loops) (Derives .any (.declarations loops)) :=
  fun s he => by
  rw [declarations]
  refine ReadsAt.check (ReadsAt.atEnd ?_)
  split
  · refine ReadsAt.mono (ReadsAt.pure []) ?_
    intro a ts x b hread
    obtain ⟨rfl, rfl, rfl⟩ := hread
    exact .noDeclarations
  · rename_i hend
    have hs : s.ahead ≠ [] := fun h => hend (by rw [h]; exact Bool.or_true _)
    refine ReadsAt.mono (ReadsAt.bind he ((ih.declaration loops s he hs).call (by omega))
      (fun o s he => ReadsAt.bind he ((ih.declarations loops).call (by omega) s he)
        (fun ss _ _ => ReadsAt.pure (o.toList ++ ss)) (Nat.le_refl _)) (by omega)) ?_
    intro a ts x b hread
    obtain ⟨us, _, c, _, ⟨s, rfl, hs⟩, ⟨vs, ss, _, _, hss, ⟨rfl, rfl, rfl⟩, rfl⟩, rfl⟩ := hread
    rw [List.append_nil]
    exact .moreDeclarations hs hss

end Declarations

/-! ## 6. All rules -/

/-- **Every rule reads its symbol, with any fuel.** -/
theorem sound : ∀ n, Sound n
  | 0 => by
    constructor
    case declaration => exact fun _ _ _ _ => readsAt_starve
    all_goals intros; exact fun _ _ => readsAt_starve
  | n + 1 =>
    have ih := sound n
    { expression := expression_reads ih
      moreAssignments := moreAssignments_reads ih
      assignment := assignment_reads ih
      conditional := conditional_reads ih
      operand := operand_reads ih
      moreOperands := moreOperands_reads ih
      operandWithin := operandWithin_reads ih
      unary := unary_reads ih
      moreCalls := moreCalls_reads ih
      arguments := arguments_reads ih
      primary := primary_reads ih
      code := code_reads ih
      funDecl := funDecl_reads ih
      declaration := declaration_reads ih
      declarationOrFail := declarationOrFail_reads ih
      classDecl := classDecl_reads ih
      methodsRest := methodsRest_reads ih
      varDecl := varDecl_reads ih
      statement := statement_reads ih
      exprStatement := exprStatement_reads ih
      forLoop := forLoop_reads ih
      forInit := forInit_reads ih
      whileLoop := whileLoop_reads ih
      branch := branch_reads ih
      ret := ret_reads ih
      blockRest := blockRest_reads ih
      declarations := declarations_reads ih }

/-! ## 7. Programs -/

/-- A declaration that fails is reported, so the failure goes no further. -/
theorem declaration_run_ne_error (n loops : Nat) (s s' : Cursor) (e : SyntaxError) :
    (declaration n loops).run s ≠ (.error (.error e), s') := by
  rcases n with _ | n
  · exact fun h => nomatch h
  · rw [declaration, run_recovering]
    rcases (declarationOrFail n loops).run s with ⟨(e | _) | x, t⟩ <;> exact fun h => nomatch h

/-- **A program is read up to the end**, without a failure. -/
theorem program_run : ∀ n s, s.eof.kind = .eof → need s.ahead 22 < n →
    ∃ ss s', (program n).run s = (.ok ss, s') ∧ s'.ahead = [] ∧ Advances 0 s s' ∧
      (s'.errors = s.errors → Derives .any .program s.nextId s.ahead ss s'.nextId)
  | 0, s, _, hn => absurd hn (Nat.not_lt_zero _)
  | n + 1, s, he, hn => by
    rw [program]
    show ∃ ss s', (if s.ahead.isEmpty then pure [] else (do
      let first ← declaration n 0
      return first.toList ++ (← program n)) : Parse (List Stmt)).run s = _ ∧ _
    by_cases hs : s.ahead = []
    · refine ⟨[], s, by rw [hs]; rfl, hs, .refl s, fun _ => ?_⟩
      rw [hs]
      exact .noDeclarations
    · rw [if_neg (by simpa using hs)]
      have h := (sound n).declaration 0 s he hs
      unfold ReadsAt at h
      unfold need at hn
      rw [run_bind]
      rcases hd : (declaration n 0).run s with ⟨(e | _) | o, s₁⟩ <;> rw [hd] at h
      · exact absurd hd (declaration_run_ne_error n 0 s s₁ e)
      · unfold Outcome need at h
        omega
      · obtain ⟨hadv, hok⟩ := h
        have hlen := hadv.length
        obtain ⟨ss, s₂, hp, hend, hadv', hder⟩ :=
          program_run n s₁ (hadv.ended he) (by unfold need; omega)
        refine ⟨o.toList ++ ss, s₂, ?_, hend, hadv.trans hadv' (Nat.zero_le _), fun heq => ?_⟩
        · dsimp only
          rw [run_bind, hp]
          rfl
        · have hmid : s₁.errors = s.errors :=
            List.IsPrefix.eq_of_length_le (heq ▸ hadv'.errors) hadv.errors.length_le
          obtain ⟨ts, et, x, rfl, hx⟩ := hok hmid
          rw [et]
          exact .moreDeclarations hx (hder (heq.trans hmid.symm))

/-! ## 8. The whole parse -/

section Parse

variable {tokens : List Token} {nextId : Nat}

theorem takeWhile_length_le {α : Type} (p : α → Bool) (l : List α) :
    (l.takeWhile p).length ≤ l.length := (List.takeWhile_sublist p).length_le

/-- The end behind a cursor is one. -/
theorem ofTokens_ended (tokens : List Token) (nextId : Nat) :
    (Cursor.ofTokens tokens nextId).eof.kind = .eof := by
  unfold Cursor.ofTokens
  dsimp only
  generalize h : tokens.find? (·.kind = .eof) = o
  cases o with
  | none => rfl
  | some t =>
    have ht := List.find?_some h
    exact of_decide_eq_true ht

/-- **A parse comes to its end**: it takes back no number, and without a complaint it is a program
    that the rules derive from the tokens in front of the end. -/
theorem parse_ends (tokens : List Token) (nextId : Nat) :
    nextId ≤ (parse tokens nextId).nextId ∧
    ((parse tokens nextId).errors = [] → Derives .any .program nextId
      (tokens.takeWhile (·.kind ≠ .eof)) (parse tokens nextId).statements
      (parse tokens nextId).nextId) := by
  have hfuel : need (Cursor.ofTokens tokens nextId).ahead 22 < fuelFor tokens.length := by
    have := takeWhile_length_le (fun t : Token => t.kind ≠ .eof) tokens
    simp only [need, fuelFor, Cursor.ofTokens]
    omega
  obtain ⟨ss, s', hrun, -, hadv, hderives⟩ :=
    program_run _ _ (ofTokens_ended tokens nextId) hfuel
  have hparse : parse tokens nextId = ⟨ss, s'.errors, s'.nextId⟩ := by rw [parse, hrun]
  rw [hparse]
  exact ⟨hadv.nextId, hderives⟩

theorem parse_derives (h : (parse tokens nextId).errors = []) :
    Derives .any .program nextId (tokens.takeWhile (·.kind ≠ .eof)) (parse tokens nextId).statements
      (parse tokens nextId).nextId := (parse_ends tokens nextId).2 h

end Parse

end Lox.Syntax
