import Mathlib.Data.List.Forall2
import Lox.Proofs.Grammar.Completeness
import Lox.Proofs.Grammar.Fuel

/-!
# No expression goes past a wall

A semicolon, a keyword of a statement and the end are walls: no expression can hold one, unless a
function stands around it. So from a stretch of tokens without them, malformed as it may be, the parser
comes to the same whatever stands behind it. Only that a complaint about what stands behind is about
another token.

* `isLoose`, `isWall`: the tokens that a stretch is made of, and those that end it.
* `Beside a b xs s s'`: two cursors in the same stretch, `xs` from its end, with `a` and `b` behind it.
* `Abreast a b P p`: from there `p` comes to the same in both, and leaves them as `P` says.
* `expressions_abreast`: every rule for expressions stays in the stretch.
* `declaration_abreast`: a declaration that starts in the stretch ends behind the semicolon at its
  end, or fails in it.
-/

namespace Lox.Syntax

/-! ## 1. Stretches -/

/-- Whether a kind of token can stand in a stretch. -/
def isLoose : Token.Kind → Bool
  | .semicolon | .leftBrace | .rightBrace | .eof | .kwElse | .kwClass | .kwFun | .kwVar | .kwFor
  | .kwIf | .kwWhile | .kwReturn => false
  | _ => true

/-- Whether a kind of token ends a stretch. A function would be an expression. -/
def isWall (k : Token.Kind) : Bool := !isLoose k && k ≠ .kwFun

/-- What stands behind a stretch: tokens, and the end behind them. -/
structure Tail where
  ahead : List Token
  eof : Token

/-- The token in front of a tail. -/
def Tail.front (a : Tail) : Token := a.ahead.head?.getD a.eof

/-- Two complaints that are the same, or each about the token behind the stretch. -/
structure Likewise (a b : Tail) (e e' : SyntaxError) : Prop where
  complaint : e'.complaint = e.complaint
  token : e'.token = e.token ∧ isLoose e.token.kind = true ∨ e.token = a.front ∧ e'.token = b.front

/-- Two cursors in the same stretch, with `xs` of it ahead. -/
structure Beside (a b : Tail) (xs : List Token) (s s' : Cursor) : Prop where
  loose : ∀ t ∈ xs, isLoose t.kind = true
  ahead : s.ahead = xs ++ a.ahead
  ahead' : s'.ahead = xs ++ b.ahead
  eof : s.eof = a.eof
  eof' : s'.eof = b.eof
  nextId : s'.nextId = s.nextId
  errors : List.Forall₂ (Likewise a b) s.errors s'.errors

/-- Two outcomes: the same tree with the cursors where `P` says, or the same complaint, of each cursor
    about the token in front of it. -/
inductive Together (a b : Tail) (P : Cursor → Cursor → Prop) {α : Type} :
    Except Failure α × Cursor → Except Failure α × Cursor → Prop
  | ok {x : α} {s s' : Cursor} (h : P s s') : Together a b P (.ok x, s) (.ok x, s')
  | error {c : Complaint} {xs : List Token} {s s' : Cursor} (h : Beside a b xs s s') :
      Together a b P (.error (.error ⟨c, s.front⟩), s) (.error (.error ⟨c, s'.front⟩), s')
  | starved {s s' : Cursor} : Together a b P (.error .starved, s) (.error .starved, s')

/-- The cursors still in the stretch. -/
def Within (a b : Tail) (s s' : Cursor) : Prop := ∃ xs, Beside a b xs s s'

/-- From two cursors in the same stretch, a parse comes to two outcomes that are the same. -/
def Abreast (a b : Tail) (P : Cursor → Cursor → Prop) {α : Type} (p : Parse α) : Prop :=
  ∀ xs s s', Beside a b xs s s' → Together a b P (p.run s) (p.run s')

section Stretches

variable {a b : Tail} {P : Cursor → Cursor → Prop} {α β : Type} {p : Parse α} {f : α → Parse β}
  {t : Token} {xs : List Token} {s s' : Cursor}

theorem Beside.front_nil (h : Beside a b [] s s') : s.front = a.front ∧ s'.front = b.front := by
  unfold Cursor.front Tail.front
  rw [h.ahead, h.ahead', h.eof, h.eof']
  exact ⟨rfl, rfl⟩

theorem Beside.front_cons (h : Beside a b (t :: xs) s s') : s.front = t ∧ s'.front = t := by
  unfold Cursor.front
  rw [h.ahead, h.ahead']
  exact ⟨rfl, rfl⟩

/-- A complaint about the token in front of each. -/
theorem Beside.likewise (h : Beside a b xs s s') (c : Complaint) :
    Likewise a b ⟨c, s.front⟩ ⟨c, s'.front⟩ := by
  rcases xs with _ | ⟨t, xs⟩
  · exact ⟨rfl, .inr h.front_nil⟩
  · obtain ⟨e, e'⟩ := h.front_cons
    rw [e, e']
    exact ⟨rfl, .inl ⟨rfl, h.loose t List.mem_cons_self⟩⟩

theorem Beside.tail (h : Beside a b (t :: xs) s s') :
    Beside a b xs { s with ahead := xs ++ a.ahead } { s' with ahead := xs ++ b.ahead } :=
  ⟨fun u hu => h.loose u (List.mem_cons_of_mem t hu), rfl, rfl, h.eof, h.eof', h.nextId, h.errors⟩

theorem Beside.report {e e' : SyntaxError} (h : Beside a b xs s s') (he : Likewise a b e e') :
    Beside a b xs { s with errors := s.errors ++ [e] } { s' with errors := s'.errors ++ [e'] } :=
  { h with errors := List.rel_append h.errors (.cons he .nil) }

/-! ## 2. Steps in a stretch -/

theorem ne_of_loose {k l : Token.Kind} (h : isLoose k = true) (hl : isLoose l = false) : k ≠ l := by
  rintro rfl
  exact Bool.noConfusion (h.symm.trans hl)

theorem assigns_loose {k : Token.Kind} (h : assigns k = true) : isLoose k = true := by
  cases k <;> first | rfl | cases h

theorem Level.has_loose {l : Level} {k : Token.Kind} (h : l.has k = true) : isLoose k = true := by
  cases k <;> first | rfl | (cases l <;> cases h)

theorem sign_loose {k : Token.Kind} (h : (k = .bang || k = .minus : Bool) = true) :
    isLoose k = true := by
  cases k <;> first | rfl | cases h

theorem abreast_pure (x : α) : Abreast a b (Within a b) (pure x) := fun xs _ _ h => .ok ⟨xs, h⟩

theorem abreast_starve : Abreast a b P (starve : Parse α) := fun _ _ _ _ => .starved

theorem abreast_fail (c : Complaint) : Abreast a b P (fail c : Parse α) := fun _ _ _ h => .error h

/-- **A rule, then the rest.** -/
theorem Abreast.bind (hp : Abreast a b (Within a b) p) (hf : ∀ x, Abreast a b P (f x)) :
    Abreast a b P (p >>= f) := fun xs s s' h => by
  have hp := hp xs s s' h
  rw [run_bind, run_bind]
  generalize p.run s = o, p.run s' = o' at hp ⊢
  cases hp with
  | @ok x s₁ s₁' hin =>
    obtain ⟨ys, hin⟩ := hin
    exact hf x ys s₁ s₁' hin
  | error h => exact .error h
  | starved => exact .starved

theorem Abreast.map (g : α → β) (hp : Abreast a b (Within a b) p) :
    Abreast a b (Within a b) (g <$> p) := by
  rw [← bind_pure_comp]
  exact hp.bind fun x => abreast_pure (g x)

theorem abreast_refer (t : Token) : Abreast a b (Within a b) (refer t) := fun xs s s' h => by
  have hid : (⟨⟨s.nextId⟩, t⟩ : Reference) = ⟨⟨s'.nextId⟩, t⟩ := by rw [h.nextId]
  have hrun (u : Cursor) : (refer t).run u
      = (.ok ⟨⟨u.nextId⟩, t⟩, { u with nextId := u.nextId + 1 }) := rfl
  rw [hrun, hrun, hid]
  exact .ok ⟨xs, { h with nextId := congrArg (· + 1) h.nextId }⟩

theorem abreast_report (c : Complaint) (ht : isLoose t.kind = true) :
    Abreast a b (Within a b) (report c t) :=
  fun xs _ _ h => .ok ⟨xs, h.report ⟨rfl, .inl ⟨rfl, ht⟩⟩⟩

theorem abreast_assignTo (target : Expr) {equals : Token} (value : Expr)
    (h : assigns equals.kind = true) : Abreast a b (Within a b) (assignTo target equals value) := by
  unfold assignTo
  split
  · exact (abreast_refer _).bind fun _ => abreast_pure _
  · exact abreast_pure _
  · exact (abreast_report _ (assigns_loose h)).bind fun _ => abreast_pure _

theorem abreast_limit (c : Complaint) (count : Nat) : Abreast a b (Within a b) (limit c count) := by
  unfold limit
  split
  · exact fun xs _ _ h => .ok ⟨xs, h.report (h.likewise c)⟩
  · exact abreast_pure ()

/-- The token in front, read, then the rest. -/
theorem run_peek_bind (f : Token → Parse α) : (peek >>= f).run s = (f s.front).run s := rfl

/-- The token in front, taken, then the rest. -/
theorem together_skip {f : Unit → Parse α} (h : Beside a b (t :: xs) s s')
    (hf : Abreast a b P (f ())) : Together a b P ((skip >>= f).run s) ((skip >>= f).run s') := by
  have hrun : ∀ {u : Cursor} {us : List Token}, u.ahead = t :: us →
      (skip >>= f).run u = (f ()).run { u with ahead := us } := by
    rintro ⟨_, _, _, _⟩ us rfl
    rfl
  rw [hrun h.ahead, hrun h.ahead']
  exact hf xs _ _ h.tail

/-- A token that must be there and is not. -/
theorem run_expect_ne {k : Token.Kind} (c : Complaint) (h : s.front.kind ≠ k) :
    (expect k c).run s = (.error (.error ⟨c, s.front⟩), s) := by
  have hnone : (accept k).run s = (.ok none, s) := by
    unfold Cursor.front at h
    rcases hs : s.ahead with _ | ⟨t, ts⟩ <;> rw [hs] at h
    · exact run_acceptIf_nil _ hs
    · exact (run_acceptIf_cons _ hs).trans (if_neg (by simpa using h))
  unfold expect
  rw [run_bind_ok _ hnone]
  rfl

end Stretches

/-! ## 3. Steps at a wall -/

section Walls

variable {a b : Tail} {P : Cursor → Cursor → Prop} {α : Type} {p : Parse α} {t : Token}
  {xs : List Token} {s s' : Cursor} {n : Nat}

theorem not_loose {k : Token.Kind} (h : isWall k = true) : isLoose k = false := by
  simp only [isWall, Bool.and_eq_true, Bool.not_eq_true'] at h
  exact h.1

/-- No token is taken at a wall by a step that looks for others. -/
theorem run_acceptIf_wall {q : Token.Kind → Bool} (hq : ∀ k, q k = true → isLoose k = true)
    (hw : isWall s.front.kind = true) : (acceptIf q).run s = (.ok none, s) := by
  have hfalse : q s.front.kind ≠ true := fun h => ne_of_loose (hq _ h) (not_loose hw) rfl
  unfold Cursor.front at hfalse
  rcases hs : s.ahead with _ | ⟨t, ts⟩ <;> rw [hs] at hfalse
  · exact run_acceptIf_nil q hs
  · exact (run_acceptIf_cons q hs).trans (if_neg hfalse)

theorem check_wall {k : Token.Kind} (hk : isLoose k = true) (hw : isWall s.front.kind = true) :
    s.ahead.head?.any (·.kind = k) = false := by
  unfold Cursor.front at hw
  rcases hs : s.ahead with _ | ⟨t, ts⟩ <;> rw [hs] at hw
  · rfl
  · exact decide_eq_false (ne_of_loose hk (not_loose hw)).symm

/-- No expression starts at a wall. -/
theorem run_primary_wall (hw : isWall s.front.kind = true) :
    (primary (n + 1)).run s = (.error (.error ⟨.expression, s.front⟩), s) := by
  rw [primary, run_peek_bind]
  cases hk : s.front.kind <;> rw [hk] at hw <;> first | rfl | cases hw

variable (ha : isWall a.front.kind = true) (hb : isWall b.front.kind = true)
include ha hb

theorem Beside.walls (h : Beside a b [] s s') :
    isWall s.front.kind = true ∧ isWall s'.front.kind = true := by
  rw [h.front_nil.1, h.front_nil.2]
  exact ⟨ha, hb⟩

/-- **A token that may be missing**, of a kind that a stretch may hold. -/
theorem abreast_acceptIf {q : Token.Kind → Bool} {f : Option Token → Parse α}
    (hq : ∀ k, q k = true → isLoose k = true) (hnone : Abreast a b P (f none))
    (hsome : ∀ t, q t.kind = true → Abreast a b P (f (some t))) :
    Abreast a b P (acceptIf q >>= f) := fun xs s s' h => by
  rcases xs with _ | ⟨t, xs⟩
  · obtain ⟨hw, hw'⟩ := h.walls ha hb
    rw [run_bind_ok _ (run_acceptIf_wall hq hw), run_bind_ok _ (run_acceptIf_wall hq hw')]
    exact hnone [] s s' h
  · rw [run_bind, run_bind, run_acceptIf_cons q h.ahead, run_acceptIf_cons q h.ahead']
    by_cases ht : q t.kind = true
    · rw [if_pos ht, if_pos ht]
      exact hsome t ht xs _ _ h.tail
    · rw [if_neg ht, if_neg ht]
      exact hnone _ s s' h

theorem abreast_accept {k : Token.Kind} {f : Option Token → Parse α} (hk : isLoose k = true)
    (hf : ∀ o, Abreast a b P (f o)) : Abreast a b P (accept k >>= f) :=
  abreast_acceptIf ha hb (fun _ h => of_decide_eq_true h ▸ hk) (hf none) fun t _ => hf (some t)

theorem abreast_expect {k : Token.Kind} (c : Complaint) (hk : isLoose k = true) :
    Abreast a b (Within a b) (expect k c) :=
  abreast_accept ha hb hk fun o => by
    rcases o with _ | t
    · exact abreast_fail c
    · exact abreast_pure t

theorem abreast_before {k : Token.Kind} (hk : isLoose k = true) (hp : Abreast a b (Within a b) p) :
    Abreast a b (Within a b) (before k p) := by
  have hcheck : Abreast a b (Within a b) (check k) := fun xs s s' h => by
    have hrun (u : Cursor) : (check k).run u = (.ok (u.ahead.head?.any (·.kind = k)), u) := rfl
    have hsame : s'.ahead.head?.any (·.kind = k) = s.ahead.head?.any (·.kind = k) := by
      rcases xs with _ | ⟨t, xs⟩
      · obtain ⟨hw, hw'⟩ := h.walls ha hb
        rw [check_wall hk hw, check_wall hk hw']
      · rw [h.ahead, h.ahead']
        rfl
    rw [hrun, hrun, hsame]
    exact .ok ⟨xs, h⟩
  refine hcheck.bind fun found => ?_
  split
  · exact abreast_pure none
  · exact hp.map some

/-! ## 4. Expressions -/

theorem primary_abreast (hexpr : Abreast a b (Within a b) (expression n))
    (hoperand : ∀ l, Abreast a b (Within a b) (operand n l)) :
    Abreast a b (Within a b) (primary (n + 1)) := fun xs s s' h => by
  rcases xs with _ | ⟨t, xs⟩
  · obtain ⟨hw, hw'⟩ := h.walls ha hb
    rw [run_primary_wall hw, run_primary_wall hw']
    exact .error h
  · have ht := h.loose t List.mem_cons_self
    rw [primary, run_peek_bind, run_peek_bind, h.front_cons.1, h.front_cons.2]
    obtain ⟨k, lexeme, pos⟩ := t
    cases k with
    | kwFalse | kwTrue | kwNil | number | string => exact together_skip h (abreast_pure _)
    | kwThis | identifier =>
      exact together_skip h ((abreast_refer _).bind fun _ => abreast_pure _)
    | kwSuper =>
      exact together_skip h ((abreast_expect ha hb _ rfl).bind fun _ =>
        (abreast_expect ha hb _ rfl).bind fun _ => (abreast_refer _).bind fun _ => abreast_pure _)
    | leftParen =>
      exact together_skip h (hexpr.bind fun _ => (abreast_expect ha hb _ rfl).bind fun _ =>
        abreast_pure _)
    | bangEqual | equalEqual | greater | greaterEqual | less | lessEqual | plus | star | slash =>
      exact together_skip h ((abreast_report _ rfl).bind fun _ => (hoperand _).bind fun _ =>
        abreast_pure _)
    | kwFun => cases ht
    | _ => exact .error h

end Walls

/-- The rules for what an expression is made of, outside of functions. -/
def Rule.ofExpression : {α : Type} → Rule α → Bool
  | _, .expression | _, .moreAssignments _ | _, .assignment | _, .conditional | _, .operand _
  | _, .moreOperands _ _ | _, .operandWithin _ | _, .unary | _, .moreCalls _ | _, .arguments
  | _, .primary => true
  | _, _ => false

section Rules

variable {a b : Tail} (ha : isWall a.front.kind = true) (hb : isWall b.front.kind = true)
include ha hb

/-- **No expression goes past a wall**, and what stands behind it is of no account. -/
theorem expressions_abreast : ∀ n {α : Type} (r : Rule α), r.ofExpression = true →
    Abreast a b (Within a b) (r.parse n)
  | 0, _, r, hr => by cases r <;> first | exact abreast_starve | cases hr
  | n + 1, _, r, hr => by
    have ih := @expressions_abreast n
    cases r with
    | expression => exact (ih .assignment rfl).bind fun e => ih (.moreAssignments e) rfl
    | moreAssignments left =>
      refine abreast_accept ha hb rfl fun o => ?_
      rcases o with _ | op
      · exact abreast_pure left
      · exact (ih .assignment rfl).bind fun e => ih (.moreAssignments (.binary left op e)) rfl
    | assignment =>
      refine (ih .conditional rfl).bind fun target => ?_
      refine abreast_acceptIf ha hb (fun _ => assigns_loose) (abreast_pure target) fun equals h => ?_
      exact (ih .assignment rfl).bind fun value => abreast_assignTo target _ h
    | conditional =>
      refine (ih (.operand .or) rfl).bind fun condition => abreast_accept ha hb rfl fun o => ?_
      rcases o with _ | t
      · exact abreast_pure condition
      · exact (ih .expression rfl).bind fun yes => (abreast_expect ha hb _ rfl).bind fun _ =>
          (ih .conditional rfl).bind fun _ => abreast_pure _
    | operand l => exact (ih (.operandWithin l.tighter?) rfl).bind fun e => ih (.moreOperands l e) rfl
    | moreOperands l left =>
      refine abreast_acceptIf ha hb (fun _ => Level.has_loose) (abreast_pure left) fun op _ => ?_
      exact (ih (.operandWithin l.tighter?) rfl).bind fun e =>
        ih (.moreOperands l (l.join left op e)) rfl
    | operandWithin l =>
      rcases l with _ | l
      · exact ih .unary rfl
      · exact ih (.operand l) rfl
    | unary =>
      refine abreast_acceptIf ha hb (fun _ => sign_loose) ?_ fun op _ => ?_
      · exact (ih .primary rfl).bind fun e => ih (.moreCalls e) rfl
      · exact (ih .unary rfl).bind fun _ => abreast_pure _
    | moreCalls left =>
      refine abreast_accept ha hb rfl fun o => ?_
      rcases o with _ | t
      · refine abreast_accept ha hb rfl fun o => ?_
        rcases o with _ | t
        · exact abreast_pure left
        · exact (abreast_expect ha hb _ rfl).bind fun name => ih (.moreCalls (.get left name)) rfl
      · exact (abreast_before ha hb rfl (ih .arguments rfl)).bind fun args =>
          (abreast_limit _ _).bind fun _ => (abreast_expect ha hb _ rfl).bind fun paren =>
            ih (.moreCalls (.call left paren (args.getD []))) rfl
    | arguments =>
      refine (ih .assignment rfl).bind fun first => abreast_accept ha hb rfl fun o => ?_
      rcases o with _ | t
      · exact abreast_pure _
      · exact (ih .arguments rfl).bind fun _ => abreast_pure _
    | primary => exact primary_abreast ha hb (ih .expression rfl) fun l => ih (.operand l) rfl
    | _ => cases hr

end Rules

/-! ## 5. Statements -/

/-- The cursors behind the semicolon that ended the stretch. -/
structure Past (a b : Tail) (s s' : Cursor) : Prop where
  closed : a.front.kind = .semicolon
  ahead : s.ahead = a.ahead.tail
  ahead' : s'.ahead = b.ahead.tail
  eof : s.eof = a.eof
  eof' : s'.eof = b.eof
  nextId : s'.nextId = s.nextId
  errors : List.Forall₂ (Likewise a b) s.errors s'.errors

section Statements

variable {a b : Tail} {α : Type} {t : Token} {xs : List Token} {s s' : Cursor}

/-- A semicolon in front, taken. -/
theorem run_semicolon (c : Complaint) (h : s.front.kind = .semicolon) (he : s.eof.kind = .eof) :
    (expect .semicolon c).run s = (.ok s.front, { s with ahead := s.ahead.tail }) := by
  obtain ⟨ahead, eof, nextId, errors⟩ := s
  rcases ahead with _ | ⟨t, ts⟩
  · cases he.symm.trans h
  · exact run_expect c h

variable (ha : isWall a.front.kind = true) (hb : isWall b.front.kind = true)
  (hsame : a.front.kind = .semicolon ↔ b.front.kind = .semicolon)
  (hae : a.eof.kind = .eof) (hbe : b.eof.kind = .eof)

include hsame hae hbe in
/-- **The semicolon behind a statement** is the one at the end of the stretch, or missing. -/
theorem abreast_semicolon (c : Complaint) (x : α) :
    Abreast a b (Past a b) (expect .semicolon c >>= fun _ => pure x) := fun xs s s' h => by
  have hfail (hs : s.front.kind ≠ .semicolon) (hs' : s'.front.kind ≠ .semicolon) :
      Together a b (Past a b) ((expect .semicolon c >>= fun _ => pure x).run s)
        ((expect .semicolon c >>= fun _ => pure x).run s') := by
    rw [run_bind, run_bind, run_expect_ne c hs, run_expect_ne c hs']
    exact .error h
  rcases xs with _ | ⟨t, xs⟩
  · by_cases hclosed : a.front.kind = .semicolon
    · rw [run_bind_ok _ (run_semicolon c (h.front_nil.1 ▸ hclosed) (h.eof ▸ hae)),
        run_bind_ok _ (run_semicolon c (h.front_nil.2 ▸ hsame.mp hclosed) (h.eof' ▸ hbe))]
      exact .ok ⟨hclosed, by rw [h.ahead]; rfl, by rw [h.ahead']; rfl, h.eof, h.eof', h.nextId,
        h.errors⟩
    · exact hfail (h.front_nil.1 ▸ hclosed) (h.front_nil.2 ▸ fun e => hclosed (hsame.mpr e))
  · have ht : t.kind ≠ .semicolon := ne_of_loose (h.loose t List.mem_cons_self) rfl
    exact hfail (h.front_cons.1 ▸ ht) (h.front_cons.2 ▸ ht)

include hsame hae hbe in
theorem abreast_loopExit (loops : Nat) (e : LoopExit) (ht : isLoose t.kind = true) :
    Abreast a b (Past a b) (loopExit loops e t) := by
  have houtside : Abreast a b (Within a b) (complainOutside loops e t) := by
    unfold complainOutside
    split
    · exact abreast_report _ ht
    · exact abreast_pure ()
  exact houtside.bind fun _ => abreast_semicolon hsame hae hbe _ _

include ha hb hsame hae hbe

theorem exprStatement_abreast : ∀ n, Abreast a b (Past a b) (exprStatement n)
  | 0 => abreast_starve
  | n + 1 => (expressions_abreast ha hb n .expression rfl).bind fun _ =>
      abreast_semicolon hsame hae hbe _ _

/-- A statement that starts in the stretch is an expression or a way out of a loop. -/
theorem statement_abreast (n loops : Nat) (h : Beside a b (t :: xs) s s') :
    Together a b (Past a b) ((statement n loops).run s) ((statement n loops).run s') := by
  rcases n with _ | n
  · exact .starved
  have ht := h.loose t List.mem_cons_self
  rw [statement, run_peek_bind, run_peek_bind, h.front_cons.1, h.front_cons.2]
  obtain ⟨k, lexeme, pos⟩ := t
  cases k with
  | kwBreak | kwContinue => exact together_skip h (abreast_loopExit hsame hae hbe _ _ rfl)
  | kwFor | kwIf | kwReturn | kwWhile | leftBrace => cases ht
  | _ => exact exprStatement_abreast ha hb hsame hae hbe n _ s s' h

/-- **A declaration that starts in the stretch** ends behind the semicolon at its end, or fails. -/
theorem declaration_abreast (n loops : Nat) (h : Beside a b (t :: xs) s s') :
    Together a b (Past a b) ((declarationOrFail n loops).run s) ((declarationOrFail n loops).run s') := by
  rcases n with _ | n
  · exact .starved
  have ht := h.loose t List.mem_cons_self
  have hrun : ∀ {u : Cursor} {us : List Token}, u.ahead = t :: us →
      (declarationOrFail (n + 1) loops).run u = (statement n loops).run u := by
    rintro ⟨_, _, _, _⟩ us rfl
    rw [run_declarationOrFail, if_neg (ne_of_loose ht rfl), if_neg fun e => ne_of_loose ht rfl e.1,
      if_neg (ne_of_loose ht rfl)]
  rw [hrun h.ahead, hrun h.ahead']
  exact statement_abreast ha hb hsame hae hbe n loops h

end Statements

end Lox.Syntax
