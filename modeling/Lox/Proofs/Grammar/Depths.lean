import Lox.Proofs.Grammar.Counting
import Lox.Proofs.Grammar.Progress

/-!
# The counter survives syntax errors

Raised and lowered around bodies that may fail, the counter of `Counting` holds at every moment the
number of loops that are open, also behind a failure that went through loops and functions. So
the rules with the counter are the rules that are told.

* `Gauge.Right`: what holds of the counter, of its moments and of the complaints so far.
* `Quiet p`: a step that says nothing of ways out of loops.
* `Follows loops p q`: with `loops` open loops, `q` comes to what `p` comes to, and leaves all right.
  `inLoop_follows`, `inFunction_follows`: where the counter changes, what is told changes with it.
* `rule_follows`: **every rule with the counter follows the rule that is told.**
* `loop_counter_survives`: so the counter is right at every moment, and a `break` or a `continue` is
  complained of if it is reached with no loop open, and only then.
-/

namespace Lox

/-! ## 1. What stays right -/

/-- Whether an error is about a way out of a loop that is in no loop. -/
def SyntaxError.isOutside (e : SyntaxError) : Bool :=
  match e.complaint with
  | .exitOutsideLoop _ => true
  | _ => false

namespace Syntax

/-- The errors about ways out of loops, out of some errors. -/
def outside (es : List SyntaxError) : List SyntaxError := es.filter (·.isOutside)

theorem outside_append_single (es : List SyntaxError) (e : SyntaxError) :
    outside (es ++ [e]) = outside es ++ if e.isOutside then [e] else [] := by
  unfold outside
  rw [List.filter_append, List.filter_cons]
  rfl

/-- The complaints that belong to some ways out of loops: one for each that is in no loop. -/
def complaintsAt (xs : List ReachedExit) : List SyntaxError :=
  (xs.filter (loopsOpen ·.bodies = 0)).map ReachedExit.complaint

theorem complaintsAt_append_single (xs : List ReachedExit) (x : ReachedExit) :
    complaintsAt (xs ++ [x]) = complaintsAt xs ++ if loopsOpen x.bodies = 0 then [x.complaint] else [] := by
  unfold complaintsAt
  rw [List.filter_append, List.map_append, List.filter_cons]
  by_cases h : loopsOpen x.bodies = 0 <;> simp [h]

/-- **The counter is right**, it was right at every moment, and the complaints about ways out of loops
    are those about the ones that are in no loop. -/
structure Gauge.Right (g : Gauge) (bodies : List Body) : Prop where
  depth : g.depth = loopsOpen bodies
  moments : ∀ m ∈ g.moments, m.depth = loopsOpen m.bodies
  exits : outside g.cursor.errors = complaintsAt g.exits

theorem Gauge.Right.seen {g : Gauge} {bodies : List Body} (h : g.Right bodies) :
    (g.seen bodies).Right bodies where
  depth := h.depth
  moments := List.forall_mem_append.mpr ⟨h.moments, List.forall_mem_singleton.mpr h.depth⟩
  exits := h.exits

/-! ## 2. Steps that say nothing of ways out of loops -/

/-- **A step that says nothing of ways out of loops**: it does not complain of one, and does not fail
    because of one. -/
def Quiet {α : Type} (p : Parse α) : Prop := ∀ s r t, p.run s = (r, t) →
  outside t.errors = outside s.errors ∧ ∀ e, r = .error (.error e) → e.isOutside = false

section Quiet

variable {α β : Type} {p : Parse α} {f : α → Parse β}

/-- A step that neither fails nor complains. -/
theorem quiet_of_ok (h : ∀ s, ∃ x t, p.run s = (.ok x, t) ∧ t.errors = s.errors) : Quiet p := by
  intro s r t hrun
  obtain ⟨x, t', hok, herrors⟩ := h s
  cases hok.symm.trans hrun
  exact ⟨congrArg outside herrors, fun e he => nomatch he⟩

theorem quiet_pure (x : α) : Quiet (pure x) := quiet_of_ok fun s => ⟨x, s, rfl, rfl⟩

theorem quiet_starve : Quiet (starve : Parse α) := fun _ _ _ h => by
  cases h
  exact ⟨rfl, fun e he => nomatch he⟩

protected theorem Quiet.bind (hp : Quiet p) (hf : ∀ x, Quiet (f x)) : Quiet (p >>= f) := by
  intro s r u h
  rw [run_bind] at h
  rcases hrun : p.run s with ⟨e | x, t⟩ <;> rw [hrun] at h
  · cases h
    obtain ⟨hfirst, hfailure⟩ := hp s _ u hrun
    exact ⟨hfirst, fun e he => hfailure e (by cases he; rfl)⟩
  · obtain ⟨hrest, hfailure⟩ := hf x t r u h
    exact ⟨hrest.trans (hp s _ t hrun).1, hfailure⟩

protected theorem Quiet.map {g : α → β} (hp : Quiet p) : Quiet (g <$> p) := by
  rw [← bind_pure_comp]
  exact hp.bind fun x => quiet_pure (g x)

theorem quiet_peek : Quiet peek := quiet_of_ok fun s => ⟨_, s, rfl, rfl⟩

theorem quiet_check (k : Token.Kind) : Quiet (check k) := quiet_of_ok fun s => ⟨_, s, rfl, rfl⟩

theorem quiet_checkSecond (k : Token.Kind) : Quiet (checkSecond k) :=
  quiet_of_ok fun s => ⟨_, s, rfl, rfl⟩

theorem quiet_atEnd : Quiet atEnd := quiet_of_ok fun s => ⟨_, s, rfl, rfl⟩

theorem quiet_refer (t : Token) : Quiet (refer t) := quiet_of_ok fun _ => ⟨_, _, rfl, rfl⟩

theorem quiet_acceptIf (q : Token.Kind → Bool) : Quiet (acceptIf q) := quiet_of_ok fun s => by
  rcases hs : s.ahead with _ | ⟨t, ts⟩
  · exact ⟨_, _, run_acceptIf_nil q hs, rfl⟩
  · rw [run_acceptIf_cons q hs]
    split <;> exact ⟨_, _, rfl, rfl⟩

theorem quiet_accept (k : Token.Kind) : Quiet (accept k) := quiet_acceptIf _

theorem quiet_skip : Quiet skip := (quiet_acceptIf _).map

section Complaints

variable {c : Complaint}

theorem quiet_fail (hc : ∀ t, SyntaxError.isOutside ⟨c, t⟩ = false) : Quiet (fail c : Parse α) :=
  fun s r t h => by
  cases h
  exact ⟨rfl, fun e he => by cases he; exact hc _⟩

theorem quiet_report (hc : ∀ t, SyntaxError.isOutside ⟨c, t⟩ = false) (t : Token) :
    Quiet (report c t) := fun s r u h => by
  cases h
  refine ⟨?_, fun e he => nomatch he⟩
  show outside (s.errors ++ [⟨c, t⟩]) = _
  rw [outside_append_single, hc t]
  exact List.append_nil _

theorem quiet_expect (k : Token.Kind) (hc : ∀ t, SyntaxError.isOutside ⟨c, t⟩ = false) :
    Quiet (expect k c) := by
  refine (quiet_accept k).bind fun o => ?_
  rcases o with _ | t
  · exact quiet_fail hc
  · exact quiet_pure t

theorem quiet_limit (count : Nat) (hc : ∀ t, SyntaxError.isOutside ⟨c, t⟩ = false) :
    Quiet (limit c count) := by
  unfold limit
  split
  · exact quiet_peek.bind fun t => quiet_report hc t
  · exact quiet_pure ()

end Complaints

theorem quiet_superclassName : Quiet superclassName :=
  (quiet_expect _ fun _ => rfl).bind fun t => quiet_refer t

theorem quiet_assignTo (target : Expr) (equals : Token) (value : Expr) :
    Quiet (assignTo target equals value) := by
  unfold assignTo
  split
  · exact (quiet_refer _).bind fun _ => quiet_pure _
  · exact quiet_pure _
  · exact (quiet_report (fun _ => rfl) _).bind fun _ => quiet_pure _

theorem quiet_parameterNames : ∀ n, Quiet (parameterNames n)
  | 0 => quiet_starve
  | n + 1 => by
    rw [parameterNames]
    refine (quiet_expect _ fun _ => rfl).bind fun name => (quiet_accept _).bind fun o => ?_
    rcases o with _ | t
    · exact quiet_pure _
    · exact (quiet_parameterNames n).bind fun _ => quiet_pure _

theorem quiet_parameters (n : Nat) : Quiet (parameters n) := by
  have hnames : Quiet (Syntax.before .rightParen (parameterNames n)) := by
    refine (quiet_check _).bind fun b => ?_
    split
    · exact quiet_pure none
    · exact (quiet_parameterNames n).map
  exact hnames.bind fun names => (quiet_limit _ fun _ => rfl).bind fun _ =>
    (quiet_expect _ fun _ => rfl).bind fun _ => quiet_pure _

end Quiet

/-! ## 3. Following -/

/-- **With `loops` open loops, `q` comes to what `p` comes to**, from wherever all is right, and leaves
    all right, whether or not it fails. No failure is about a way out of a loop. -/
def Follows {α : Type} (loops : Nat) (p : Parse α) (q : Count α) : Prop :=
  ∀ bodies g, loopsOpen bodies = loops → g.Right bodies →
    ∃ r g', p.run g.cursor = (r, g'.cursor) ∧ (q.run bodies).run g = (r, g') ∧ g'.Right bodies ∧
      ∀ e, r = .error (.error e) → e.isOutside = false

section Follows

variable {α β : Type} {loops : Nat} {p : Parse α} {q : Count α} {f : α → Parse β} {h : α → Count β}

theorem run_counted_bind (q : Count α) (h : α → Count β) (bodies : List Body) (g : Gauge) :
    ((q >>= h).run bodies).run g =
      match (q.run bodies).run g with
      | (.ok x, g') => ((h x).run bodies).run g'
      | (.error e, g') => (.error e, g') := by
  let rest (x : α) : ExceptT Failure (StateM Gauge) β := (h x).run bodies
  show (ExceptT.bindCont rest ((q.run bodies).run g).1) ((q.run bodies).run g).2 = _
  rcases (q.run bodies).run g with ⟨_ | x, g'⟩ <;> rfl

/-- A step that says nothing of ways out of loops. -/
theorem step_follows (hp : Quiet p) : Follows loops p (Counting.step p) := by
  intro bodies g _ hg
  obtain ⟨herrors, hfailure⟩ := hp g.cursor _ _ rfl
  refine ⟨_, _, rfl, rfl, Gauge.Right.seen ⟨hg.depth, hg.moments, ?_⟩, hfailure⟩
  exact herrors.trans hg.exits

theorem starve_follows : Follows loops (starve : Parse α) (Counting.step starve) :=
  step_follows quiet_starve

theorem pure_follows (x : α) : Follows loops (pure x) (pure x) :=
  fun _ g _ hg => ⟨_, g, rfl, rfl, hg, fun _ he => nomatch he⟩

/-- **A rule, then the rest**: the counter is as it was before the rule. -/
protected theorem Follows.bind (hp : Follows loops p q) (hf : ∀ x, Follows loops (f x) (h x)) :
    Follows loops (p >>= f) (q >>= h) := by
  intro bodies g hb hg
  obtain ⟨r, g', hrun, hcounted, hright, hfailure⟩ := hp bodies g hb hg
  rw [run_counted_bind, run_bind, hrun, hcounted]
  rcases r with e | x
  · exact ⟨_, g', rfl, rfl, hright, fun e he => hfailure e (by cases he; rfl)⟩
  · exact hf x bodies g' hb hright

protected theorem Follows.map (k : α → β) (hp : Follows loops p q) :
    Follows loops (k <$> p) (k <$> q) := by
  rw [← bind_pure_comp, ← bind_pure_comp]
  exact hp.bind fun x => pure_follows (k x)

/-- A step, then the rest. -/
theorem step_then (hp : Quiet p) (hf : ∀ x, Follows loops (f x) (h x)) :
    Follows loops (p >>= f) (Counting.step p >>= h) := (step_follows hp).bind hf

protected theorem Follows.before (k : Token.Kind) (hp : Follows loops p q) :
    Follows loops (before k p) (Counting.before k q) := by
  refine step_then (quiet_check k) fun b => ?_
  split
  · exact pure_follows none
  · exact hp.map some

protected theorem Follows.behind (k : Token.Kind) (hp : Follows loops p q) :
    Follows loops (behind k p) (Counting.behind k q) := by
  refine step_then (quiet_accept k) fun o => ?_
  rcases o with _ | t
  · exact pure_follows none
  · exact hp.map some

/-- **The body of a loop**: behind it the counter is what it was. -/
theorem inLoop_follows (hp : Follows (loops + 1) p q) : Follows loops p (Counting.inLoop q) := by
  intro bodies g hb hg
  have hraised : ({ g with depth := g.depth + 1 } : Gauge).Right (.loop :: bodies) :=
    ⟨by rw [loopsOpen_loop, ← hg.depth], hg.moments, hg.exits⟩
  obtain ⟨r, g', hrun, hcounted, hright, hfailure⟩ :=
    hp (.loop :: bodies) _ (by rw [loopsOpen_loop, hb]) hraised.seen
  have hlowered : ({ g' with depth := g'.depth - 1 } : Gauge).Right bodies :=
    ⟨by rw [hright.depth, loopsOpen_loop, Nat.add_sub_cancel], hright.moments, hright.exits⟩
  refine ⟨r, ({ g' with depth := g'.depth - 1 } : Gauge).seen bodies, hrun, ?_, hlowered.seen, hfailure⟩
  exact congrArg (fun o : Except Failure α × Gauge =>
    (o.1, ({ o.2 with depth := o.2.depth - 1 } : Gauge).seen bodies)) hcounted

/-- **The body of a function**: no loop is open in it, and behind it the counter is what it was. -/
theorem inFunction_follows (hp : Follows 0 p q) : Follows loops p (Counting.inFunction q) := by
  intro bodies g _ hg
  have hzeroed : ({ g with depth := 0 } : Gauge).Right (.function :: bodies) :=
    ⟨(loopsOpen_function bodies).symm, hg.moments, hg.exits⟩
  obtain ⟨r, g', hrun, hcounted, hright, hfailure⟩ :=
    hp (.function :: bodies) _ (loopsOpen_function bodies) hzeroed.seen
  have hrestored : ({ g' with depth := g.depth } : Gauge).Right bodies :=
    ⟨hg.depth, hright.moments, hright.exits⟩
  refine ⟨r, ({ g' with depth := g.depth } : Gauge).seen bodies, hrun, ?_, hrestored.seen, hfailure⟩
  exact congrArg (fun o : Except Failure α × Gauge =>
    (o.1, ({ o.2 with depth := g.depth } : Gauge).seen bodies)) hcounted

/-- **Recovery**: a failure has left the counter right, and is about no way out of a loop. -/
theorem recovering_follows (hp : Follows loops p q) :
    Follows loops (recovering p) (Counting.recovering q) := by
  intro bodies g hb hg
  obtain ⟨r, g', hrun, hcounted, hright, hfailure⟩ := hp bodies g hb hg
  have hrecovered : ((Counting.recovering q).run bodies).run g
      = Counting.recovered bodies ((q.run bodies).run g) := rfl
  rw [hrecovered, run_recovering, hrun, hcounted]
  rcases r with (e | _) | x
  · refine ⟨_, _, rfl, rfl, Gauge.Right.seen ⟨hright.depth, hright.moments, ?_⟩, fun e he => nomatch he⟩
    show outside (g'.cursor.errors ++ [e]) = _
    rw [outside_append_single, hfailure e rfl]
    exact (List.append_nil _).trans hright.exits
  · exact ⟨_, g', rfl, rfl, hright, fun e he => nomatch he⟩
  · exact ⟨_, g', rfl, rfl, hright, fun e he => nomatch he⟩

/-- **A way out of a loop** is complained of if no loop is open, and only then. -/
theorem reach_follows (e : LoopExit) (keyword : Token) :
    Follows loops (complainOutside loops e keyword) (Counting.reach e keyword) := by
  rintro bodies g rfl hg
  obtain ⟨cursor, hcomplain, hexits⟩ : ∃ cursor,
      (complainOutside (loopsOpen bodies) e keyword).run g.cursor = (.ok (), cursor) ∧
        outside cursor.errors = complaintsAt (g.exits ++ [⟨e, keyword, bodies⟩]) := by
    rw [complaintsAt_append_single, ← hg.exits]
    unfold complainOutside
    split
    · refine ⟨_, rfl, ?_⟩
      show outside (g.cursor.errors ++ [_]) = _
      rw [outside_append_single]
      rfl
    · exact ⟨g.cursor, rfl, (List.append_nil _).symm⟩
  -- the counter says what is told
  have hcounted := hcomplain
  rw [← hg.depth] at hcounted
  let reached (s : Cursor) : Gauge := { g with cursor := s, exits := g.exits ++ [⟨e, keyword, bodies⟩] }
  refine ⟨.ok (), (reached cursor).seen bodies, hcomplain, ?_, ?_, fun _ he => nomatch he⟩
  · exact congrArg (fun o : Except Failure Unit × Cursor => (o.1, (reached o.2).seen bodies)) hcounted
  · exact Gauge.Right.seen ⟨hg.depth, hg.moments, hexits⟩

theorem loopExit_follows (e : LoopExit) (keyword : Token) :
    Follows loops (loopExit loops e keyword) (Counting.loopExit e keyword) :=
  (reach_follows e keyword).bind fun _ => step_then (quiet_expect _ fun _ => rfl) fun _ =>
    pure_follows _

end Follows

/-! ## 4. Every rule -/

/-- A rule with the counter in place of what it is told. -/
def Rule.counted {α : Type} (n : Nat) : Rule α → Count α
  | .expression => Counting.expression n
  | .moreAssignments left => Counting.moreAssignments n left
  | .assignment => Counting.assignment n
  | .conditional => Counting.conditional n
  | .operand l => Counting.operand n l
  | .moreOperands l left => Counting.moreOperands n l left
  | .operandWithin l => Counting.operandWithin n l
  | .unary => Counting.unary n
  | .moreCalls left => Counting.moreCalls n left
  | .arguments => Counting.arguments n
  | .primary => Counting.primary n
  | .parameterNames => Counting.step (Syntax.parameterNames n)
  | .parameters => Counting.step (Syntax.parameters n)
  | .code f => Counting.code n f
  | .funDecl f => Counting.funDecl n f
  | .declaration _ => Counting.declaration n
  | .declarationOrFail _ => Counting.declarationOrFail n
  | .classDecl => Counting.classDecl n
  | .methodsRest => Counting.methodsRest n
  | .varDecl => Counting.varDecl n
  | .statement _ => Counting.statement n
  | .exprStatement => Counting.exprStatement n
  | .forLoop _ => Counting.forLoop n
  | .forInit => Counting.forInit n
  | .whileLoop _ => Counting.whileLoop n
  | .branch _ => Counting.branch n
  | .ret keyword => Counting.ret n keyword
  | .blockRest _ => Counting.blockRest n
  | .declarations _ => Counting.declarations n
  | .program => Counting.program n

/-- **What a rule is told is right** where `loops` loops are open. A program is in no loop. -/
def Rule.At {α : Type} (loops : Nat) : Rule α → Prop
  | .declaration l | .declarationOrFail l | .statement l | .forLoop l | .whileLoop l | .branch l
  | .blockRest l | .declarations l => l = loops
  | .program => loops = 0
  | _ => True

section Rules

variable {n loops : Nat}

theorem primary_follows (hcode : ∀ f, Follows loops (code n f) (Counting.code n f))
    (hexpr : Follows loops (expression n) (Counting.expression n))
    (hoperand : ∀ l, Follows loops (operand n l) (Counting.operand n l)) :
    Follows loops (primary (n + 1)) (Counting.primary (n + 1)) := by
  rw [primary, Counting.primary]
  refine step_then quiet_peek fun t => ?_
  cases t.kind with
  | kwFalse | kwTrue | kwNil | number | string => exact step_then quiet_skip fun _ => pure_follows _
  | kwThis | identifier =>
    exact step_then quiet_skip fun _ => step_then (quiet_refer t) fun _ => pure_follows _
  | kwSuper =>
    exact step_then quiet_skip fun _ => step_then (quiet_expect _ fun _ => rfl) fun _ =>
      step_then (quiet_expect _ fun _ => rfl) fun _ => step_then (quiet_refer t) fun _ =>
        pure_follows _
  | kwFun => exact step_then quiet_skip fun _ => (hcode .lambda).bind fun _ => pure_follows _
  | leftParen =>
    exact step_then quiet_skip fun _ => hexpr.bind fun _ =>
      step_then (quiet_expect _ fun _ => rfl) fun _ => pure_follows _
  | bangEqual | equalEqual | greater | greaterEqual | less | lessEqual | plus | star | slash =>
    exact step_then quiet_skip fun _ => step_then (quiet_report (fun _ => rfl) t) fun _ =>
      (hoperand _).bind fun _ => pure_follows _
  | _ => exact step_follows (quiet_fail fun _ => rfl)

theorem statement_follows (hfor : Follows loops (forLoop n loops) (Counting.forLoop n))
    (hif : Follows loops (branch n loops) (Counting.branch n))
    (hret : ∀ t, Follows loops (ret n t) (Counting.ret n t))
    (hwhile : Follows loops (whileLoop n loops) (Counting.whileLoop n))
    (hblock : Follows loops (blockRest n loops) (Counting.blockRest n))
    (hexpr : Follows loops (exprStatement n) (Counting.exprStatement n)) :
    Follows loops (statement (n + 1) loops) (Counting.statement (n + 1)) := by
  rw [statement, Counting.statement]
  refine step_then quiet_peek fun t => ?_
  cases t.kind with
  | kwFor => exact step_then quiet_skip fun _ => hfor
  | kwIf => exact step_then quiet_skip fun _ => hif
  | kwReturn => exact step_then quiet_skip fun _ => hret t
  | kwWhile => exact step_then quiet_skip fun _ => hwhile
  | leftBrace => exact step_then quiet_skip fun _ => hblock.bind fun _ => pure_follows _
  | kwBreak | kwContinue => exact step_then quiet_skip fun _ => loopExit_follows _ t
  | _ => exact hexpr

theorem declarationOrFail_follows (hclass : Follows loops (classDecl n) (Counting.classDecl n))
    (hfun : Follows loops (funDecl n .function) (Counting.funDecl n .function))
    (hvar : Follows loops (varDecl n) (Counting.varDecl n))
    (hstmt : Follows loops (statement n loops) (Counting.statement n)) :
    Follows loops (declarationOrFail (n + 1) loops) (Counting.declarationOrFail (n + 1)) := by
  rw [declarationOrFail, Counting.declarationOrFail]
  refine step_then (quiet_accept _) fun o => ?_
  rcases o with _ | t
  · refine step_then (quiet_check _) fun _ => step_then (quiet_checkSecond _) fun _ => ?_
    split
    · exact step_then (quiet_accept _) fun _ => hfun.bind fun _ => pure_follows _
    · refine step_then (quiet_accept _) fun o => ?_
      rcases o with _ | t
      · exact hstmt
      · exact hvar
  · exact hclass

end Rules

/-- **Every rule with the counter follows the rule that is told** how many loops are open. -/
theorem rule_follows : ∀ n {α : Type} (r : Rule α) {loops : Nat}, r.At loops →
    Follows loops (r.parse n) (r.counted n)
  | 0, _, r, _ => fun _ => by
    cases r with
    | parameterNames => exact step_follows (quiet_parameterNames 0)
    | parameters => exact step_follows (quiet_parameters 0)
    | _ => exact starve_follows
  | n + 1, _, r, loops => fun hat => by
    have ih := @rule_follows n
    have expression : Follows loops (expression n) (Counting.expression n) := ih .expression trivial
    have assignment : Follows loops (assignment n) (Counting.assignment n) := ih .assignment trivial
    have within (l : Option Level) : Follows loops (operandWithin n l) (Counting.operandWithin n l) :=
      ih (.operandWithin l) trivial
    have body : Follows loops (statement n (loops + 1)) (Counting.inLoop (Counting.statement n)) :=
      inLoop_follows (@ih _ (.statement (loops + 1)) (loops + 1) rfl)
    have block : Follows loops (blockRest n 0) (Counting.inFunction (Counting.blockRest n)) :=
      inFunction_follows (@ih _ (.blockRest 0) 0 rfl)
    cases r with
    | expression => exact assignment.bind fun e => ih (.moreAssignments e) trivial
    | moreAssignments left =>
      refine step_then (quiet_accept _) fun o => ?_
      rcases o with _ | op
      · exact pure_follows left
      · exact assignment.bind fun e => ih (.moreAssignments (.binary left op e)) trivial
    | assignment =>
      refine Follows.bind (ih .conditional trivial) fun target => step_then (quiet_acceptIf _) fun o => ?_
      rcases o with _ | equals
      · exact pure_follows target
      · exact assignment.bind fun _ => step_follows (quiet_assignTo target equals _)
    | conditional =>
      refine Follows.bind (ih (.operand .or) trivial) fun condition =>
        step_then (quiet_accept _) fun o => ?_
      rcases o with _ | t
      · exact pure_follows condition
      · exact expression.bind fun yes => step_then (quiet_expect _ fun _ => rfl) fun _ =>
          Follows.bind (ih .conditional trivial) fun _ => pure_follows _
    | operand l => exact (within l.tighter?).bind fun e => ih (.moreOperands l e) trivial
    | moreOperands l left =>
      refine step_then (quiet_acceptIf _) fun o => ?_
      rcases o with _ | op
      · exact pure_follows left
      · exact (within l.tighter?).bind fun e => ih (.moreOperands l (l.join left op e)) trivial
    | operandWithin l =>
      rcases l with _ | l
      · exact ih .unary trivial
      · exact ih (.operand l) trivial
    | unary =>
      refine step_then (quiet_acceptIf _) fun o => ?_
      rcases o with _ | op
      · exact Follows.bind (ih .primary trivial) fun e => ih (.moreCalls e) trivial
      · exact Follows.bind (ih .unary trivial) fun _ => pure_follows _
    | moreCalls left =>
      refine step_then (quiet_accept _) fun o => ?_
      rcases o with _ | t
      · refine step_then (quiet_accept _) fun o => ?_
        rcases o with _ | t
        · exact pure_follows left
        · exact step_then (quiet_expect _ fun _ => rfl) fun name =>
            ih (.moreCalls (.get left name)) trivial
      · exact (Follows.before _ (ih .arguments trivial)).bind fun args =>
          step_then (quiet_limit _ fun _ => rfl) fun _ =>
            step_then (quiet_expect _ fun _ => rfl) fun paren =>
              ih (.moreCalls (.call left paren (args.getD []))) trivial
    | arguments =>
      refine assignment.bind fun first => step_then (quiet_accept _) fun o => ?_
      rcases o with _ | t
      · exact pure_follows _
      · exact Follows.bind (ih .arguments trivial) fun _ => pure_follows _
    | primary =>
      exact primary_follows (fun f => ih (.code f) trivial) expression fun l => ih (.operand l) trivial
    | parameterNames => exact step_follows (quiet_parameterNames (n + 1))
    | parameters => exact step_follows (quiet_parameters (n + 1))
    | code f =>
      exact step_then (quiet_expect _ fun _ => rfl) fun _ => step_then (quiet_parameters n) fun params =>
        step_then (quiet_expect _ fun _ => rfl) fun _ => block.bind fun _ => pure_follows _
    | funDecl f =>
      exact step_then (quiet_expect _ fun _ => rfl) fun name =>
        Follows.bind (ih (.code f) trivial) fun _ => pure_follows _
    | declaration l =>
      obtain rfl : l = loops := hat
      exact recovering_follows (ih (.declarationOrFail l) rfl)
    | declarationOrFail l =>
      obtain rfl : l = loops := hat
      exact declarationOrFail_follows (ih .classDecl trivial) (ih (.funDecl .function) trivial)
        (ih .varDecl trivial) (ih (.statement l) rfl)
    | classDecl =>
      exact step_then (quiet_expect _ fun _ => rfl) fun name =>
        (Follows.behind _ (step_follows quiet_superclassName)).bind fun superclass =>
          step_then (quiet_expect _ fun _ => rfl) fun _ =>
            Follows.bind (ih .methodsRest trivial) fun methods =>
              step_then (quiet_expect _ fun _ => rfl) fun _ => pure_follows _
    | methodsRest =>
      refine step_then (quiet_check _) fun _ => step_then quiet_atEnd fun _ => ?_
      split
      · exact pure_follows []
      · exact Follows.bind (ih (.funDecl .method) trivial) fun f =>
          Follows.bind (ih .methodsRest trivial) fun _ => pure_follows _
    | varDecl =>
      exact step_then (quiet_expect _ fun _ => rfl) fun name => (expression.behind _).bind fun init =>
        step_then (quiet_expect _ fun _ => rfl) fun _ => pure_follows _
    | statement l =>
      obtain rfl : l = loops := hat
      exact statement_follows (ih (.forLoop l) rfl) (ih (.branch l) rfl) (fun t => ih (.ret t) trivial)
        (ih (.whileLoop l) rfl) (ih (.blockRest l) rfl) (ih .exprStatement trivial)
    | exprStatement =>
      exact expression.bind fun e => step_then (quiet_expect _ fun _ => rfl) fun _ => pure_follows _
    | forLoop l =>
      obtain rfl : l = loops := hat
      exact step_then (quiet_expect _ fun _ => rfl) fun _ =>
        Follows.bind (ih .forInit trivial) fun init => (expression.before _).bind fun condition =>
          step_then (quiet_expect _ fun _ => rfl) fun _ => (expression.before _).bind fun increment =>
            step_then (quiet_expect _ fun _ => rfl) fun _ => body.bind fun _ => pure_follows _
    | forInit =>
      refine step_then (quiet_accept _) fun o => ?_
      rcases o with _ | t
      · refine step_then (quiet_accept _) fun o => ?_
        rcases o with _ | t
        · exact Follows.map some (ih .exprStatement trivial)
        · exact Follows.map some (ih .varDecl trivial)
      · exact pure_follows none
    | whileLoop l =>
      obtain rfl : l = loops := hat
      exact step_then (quiet_expect _ fun _ => rfl) fun _ => expression.bind fun condition =>
        step_then (quiet_expect _ fun _ => rfl) fun _ => body.bind fun _ => pure_follows _
    | branch l =>
      obtain rfl : l = loops := hat
      exact step_then (quiet_expect _ fun _ => rfl) fun _ => expression.bind fun condition =>
        step_then (quiet_expect _ fun _ => rfl) fun _ =>
          Follows.bind (ih (.statement l) rfl) fun yes =>
            (Follows.behind _ (ih (.statement l) rfl)).bind fun _ => pure_follows _
    | ret keyword =>
      exact (expression.before _).bind fun value => step_then (quiet_expect _ fun _ => rfl) fun _ =>
        pure_follows _
    | blockRest l =>
      obtain rfl : l = loops := hat
      exact Follows.bind (ih (.declarations l) rfl) fun body =>
        step_then (quiet_expect _ fun _ => rfl) fun _ => pure_follows _
    | declarations l =>
      obtain rfl : l = loops := hat
      refine step_then (quiet_check _) fun _ => step_then quiet_atEnd fun _ => ?_
      split
      · exact pure_follows []
      · exact Follows.bind (ih (.declaration l) rfl) fun first =>
          Follows.bind (ih (.declarations l) rfl) fun _ => pure_follows _
    | program =>
      obtain rfl : loops = 0 := hat
      refine step_then quiet_atEnd fun _ => ?_
      split
      · exact pure_follows []
      · exact Follows.bind (ih (.declaration 0) rfl) fun first =>
          Follows.bind (ih .program rfl) fun _ => pure_follows _

/-! ## 5. The whole parse -/

/-- **The counter survives syntax errors.** The parse with the counter comes to the same statements, the
    same errors and the same references as the parse that is told, from any tokens. At every moment of
    it, also behind a failure, the counter holds how many loops are open, and zero in the end. And the
    errors about ways out of loops are those about the ones that were reached with no loop open, each
    once and in order. -/
theorem loop_counter_survives (tokens : List Token) (nextId : Nat) :
    ∃ statements last, countedParse tokens nextId = (.ok statements, last) ∧
      parse tokens nextId = ⟨statements, last.cursor.errors, last.cursor.nextId⟩ ∧
      last.depth = 0 ∧ (∀ m ∈ last.moments, m.depth = loopsOpen m.bodies) ∧
      outside (parse tokens nextId).errors = complaintsAt last.exits := by
  have hstart : (Gauge.start (Cursor.ofTokens tokens nextId)).Right [] :=
    ⟨loopsOpen_nil.symm, List.forall_mem_singleton.mpr loopsOpen_nil.symm, rfl⟩
  obtain ⟨r, last, hrun, hcounted, hright, -⟩ :=
    rule_follows (fuelFor tokens.length) .program rfl [] _ loopsOpen_nil hstart
  have hfuel : need (tokens.takeWhile (·.kind ≠ .eof)) 23 < fuelFor tokens.length :=
    (ofTokens_at tokens nextId).fuel (Nat.le_refl _)
  obtain ⟨statements, cursor, hprogram, -, -, hparse⟩ := parse_run nextId hfuel
  cases hrun.symm.trans hprogram
  refine ⟨statements, last, hcounted, hparse, hright.depth, hright.moments, ?_⟩
  rw [hparse]
  exact hright.exits

set_option maxRecDepth 2000 in
/-- `while (nil) fun () { while (nil) var; break; };` and `while (nil) break;`. The inner loop fails at
    its body, and is left out. Behind it the function is in no loop, whatever is around it. -/
example :
    let word (k : Token.Kind) (w : String) : Token := ⟨k, w, ⟨1, 0⟩⟩
    let leave := word .kwBreak "break"
    let semicolon := word .semicolon ";"
    let loop := [word .kwWhile "while", word .leftParen "(", word .kwNil "nil", word .rightParen ")"]
    let function := [word .kwFun "fun", word .leftParen "(", word .rightParen ")", word .leftBrace "\x7b"]
    let tokens := loop ++ function ++ loop ++
      [word .kwVar "var", semicolon, leave, semicolon, word .rightBrace "\x7d", semicolon] ++ loop ++
      [leave, semicolon]
    (countedParse tokens 0).2.exits = [⟨.leave, leave, [.function, .loop]⟩, ⟨.leave, leave, [.loop]⟩] ∧
      (parse tokens 0).errors = [⟨.expression, word .kwVar "var"⟩, ⟨.exitOutsideLoop .leave, leave⟩] := by
  constructor <;> cbv

end Syntax

end Lox
