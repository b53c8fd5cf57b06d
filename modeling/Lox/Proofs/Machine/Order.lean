import Lox.Proofs.Machine.Composition

/-!
# The order of calls

The calls that a call makes, as a list in the order in which they are made.

* `made`: the calls that a call makes itself. `mem_made`: they are those of `Makes`.
* `readCalls`: the calls of `read` among those that it makes, directly or through others. `mem_readCalls`:
  they are all that there are (`Leads`).
* `Between m calls m'`: from `m` to `m'` the input is touched in the calls alone, one after the other.
  `made_between` says it of the calls that a call makes itself, one lemma a function, and
  `readCalls_between` of the calls of `read`.
-/

namespace Lox

variable {α β : Type} {n : Nat} {m m' m'' : Machine} {c : Call} {v : Visit} {calls others : List Visit}

/-! ## 1. Calls in order -/

/-- What is made after a computation, if that comes to a result. -/
def thenMade (r : Except Stop α × Machine) (f : α → Machine → List Visit) : List Visit :=
  match r.1 with
  | .ok a => f a r.2
  | .error _ => []

theorem mem_thenMade {r : Except Stop α × Machine} {f : α → Machine → List Visit} :
    v ∈ thenMade r f ↔ ∃ a m', r = (.ok a, m') ∧ v ∈ f a m' := by
  obtain ⟨r, m'⟩ := r
  cases r with
  | ok a =>
    refine ⟨fun h => ⟨a, m', rfl, h⟩, ?_⟩
    rintro ⟨_, _, ⟨⟩, h⟩
    exact h
  | error e => exact ⟨(nomatch ·), fun ⟨_, _, h, _⟩ => nomatch h⟩

/-- One call, and those that are made after it. -/
theorem mem_first {u : Visit} {r : Except Stop α × Machine} {f : α → Machine → List Visit} :
    v ∈ u :: thenMade r f ↔ v = u ∨ ∃ a m', r = (.ok a, m') ∧ v ∈ f a m' :=
  List.mem_cons.trans (or_congr_right mem_thenMade)

theorem thenMade_nothing (r : Except Stop α × Machine) : thenMade r (fun _ _ => []) = [] := by
  obtain ⟨r, m'⟩ := r
  cases r <;> rfl

/-- The calls that an expression makes. -/
def madeByExpr (n : Nat) (env : Env) (m : Machine) : Expr → List Visit
  | .group e | .unary _ e | .assign _ e | .get e _ => [⟨n, .evaluate e env, m⟩]
  | .binary l _ r =>
    ⟨n, .evaluate l env, m⟩ :: thenMade ((evaluate n l env).run m) fun _ m' => [⟨n, .evaluate r env, m'⟩]
  | .logical l op r =>
    ⟨n, .evaluate l env, m⟩ :: thenMade ((evaluate n l env).run m) fun a m' =>
      if decides op a then [] else [⟨n, .evaluate r env, m'⟩]
  | .conditional c yes no =>
    ⟨n, .evaluate c env, m⟩ :: thenMade ((evaluate n c env).run m) fun a m' =>
      if a.isTruthy then [⟨n, .evaluate yes env, m'⟩] else [⟨n, .evaluate no env, m'⟩]
  | .call f paren args =>
    ⟨n, .evaluate f env, m⟩ :: thenMade ((evaluate n f env).run m) fun v m' =>
      ⟨n, .evaluateAll args env, m'⟩ :: thenMade ((evaluateAll n args env).run m') fun vs m'' =>
        if v.arity? = some vs.length then [⟨n, .apply v vs paren, m''⟩] else []
  | .set o _ v =>
    ⟨n, .evaluate o env, m⟩ :: thenMade ((evaluate n o env).run m) fun w m' =>
      match w with
      | .object _ _ => [⟨n, .evaluate v env, m'⟩]
      | _ => []
  | .literal _ | .read _ | .this _ | .super _ _ | .lambda _ => []

/-- The calls that a statement makes. -/
def madeByStmt (n : Nat) (env : Env) (m : Machine) : Stmt → List Visit
  | .expr e | .varDecl _ e | .ret _ (some e) => [⟨n, .evaluate e env, m⟩]
  | .branch c yes no =>
    ⟨n, .evaluate c env, m⟩ :: thenMade ((evaluate n c env).run m) fun a m' =>
      if a.isTruthy then [⟨n, .execute yes env, m'⟩]
      else no.toList.map fun no => ⟨n, .execute no env, m'⟩
  | .whileLoop c body => [⟨n, .turns c none body env, m⟩]
  | .forLoop init c increment body =>
    thenMade ((newFrame env []).run m) fun inner m' =>
      match init with
      | some init =>
        ⟨n, .execute init inner, m'⟩ :: thenMade ((execute n init inner).run m') fun _ m'' =>
          [⟨n, .turns c increment body inner, m''⟩]
      | none => [⟨n, .turns c increment body inner, m'⟩]
  | .block body =>
    thenMade ((newFrame env []).run m) fun inner m' => [⟨n, .executeAll body inner, m'⟩]
  | .funDecl _ | .classDecl _ _ _ | .ret _ none | .leave _ | .next _ => []

/-- The calls that a value makes that is called. -/
def madeByValue (n : Nat) (args : List Value) (m : Machine) : Value → List Visit
  | .function _ f => [⟨n, .invoke f args, m⟩]
  | .ofClass c =>
    match c.method? initializerName with
    | some f =>
      thenMade ((allocate Store.newObject).run m) fun o m' =>
        thenMade ((bindMethod f (.object o c)).run m') fun bound m'' => [⟨n, .invoke bound args, m''⟩]
    | none => []
  | .nil | .bool _ | .number _ | .text _ | .native _ | .object _ _ => []

/-- The calls behind the body of a loop that goes on. -/
def madeByGoingOn (n : Nat) (c : Expr) (increment : Option Expr) (body : Stmt) (env : Env)
    (m : Machine) : List Visit :=
  match increment with
  | some i =>
    ⟨n, .evaluate i env, m⟩ :: thenMade ((evaluate n i env).run m) fun _ m' =>
      [⟨n, .turns c increment body env, m'⟩]
  | none => [⟨n, .turns c increment body env, m⟩]

/-- **The calls that a call makes**, with the fuel `n` each, in order. -/
def made (n : Nat) (m : Machine) : Call → List Visit
  | .evaluate e env => madeByExpr n env m e
  | .evaluateAll [] _ => []
  | .evaluateAll (e :: rest) env =>
    ⟨n, .evaluate e env, m⟩ :: thenMade ((evaluate n e env).run m) fun _ m' =>
      [⟨n, .evaluateAll rest env, m'⟩]
  | .apply f args _ => madeByValue n args m f
  | .invoke f args =>
    thenMade ((newFrame f.env (parameterBindings f args)).run m) fun env m' =>
      [⟨n, .executeAll f.code.body env, m'⟩]
  | .execute s env => madeByStmt n env m s
  | .executeAll [] _ => []
  | .executeAll (s :: rest) env =>
    ⟨n, .execute s env, m⟩ :: thenMade ((execute n s env).run m) fun r m' =>
      match r with
      | .normal => [⟨n, .executeAll rest env, m'⟩]
      | _ => []
  | .turns c increment body env =>
    ⟨n, .evaluate c env, m⟩ :: thenMade ((evaluate n c env).run m) fun a m' =>
      if a.isTruthy then
        ⟨n, .execute body env, m'⟩ :: thenMade ((execute n body env).run m') fun r m'' =>
          if r.goesOn then madeByGoingOn n c increment body env m'' else []
      else []

/-- A call that is made is in the list. -/
theorem mem_made_of_makes {c' : Call} (h : Makes n c m c' m') : ⟨n, c', m'⟩ ∈ made n m c := by
  cases h <;> simp [made, madeByExpr, madeByStmt, madeByValue, madeByGoingOn, thenMade, *]

theorem makes_of_mem_madeByExpr {e : Expr} {env : Env} (h : v ∈ madeByExpr n env m e) :
    v.fuel = n ∧ Makes n (.evaluate e env) m v.call v.machine := by
  cases e with
  | group | unary | assign | get =>
    obtain rfl := List.mem_singleton.mp h
    exact ⟨rfl, by constructor⟩
  | binary l op r =>
    rcases mem_first.mp h with rfl | ⟨a, m', hl, h⟩
    · exact ⟨rfl, .binaryLeft⟩
    · obtain rfl := List.mem_singleton.mp h
      exact ⟨rfl, .binaryRight hl⟩
  | logical l op r =>
    rcases mem_first.mp h with rfl | ⟨a, m', hl, h⟩
    · exact ⟨rfl, .logicalLeft⟩
    · split at h
      · exact nomatch h
      · next hd =>
        obtain rfl := List.mem_singleton.mp h
        exact ⟨rfl, .logicalRight hl (Bool.eq_false_iff.mpr hd)⟩
  | conditional c yes no =>
    rcases mem_first.mp h with rfl | ⟨a, m', hc, h⟩
    · exact ⟨rfl, .choiceCondition⟩
    · split at h
      · next ha =>
        obtain rfl := List.mem_singleton.mp h
        exact ⟨rfl, .choiceYes hc ha⟩
      · next ha =>
        obtain rfl := List.mem_singleton.mp h
        exact ⟨rfl, .choiceNo hc (Bool.eq_false_iff.mpr ha)⟩
  | call f paren args =>
    rcases mem_first.mp h with rfl | ⟨w, m', hf, h⟩
    · exact ⟨rfl, .callee⟩
    · rcases mem_first.mp h with rfl | ⟨vs, m'', hvs, h⟩
      · exact ⟨rfl, .arguments hf⟩
      · split at h
        · next harity =>
          obtain rfl := List.mem_singleton.mp h
          exact ⟨rfl, .applied hf hvs harity⟩
        · exact nomatch h
  | set o name e =>
    rcases mem_first.mp h with rfl | ⟨w, m', ho, h⟩
    · exact ⟨rfl, .setObject⟩
    · split at h
      · obtain rfl := List.mem_singleton.mp h
        exact ⟨rfl, .setValue ho⟩
      · exact nomatch h
  | literal | read | this | super | lambda => exact nomatch h

theorem makes_of_mem_madeByStmt {s : Stmt} {env : Env} (h : v ∈ madeByStmt n env m s) :
    v.fuel = n ∧ Makes n (.execute s env) m v.call v.machine := by
  cases s with
  | expr | varDecl | whileLoop =>
    obtain rfl := List.mem_singleton.mp h
    exact ⟨rfl, by constructor⟩
  | ret keyword value =>
    cases value with
    | none => exact nomatch h
    | some e =>
      obtain rfl := List.mem_singleton.mp h
      exact ⟨rfl, .returned⟩
  | branch c yes no =>
    rcases mem_first.mp h with rfl | ⟨a, m', hc, h⟩
    · exact ⟨rfl, .branchCondition⟩
    · split at h
      · next ha =>
        obtain rfl := List.mem_singleton.mp h
        exact ⟨rfl, .branchYes hc ha⟩
      · next ha =>
        cases no with
        | none => exact nomatch h
        | some no =>
          obtain rfl := List.mem_singleton.mp h
          exact ⟨rfl, .branchNo hc (Bool.eq_false_iff.mpr ha)⟩
  | forLoop init c increment body =>
    unfold madeByStmt at h
    obtain ⟨inner, m', hframe, h⟩ := mem_thenMade.mp h
    cases init with
    | none =>
      obtain rfl := List.mem_singleton.mp h
      exact ⟨rfl, .bareTurns hframe⟩
    | some init =>
      rcases mem_first.mp h with rfl | ⟨r, m'', hinit, h⟩
      · exact ⟨rfl, .loopStart hframe⟩
      · obtain rfl := List.mem_singleton.mp h
        exact ⟨rfl, .loopTurns hframe hinit⟩
  | block body =>
    unfold madeByStmt at h
    obtain ⟨inner, m', hframe, h⟩ := mem_thenMade.mp h
    obtain rfl := List.mem_singleton.mp h
    exact ⟨rfl, .block hframe⟩
  | funDecl | classDecl | leave | next => exact nomatch h

theorem makes_of_mem_madeByValue {f : Value} {args : List Value} {paren : Token}
    (h : v ∈ madeByValue n args m f) :
    v.fuel = n ∧ Makes n (.apply f args paren) m v.call v.machine := by
  cases f with
  | function i f =>
    obtain rfl := List.mem_singleton.mp h
    exact ⟨rfl, .function⟩
  | ofClass c =>
    cases hinit : c.method? initializerName with
    | some f =>
      simp only [madeByValue, hinit] at h
      obtain ⟨o, m', ho, h⟩ := mem_thenMade.mp h
      obtain ⟨bound, m'', hb, h⟩ := mem_thenMade.mp h
      obtain rfl := List.mem_singleton.mp h
      exact ⟨rfl, .initializer hinit ho hb⟩
    | none =>
      simp only [madeByValue, hinit] at h
      exact nomatch h
  | nil | bool | number | text | native | object => exact nomatch h

theorem makes_of_mem_made_turns {cond : Expr} {increment : Option Expr} {body : Stmt} {env : Env}
    (h : v ∈ made n m (.turns cond increment body env)) :
    v.fuel = n ∧ Makes n (.turns cond increment body env) m v.call v.machine := by
  rcases mem_first.mp h with rfl | ⟨a, m', hc, h⟩
  · exact ⟨rfl, .turnCondition⟩
  · split at h
    · next ha =>
      rcases mem_first.mp h with rfl | ⟨r, m'', hb, h⟩
      · exact ⟨rfl, .turnBody hc ha⟩
      · split at h
        · next hr =>
          cases increment with
          | none =>
            obtain rfl := List.mem_singleton.mp h
            exact ⟨rfl, .nextBareTurn hc ha hb hr⟩
          | some i =>
            rcases mem_first.mp h with rfl | ⟨w, m''', hi, h⟩
            · exact ⟨rfl, .turnIncrement hc ha hb hr⟩
            · obtain rfl := List.mem_singleton.mp h
              exact ⟨rfl, .nextTurn hc ha hb hr hi⟩
        · exact nomatch h
    · exact nomatch h

/-- **The list holds the calls that are made**, and no others. -/
theorem mem_made : v ∈ made n m c ↔ v.fuel = n ∧ Makes n c m v.call v.machine := by
  constructor
  · intro h
    cases c with
    | evaluate => exact makes_of_mem_madeByExpr h
    | execute => exact makes_of_mem_madeByStmt h
    | apply => exact makes_of_mem_madeByValue h
    | turns => exact makes_of_mem_made_turns h
    | evaluateAll es env =>
      cases es with
      | nil => exact nomatch h
      | cons e rest =>
        rcases mem_first.mp h with rfl | ⟨w, m', he, h⟩
        · exact ⟨rfl, .first⟩
        · obtain rfl := List.mem_singleton.mp h
          exact ⟨rfl, .others he⟩
    | invoke f args =>
      unfold made at h
      obtain ⟨env, m', hframe, h⟩ := mem_thenMade.mp h
      obtain rfl := List.mem_singleton.mp h
      exact ⟨rfl, .body hframe⟩
    | executeAll ss env =>
      cases ss with
      | nil => exact nomatch h
      | cons s rest =>
        rcases mem_first.mp h with rfl | ⟨r, m', hs, h⟩
        · exact ⟨rfl, .firstStatement⟩
        · split at h
          · obtain rfl := List.mem_singleton.mp h
            exact ⟨rfl, .otherStatements hs⟩
          · exact nomatch h
  · obtain ⟨k, c', m'⟩ := v
    rintro ⟨rfl, h⟩
    exact mem_made_of_makes h

/-! ## 2. What happens in between -/

/-- The machine behind a visit. -/
def Visit.after (v : Visit) : Machine := machineAfter v.fuel v.machine v.call

/-- **From `m` to `m'` the input is touched in the calls alone**, one after the other. -/
inductive Between : Machine → List Visit → Machine → Prop where
  | still {m m' : Machine} (h : m'.input = m.input) : Between m [] m'
  | call {m m' : Machine} {v : Visit} {calls : List Visit} (h : v.machine.input = m.input)
      (hrest : Between v.after calls m') : Between m (v :: calls) m'

namespace Between

theorem from_input (h : Between m calls m'') (hm : m.input = m'.input) : Between m' calls m'' := by
  cases h with
  | still h => exact .still (h.trans hm)
  | call h hrest => exact .call (h.trans hm) hrest

theorem trans (h : Between m calls m') (h' : Between m' others m'') :
    Between m (calls ++ others) m'' := by
  induction h with
  | still h => exact h'.from_input h
  | call h _ ih => exact .call h (ih h')

end Between

/-- **A computation on `m` touches the input in the calls alone.** -/
def Touches (m : Machine) (x : Run α) (calls : List Visit) : Prop := Between m calls (x.run m).2

namespace Touches

variable {x : Run α} {f : α → Run β} {g : α → Machine → List Visit}

theorem still (h : (x.run m).2.input = m.input) : Touches m x [] := Between.still h

/-- A computation that is a call. -/
theorem one (h : (x.run m).2 = machineAfter n m c) : Touches m x [⟨n, c, m⟩] :=
  .call rfl (.still (congrArg Machine.input h))

theorem bind (hx : Touches m x calls)
    (hf : ∀ a m', x.run m = (.ok a, m') → Touches m' (f a) (g a m')) :
    Touches m (x >>= f) (calls ++ thenMade (x.run m) g) := by
  unfold Touches at *
  cases hrun : x.run m with
  | mk r m₁ =>
    rw [hrun] at hx
    cases r with
    | ok a =>
      rw [run_bind_ok hrun]
      exact hx.trans (hf a m₁ hrun)
    | error e =>
      rw [run_bind_error hrun]
      exact hx.trans (.still rfl)

/-- Behind a computation that does not touch the input. -/
theorem behind (hx : (x.run m).2.input = m.input)
    (hf : ∀ a m', x.run m = (.ok a, m') → Touches m' (f a) (g a m')) :
    Touches m (x >>= f) (thenMade (x.run m) g) := (still hx).bind hf

/-- A call, and what follows it. -/
theorem first (hx : (x.run m).2 = machineAfter n m c)
    (hf : ∀ a m', x.run m = (.ok a, m') → Touches m' (f a) (g a m')) :
    Touches m (x >>= f) (⟨n, c, m⟩ :: thenMade (x.run m) g) := (one hx).bind hf

/-- What follows does not touch the input. -/
theorem last (hx : Touches m x calls)
    (hf : ∀ a m', x.run m = (.ok a, m') → ((f a).run m').2.input = m'.input) :
    Touches m (x >>= f) calls := by
  have h := hx.bind (g := fun _ _ => []) fun a m' hrun => still (hf a m' hrun)
  rwa [thenMade_nothing, List.append_nil] at h

end Touches

/-- The call is one of `read`. -/
def Call.isRead : Call → Bool
  | .apply (.native .read) _ _ => true
  | _ => false

/-- The visits of calls other than those of `read`. -/
def otherThanRead : History := fun v => v.call.isRead = false

theorem Consists.still {x : Run α} (h : Consists otherThanRead m x) : (x.run m).2.input = m.input :=
  h.input_eq fun _ _ _ _ h => nomatch h

theorem evaluate_touches (e : Expr) (env : Env) :
    Touches m (evaluate (n + 1) e env) (madeByExpr n env m e) := by
  cases e with
  | group e => exact .one rfl
  | unary op e => exact .last (.one rfl) fun v _ _ => (Consists.computed _).still
  | binary l op r =>
    exact .first rfl fun a m₁ _ => .last (.one rfl) fun b _ _ => (Consists.computed _).still
  | logical l op r =>
    refine .first rfl fun a m₁ _ => ?_
    cases decides op a with
    | true => exact .still rfl
    | false => exact .one rfl
  | conditional c yes no =>
    refine .first rfl fun a m₁ _ => ?_
    cases a.isTruthy with
    | true => exact .one rfl
    | false => exact .one rfl
  | assign ref e =>
    refine .last (.one rfl) fun v m₁ _ => Consists.still ?_
    exact (rebind_consists ref env v).bind fun _ _ _ => .pure v
  | call callee paren args =>
    refine .first rfl fun f m₁ _ => .first rfl fun vs m₂ _ => ?_
    cases f.arity? with
    | none => exact .still rfl
    | some k =>
      by_cases hk : vs.length = k
      · subst hk
        rw [if_pos rfl]
        show Touches m₂ (if vs.length = vs.length then apply n f vs paren else _) _
        rw [if_pos rfl]
        exact .one rfl
      · rw [if_neg (fun h => hk (Option.some.inj h).symm)]
        show Touches m₂ (if vs.length = k then apply n f vs paren else raise _) []
        rw [if_neg hk]
        exact .still rfl
  | get object name =>
    refine .last (.one rfl) fun o m₁ _ => ?_
    cases o with
    | object o c => exact (property_consists o c name).still
    | _ => rfl
  | set object name e =>
    refine .first rfl fun o m₁ _ => ?_
    cases o with
    | object o c =>
      refine .last (.one rfl) fun v m₂ _ => Consists.still ?_
      exact Consists.field.bind fun _ _ _ => .pure v
    | _ => exact .still rfl
  | read ref | this ref => exact .still (lookUp_consists ref env).still
  | super ref method => exact .still (superMethod_consists ref method env).still
  | literal l => exact .still rfl
  | lambda code => exact .still (newFunction_consists _).still

theorem apply_touches {f : Value} (hread : f ≠ .native .read) (args : List Value) (paren : Token) :
    Touches m (apply (n + 1) f args paren) (madeByValue n args m f) := by
  cases f with
  | native f =>
    have hcall : otherThanRead ⟨n + 1, .apply (.native f) args paren, m⟩ := by
      cases f with
      | read => exact absurd rfl hread
      | _ => rfl
    exact .still (native_consists hcall).still
  | function i f => exact .one rfl
  | ofClass c =>
    cases hinit : c.method? initializerName with
    | none =>
      simp only [madeByValue, hinit]
      refine .last (.still rfl) fun o m₁ _ => ?_
      simp only [hinit]
      rfl
    | some g =>
      simp only [madeByValue, hinit]
      refine Touches.behind rfl fun o m₁ _ => ?_
      simp only [hinit]
      exact .behind rfl fun bound m₂ _ => .last (.one rfl) fun _ _ _ => rfl
  | nil | bool | number | text | object => exact .still rfl

theorem execute_touches (s : Stmt) (env : Env) :
    Touches m (execute (n + 1) s env) (madeByStmt n env m s) := by
  cases s with
  | expr e => exact .last (.one rfl) fun _ _ _ => rfl
  | varDecl name e => exact .last (.one rfl) fun _ _ _ => rfl
  | ret keyword value =>
    cases value with
    | none => exact .still rfl
    | some e => exact .last (.one rfl) fun _ _ _ => rfl
  | branch c yes no =>
    refine .first rfl fun a m₁ _ => ?_
    cases a.isTruthy with
    | true => exact .one rfl
    | false =>
      cases no with
      | none => exact .still rfl
      | some no => exact .one rfl
  | whileLoop c body => exact .one rfl
  | forLoop init c increment body =>
    unfold madeByStmt
    refine Touches.behind (x := newFrame env []) rfl fun inner m₁ _ => ?_
    cases init with
    | none => exact .one rfl
    | some init => exact .first rfl fun r m₂ _ => .one rfl
  | block body =>
    unfold madeByStmt
    exact Touches.behind (x := newFrame env []) rfl fun inner m₁ _ => .one rfl
  | funDecl decl =>
    obtain ⟨name, code⟩ := decl
    exact .still rfl
  | classDecl name superclass methods =>
    have hcall : otherThanRead ⟨n + 1, .execute (.classDecl name superclass methods) env, m⟩ := rfl
    exact .still ((declareClass_consists hcall).bind fun _ _ _ => .pure _).still
  | leave | next => exact .still rfl

theorem turns_touches (c : Expr) (increment : Option Expr) (body : Stmt) (env : Env) :
    Touches m (turns (n + 1) c increment body env) (made n m (.turns c increment body env)) := by
  refine .first rfl fun a m₁ _ => ?_
  cases a.isTruthy with
  | false => exact .still rfl
  | true =>
    refine .first rfl fun r m₂ _ => ?_
    have hon : Touches m₂ (goOn n c increment body env) (madeByGoingOn n c increment body env m₂) := by
      cases increment with
      | none => exact .one rfl
      | some i => exact .first rfl fun _ m₃ _ => .one rfl
    cases r with
    | normal | next => exact hon
    | ret | leave => exact .still rfl

/-- **A call touches the input in the calls that it makes**, but for one of `read`. -/
theorem made_between (hread : c.isRead = false) :
    Between m (made n m c) (machineAfter (n + 1) m c) := by
  cases c with
  | evaluate e env => exact evaluate_touches e env
  | execute s env => exact execute_touches s env
  | turns c increment body env => exact turns_touches c increment body env
  | apply f args paren =>
    refine apply_touches ?_ args paren
    rintro rfl
    exact nomatch hread
  | evaluateAll es env =>
    cases es with
    | nil => exact .still rfl
    | cons e rest =>
      exact Touches.first (x := evaluate n e env) rfl fun v m₁ _ => .last (.one rfl) fun _ _ _ => rfl
  | invoke f args =>
    have hbody : Touches m (invoke (n + 1) f args)
        (thenMade ((newFrame f.env (parameterBindings f args)).run m) fun env m' =>
          [⟨n, .executeAll f.code.body env, m'⟩]) :=
      .behind rfl fun env m₁ _ => .last (.one rfl) fun s m₂ _ => (returned_consists f s).still
    exact hbody
  | executeAll ss env =>
    cases ss with
    | nil => exact .still rfl
    | cons s rest =>
      refine Touches.first (x := execute n s env) rfl fun r m₁ _ => ?_
      cases r with
      | normal => exact .one rfl
      | ret | leave | next => exact .still rfl

/-! ## 3. Calls of `read` -/

/-- **The calls of `read`** that a call makes, directly or through others, in order. -/
def readCalls : Nat → Call → Machine → List Visit
  | 0, _, _ => []
  | n + 1, c, m =>
    if c.isRead then [⟨n + 1, c, m⟩] else (made n m c).flatMap fun v => readCalls n v.call v.machine

/-- A visit of a call of `read` that has the fuel to run. -/
def Visit.Reads (v : Visit) : Prop := v.fuel ≠ 0 ∧ v.call.isRead = true

theorem Call.isRead_iff : c.isRead = true ↔ ∃ args paren, c = .apply (.native .read) args paren := by
  constructor
  · intro h
    unfold Call.isRead at h
    split at h
    · exact ⟨_, _, rfl⟩
    · cases h
  · rintro ⟨args, paren, rfl⟩
    rfl

/-- A call of `read` makes no others. -/
theorem made_of_isRead (h : c.isRead = true) : made n m c = [] := by
  obtain ⟨args, paren, rfl⟩ := Call.isRead_iff.mp h
  rfl

theorem Leads.cases_first {u : Visit} (h : Leads ⟨n + 1, c, m⟩ u) :
    u = ⟨n + 1, c, m⟩ ∨ ∃ v ∈ made n m c, Leads v u := by
  induction h with
  | refl => exact .inl rfl
  | @makes k c₁ m₁ c₂ m₂ _ hm ih =>
    refine .inr ?_
    rcases ih with heq | ⟨v, hv, hl⟩
    · cases heq
      exact ⟨_, mem_made_of_makes hm, .refl⟩
    · exact ⟨v, hv, hl.makes hm⟩

/-- **The list holds the calls of `read` that are made**, and no others. -/
theorem mem_readCalls : v ∈ readCalls n c m ↔ Leads ⟨n, c, m⟩ v ∧ v.Reads := by
  induction n generalizing c m with
  | zero =>
    refine ⟨(nomatch ·), ?_⟩
    rintro ⟨hl, hne, -⟩
    exact absurd (Nat.le_zero.mp hl.fuel_le) hne
  | succ n ih =>
    rw [readCalls]
    split
    · next hread =>
      rw [List.mem_singleton]
      constructor
      · rintro rfl
        exact ⟨.refl, Nat.succ_ne_zero n, hread⟩
      · rintro ⟨hl, -⟩
        rcases hl.cases_first with rfl | ⟨u, hu, -⟩
        · rfl
        · rw [made_of_isRead hread] at hu
          cases hu
    · next hread =>
      rw [List.mem_flatMap]
      constructor
      · rintro ⟨⟨k, c', m'⟩, hu, hv⟩
        obtain ⟨rfl, hm⟩ := mem_made.mp hu
        obtain ⟨hl, hreads⟩ := ih.mp hv
        exact ⟨(Leads.makes .refl hm).trans hl, hreads⟩
      · rintro ⟨hl, hreads⟩
        rcases hl.cases_first with rfl | ⟨⟨k, c', m'⟩, hu, hlater⟩
        · exact absurd hreads.2 hread
        · obtain ⟨rfl, -⟩ := mem_made.mp hu
          exact ⟨_, hu, ih.mpr ⟨hlater, hreads⟩⟩

theorem Between.flatMap {f : Visit → List Visit} (h : Between m calls m')
    (hf : ∀ v ∈ calls, Between v.machine (f v) v.after) : Between m (calls.flatMap f) m' := by
  induction h with
  | still h => exact .still h
  | @call m m' v calls hv _ ih =>
    rw [List.flatMap_cons]
    exact ((hf v List.mem_cons_self).from_input hv).trans
      (ih fun u hu => hf u (List.mem_cons_of_mem _ hu))

/-- **A call touches the input in calls of `read` alone.** -/
theorem readCalls_between (n : Nat) (c : Call) (m : Machine) :
    Between m (readCalls n c m) (machineAfter n m c) := by
  induction n generalizing c m with
  | zero => cases c <;> exact .still rfl
  | succ n ih =>
    rw [readCalls]
    split
    · exact .call rfl (.still rfl)
    · next hread =>
      refine (made_between (Bool.eq_false_iff.mpr hread)).flatMap fun v hv => ?_
      obtain ⟨rfl, -⟩ := mem_made.mp hv
      exact ih v.call v.machine

end Lox
