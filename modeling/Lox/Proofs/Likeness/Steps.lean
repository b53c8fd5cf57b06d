import Lox.Proofs.Likeness.Parts

/-!
# Programs that are alike run alike

* `LikeAt L n`: with fuel `n`, whatever is alike runs alike. One field for each function of the
  interpreter.
* One lemma for each function says that it runs alike if all that it calls does, and `likeAt` is the
  induction on the fuel.
-/

namespace Lox

/-! ## 1. What is shown -/

/-- **Whatever is alike runs alike**, with fuel `n`. -/
structure LikeAt (L : Likeness) (n : Nat) : Prop where
  evaluate : ∀ {κs keys env e e'}, EnvKeys κs env keys → ExprLike L keys e e' →
    RunsLike L κs (ValueLike L) (evaluate n e env) (evaluate n e' env)
  evaluateAll : ∀ {κs keys env es es'}, EnvKeys κs env keys → ExprsLike L keys es es' →
    RunsLike L κs (fun κs => List.Forall₂ (ValueLike L κs)) (evaluateAll n es env)
      (evaluateAll n es' env)
  apply : ∀ {κs v v' args args' paren paren'}, ValueLike L κs v v' →
    List.Forall₂ (ValueLike L κs) args args' → L.Token paren paren' →
    RunsLike L κs (ValueLike L) (apply n v args paren) (apply n v' args' paren')
  invoke : ∀ {κs f f' args args'}, FunctionLike L κs f f' →
    List.Forall₂ (ValueLike L κs) args args' →
    RunsLike L κs (ValueLike L) (invoke n f args) (invoke n f' args')
  execute : ∀ {κs keys env s s'}, EnvKeys κs env keys → StmtLike L keys s s' →
    RunsLike L κs (SignalLike L) (execute n s env) (execute n s' env)
  executeAll : ∀ {κs keys env ss ss'}, EnvKeys κs env keys → StmtsLike L keys ss ss' →
    RunsLike L κs (SignalLike L) (executeAll n ss env) (executeAll n ss' env)
  turns : ∀ {κs keys env c c' i i' s s'}, EnvKeys κs env keys → ExprLike L keys c c' →
    OptionExprLike L keys i i' → StmtLike L keys s s' →
    RunsLike L κs (SignalLike L) (turns n c i s env) (turns n c' i' s' env)

section Step

variable {L : Likeness} {κs keys : List Renaming} {env : Env} {n : Nat}

/-- Two choices by values that are alike. -/
theorem RunsLike.choice {α : Type} {V : List Renaming → α → α → Prop} {v v' : Value}
    (hv : ValueLike L κs v v') {x x' y y' : Run α} (hx : RunsLike L κs V x x')
    (hy : RunsLike L κs V y y') :
    RunsLike L κs V (if v.isTruthy then x else y) (if v'.isTruthy then x' else y') := by
  rw [hv.isTruthy]
  split
  · exact hx
  · exact hy

/-! ## 2. Expressions -/

theorem call_like (ih : LikeAt L n) {v v' : Value} (hv : ValueLike L κs v v')
    {args args' : List Value} (hargs : List.Forall₂ (ValueLike L κs) args args')
    {paren paren' : Token} (hparen : L.Token paren paren') :
    RunsLike L κs (ValueLike L)
      (match v.arity? with
        | none => raise (.type "Can only call functions and classes." paren.pos)
        | some k =>
          if args.length = k then apply n v args paren
          else raise (.arity k args.length paren.pos))
      (match v'.arity? with
        | none => raise (.type "Can only call functions and classes." paren'.pos)
        | some k =>
          if args'.length = k then apply n v' args' paren'
          else raise (.arity k args'.length paren'.pos)) := by
  rw [hv.arity?, ← hargs.length_eq]
  cases v.arity? with
  | none => exact .raise (.type hparen.pos)
  | some k =>
    by_cases hk : args.length = k
    · simp only [if_pos hk]
      exact ih.apply hv hargs hparen
    · simp only [if_neg hk]
      exact .raise (.arity hparen.pos)

theorem evaluate_like (ih : LikeAt L n) (henv : EnvKeys κs env keys) {e e' : Expr}
    (h : ExprLike L keys e e') :
    RunsLike L κs (ValueLike L) (evaluate (n + 1) e env) (evaluate (n + 1) e' env) := by
  cases h with
  | @literal _ l => cases l <;> exact .pure (by constructor)
  | group h => exact ih.evaluate henv h
  | unary hop h =>
    exact (ih.evaluate henv h).bind fun _ _ _ _ hv => computed_like (unaryValue_like hop hv)
  | binary ha hop hb =>
    refine (ih.evaluate henv ha).bind fun κs₁ a a' hκ hva => ?_
    refine (ih.evaluate (henv.mono hκ) hb).bind fun κs₂ b b' hκ₂ hvb => ?_
    exact computed_like (binaryValue_like hop (hva.later hκ₂) hvb)
  | logical ha hop hb =>
    refine (ih.evaluate henv ha).bind fun κs₁ a a' hκ hva => ?_
    simp only [decides_like hop hva]
    split
    · exact .pure hva
    · exact ih.evaluate (henv.mono hκ) hb
  | conditional hc ha hb =>
    refine (ih.evaluate henv hc).bind fun κs₁ v v' hκ hv => ?_
    exact .choice hv (ih.evaluate (henv.mono hκ) ha) (ih.evaluate (henv.mono hκ) hb)
  | read h | this h => exact lookUp_like henv h
  | assign h he =>
    refine (ih.evaluate henv he).bind fun κs₁ v v' hκ hv => ?_
    refine (rebind_like (henv.mono hκ) h hv).bind fun κs₂ _ _ hκ₂ _ => ?_
    exact .pure (hv.later hκ₂)
  | call hf hparen hargs =>
    refine (ih.evaluate henv hf).bind fun κs₁ v v' hκ hv => ?_
    refine (ih.evaluateAll (henv.mono hκ) hargs).bind fun κs₂ vs vs' hκ₂ hvs => ?_
    exact call_like ih (hv.later hκ₂) hvs hparen
  | get ho hname =>
    refine (ih.evaluate henv ho).bind fun κs₁ v v' hκ hv => ?_
    cases hv with
    | object hc => exact property_like hc hname
    | _ => exact .raise (.type hname.pos)
  | set ho hname he =>
    refine (ih.evaluate henv ho).bind fun κs₁ o o' hκ ho => ?_
    cases ho with
    | object hc =>
      refine (ih.evaluate (henv.mono hκ) he).bind fun κs₂ v v' hκ₂ hv => ?_
      rw [hname.lexeme]
      refine (RunsLike.modifyStore fun m m' hm => hm.setField _ _ hv).bind fun κs₃ _ _ hκ₃ _ => ?_
      exact .pure (hv.later hκ₃)
    | _ => exact .raise (.type hname.pos)
  | super h hmethod => exact superMethod_like henv h hmethod
  | lambda h => exact newFunction_like ⟨rfl, rfl, rfl, keys, henv, h⟩

theorem evaluateAll_like (ih : LikeAt L n) (henv : EnvKeys κs env keys) {es es' : List Expr}
    (h : ExprsLike L keys es es') :
    RunsLike L κs (fun κs => List.Forall₂ (ValueLike L κs)) (evaluateAll (n + 1) es env)
      (evaluateAll (n + 1) es' env) := by
  cases h with
  | nil => exact .pure .nil
  | cons h hs =>
    refine (ih.evaluate henv h).bind fun κs₁ v v' hκ hv => ?_
    refine (ih.evaluateAll (henv.mono hκ) hs).bind fun κs₂ vs vs' hκ₂ hvs => ?_
    exact .pure (.cons (hv.later hκ₂) hvs)

/-! ## 3. Calls -/

theorem apply_like (ih : LikeAt L n) {v v' : Value} (hv : ValueLike L κs v v')
    {args args' : List Value} (hargs : List.Forall₂ (ValueLike L κs) args args')
    {paren paren' : Token} (hparen : L.Token paren paren') :
    RunsLike L κs (ValueLike L) (apply (n + 1) v args paren) (apply (n + 1) v' args' paren') := by
  cases hv with
  | native => exact native_like _ hargs hparen
  | function hf => exact ih.invoke hf hargs
  | @ofClass c c' hc =>
    have hobject : RunsLike L κs (fun _ o o' => o' = o) (allocate Store.newObject)
        (allocate Store.newObject) :=
      fun m m' hm => .of_run rfl rfl hm.newObject (.ok hm.objects)
    refine hobject.bind fun κs₁ o o' hκ ho => ?_
    subst ho
    have hc₁ := hc.mono (.refl L) hκ
    have hfind := hc₁.method? initializerName
    generalize c.method? initializerName = f, c'.method? initializerName = f' at hfind ⊢
    cases hfind with
    | none => exact .pure (.object hc₁)
    | some hf =>
      refine (bindMethod_like hf (.object hc₁)).bind fun κs₂ g g' hκ₂ hg => ?_
      have hargs₂ := hargs.imp fun _ _ hv => ValueLike.later hv (hκ.trans hκ₂)
      refine (ih.invoke hg hargs₂).bind fun κs₃ _ _ hκ₃ _ => ?_
      exact .pure (.object (hc₁.mono (.refl L) (hκ₂.trans hκ₃)))
  | nil | bool | number | text | object => exact .raise (.type hparen.pos)

theorem parameterBindings_like {r : Renaming} {params params' : List Token}
    (hparams : List.Forall₂ (L.Declared r) params params') {args args' : List Value}
    (hargs : List.Forall₂ (ValueLike L κs) args args') :
    BindingsLike (ValueLike L κs) r (.ofPairs ((params.map Token.lexeme).zip args))
      (.ofPairs ((params'.map Token.lexeme).zip args')) := by
  refine .ofPairs ?_
  induction hparams generalizing args args' with
  | nil => exact .nil
  | cons hp _ ih =>
    cases hargs with
    | nil => exact .nil
    | cons hv hvs => exact .cons ⟨hp.lexeme, hv⟩ (ih hvs)

theorem returned_like {f f' : Closure} {inner : List Renaming} (hf : ClosureLike L κs inner f f')
    {s s' : Signal} (hs : SignalLike L κs s s') :
    RunsLike L κs (ValueLike L) (returned f s) (returned f' s') := by
  obtain ⟨keys, hkeys, -⟩ := hf.code
  unfold returned
  rw [hf.isInitializer, hf.env]
  split
  · exact readAt_like hkeys fun r _ => hiddenThis_like r
  · cases hs with
    | ret hv => exact .pure hv
    | normal | leave | next => exact .pure .nil

theorem invoke_like (ih : LikeAt L n) {f f' : Closure} (hf : FunctionLike L κs f f')
    {args args' : List Value} (hargs : List.Forall₂ (ValueLike L κs) args args') :
    RunsLike L κs (ValueLike L) (invoke (n + 1) f args) (invoke (n + 1) f' args') := by
  obtain ⟨keys, hkeys, hcode⟩ := hf.code
  obtain ⟨name, code, env, isInitializer⟩ := f
  obtain ⟨name', code', env', isInitializer'⟩ := f'
  obtain rfl : env' = env := hf.env
  cases hcode with
  | mk hr hparams hbody =>
    refine (newFrame_like hkeys _ (parameterBindings_like hparams hargs)).bind
      fun κs₁ env₁ env₁' hκ henv => ?_
    obtain ⟨rfl, henv⟩ := henv
    refine (ih.executeAll henv hbody).bind fun κs₂ s s' hκ₂ hs => ?_
    exact returned_like (ClosureLike.mono hf (.refl L) (hκ.trans hκ₂)) hs

/-! ## 4. Statements -/

theorem execute_like (ih : LikeAt L n) (henv : EnvKeys κs env keys) {s s' : Stmt}
    (h : StmtLike L keys s s') :
    RunsLike L κs (SignalLike L) (execute (n + 1) s env) (execute (n + 1) s' env) := by
  cases h with
  | expr h => exact (ih.evaluate henv h).bind fun _ _ _ _ _ => .pure .normal
  | varDecl hname h =>
    refine (ih.evaluate henv h).bind fun κs₁ v v' hκ hv => ?_
    rw [hname.lexeme]
    exact (define_like (henv.mono hκ) hv).bind fun _ _ _ _ _ => .pure .normal
  | @funDecl _ name _ code code' hname _ hstays hcode =>
    rw [execute, execute, hname.lexeme]
    have hf : FunctionLike L κs ⟨some name.lexeme, code, env, false⟩
        ⟨some name.lexeme, code', env, false⟩ := ⟨rfl, rfl, rfl, keys, henv, hcode⟩
    refine (newFunction_like hf).bind fun κs₁ v v' hκ hv => ?_
    have hdefine := define_like (n := name.lexeme) (henv.mono hκ) hv
    rw [hstays] at hdefine
    exact hdefine.bind fun _ _ _ _ _ => .pure .normal
  | classDecl hname _ hstays hsuperclass hmethods =>
    exact (declareClass_like henv hname hstays hsuperclass hmethods).bind
      fun _ _ _ _ _ => .pure .normal
  | branch hc ha hb =>
    refine (ih.evaluate henv hc).bind fun κs₁ v v' hκ hv => ?_
    refine .choice hv (ih.execute (henv.mono hκ) ha) ?_
    cases hb with
    | none => exact .pure .normal
    | some hb => exact ih.execute (henv.mono hκ) hb
  | whileLoop hc hs => exact ih.turns henv hc .none hs
  | @forLoop _ r _ _ _ _ _ _ _ _ hr hinit hc hi hs =>
    refine (newFrame_like henv r .nil).bind fun κs₁ env₁ env₁' hκ henv => ?_
    obtain ⟨rfl, henv⟩ := henv
    cases hinit with
    | none => exact ih.turns henv hc hi hs
    | some hinit =>
      refine (ih.execute henv hinit).bind fun κs₂ _ _ hκ₂ _ => ?_
      exact ih.turns (henv.mono hκ₂) hc hi hs
  | @block _ r _ _ hr h =>
    refine (newFrame_like henv r .nil).bind fun κs₁ env₁ env₁' hκ henv => ?_
    obtain ⟨rfl, henv⟩ := henv
    exact ih.executeAll henv h
  | ret hk h =>
    cases h with
    | none => exact .pure (.ret .nil)
    | some h => exact (ih.evaluate henv h).bind fun _ _ _ _ hv => .pure (.ret hv)
  | leave hk => exact .pure .leave
  | next hk => exact .pure .next

theorem executeAll_like (ih : LikeAt L n) (henv : EnvKeys κs env keys) {ss ss' : List Stmt}
    (h : StmtsLike L keys ss ss') :
    RunsLike L κs (SignalLike L) (executeAll (n + 1) ss env) (executeAll (n + 1) ss' env) := by
  cases h with
  | nil => exact .pure .normal
  | cons h hs =>
    refine (ih.execute henv h).bind fun κs₁ r r' hκ hr => ?_
    cases hr with
    | normal => exact ih.executeAll (henv.mono hκ) hs
    | ret hv => exact .pure (.ret hv)
    | leave => exact .pure .leave
    | next => exact .pure .next

/-- The next turn of a loop, behind its increment. -/
theorem nextTurn_like (ih : LikeAt L n) (henv : EnvKeys κs env keys) {c c' : Expr}
    {i i' : Option Expr} {s s' : Stmt} (hc : ExprLike L keys c c') (hs : StmtLike L keys s s') :
    OptionExprLike L keys i i' →
      RunsLike L κs (SignalLike L) (goOn n c i s env) (goOn n c' i' s' env) := by
  intro hi
  cases hi with
  | none => exact ih.turns henv hc .none hs
  | some hi =>
    refine (ih.evaluate henv hi).bind fun κs₁ _ _ hκ _ => ?_
    exact ih.turns (henv.mono hκ) hc (.some hi) hs

theorem turns_like (ih : LikeAt L n) (henv : EnvKeys κs env keys) {c c' : Expr} {i i' : Option Expr}
    {s s' : Stmt} (hc : ExprLike L keys c c') (hi : OptionExprLike L keys i i')
    (hs : StmtLike L keys s s') :
    RunsLike L κs (SignalLike L) (turns (n + 1) c i s env) (turns (n + 1) c' i' s' env) := by
  refine (ih.evaluate henv hc).bind fun κs₁ v v' hκ hv => ?_
  refine .choice hv ?_ (.pure .normal)
  refine (ih.execute (henv.mono hκ) hs).bind fun κs₂ r r' hκ₂ hr => ?_
  cases hr with
  | leave => exact .pure .normal
  | ret hv => exact .pure (.ret hv)
  | normal | next => exact nextTurn_like ih ((henv.mono hκ).mono hκ₂) hc hs hi

end Step

/-! ## 5. The induction -/

/-- **Whatever is alike runs alike.** -/
theorem likeAt (L : Likeness) (n : Nat) : LikeAt L n := by
  induction n with
  | zero =>
    exact ⟨fun _ _ => .starved, fun _ _ => .starved, fun _ _ _ => .starved, fun _ _ => .starved,
      fun _ _ => .starved, fun _ _ => .starved, fun _ _ _ _ => .starved⟩
  | succ n ih =>
    exact {
      evaluate := fun henv h => evaluate_like ih henv h
      evaluateAll := fun henv h => evaluateAll_like ih henv h
      apply := fun hv hargs hparen => apply_like ih hv hargs hparen
      invoke := fun hf hargs => invoke_like ih hf hargs
      execute := fun henv h => execute_like ih henv h
      executeAll := fun henv h => executeAll_like ih henv h
      turns := fun henv hc hi hs => turns_like ih henv hc hi hs }

end Lox
