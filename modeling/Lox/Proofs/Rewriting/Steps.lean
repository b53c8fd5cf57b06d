import Lox.Proofs.Machine.Signals
import Lox.Proofs.Rewriting.Parts

/-!
# Programs written another way run alike

* `IntoAt R leader n`: **where the short program has the fuel `n`**, and the written-out one enough, they come
  to the same. One field for each function of the interpreter, and one for the turns of a loop that is
  written out.
* `closed`: how the body of a loop finishes with the increment run at each `continue`, as the written-out body
  does. `bodyAt` compares the two bodies so.
* One lemma for each function says that it comes to the same if all that it calls does, and `intoAt` is the
  induction on the fuel.
-/

namespace Lox

/-! ## 1. What is shown -/

/-- **What the short program does with the fuel `n`**, the written-out one does with enough. -/
structure IntoAt (R : Rewriting) (leader : Leader) (n : Nat) : Prop where
  evaluate : ∀ {k φ slots env env' e e'}, Fuel 0 n k leader → EnvInto φ slots env env' →
    ExprInto R slots e e' →
    RunsInto R leader φ (ValueInto R) (evaluate n e env) (evaluate k e' env')
  evaluateAll : ∀ {k φ slots env env' es es'}, Fuel 0 n k leader → EnvInto φ slots env env' →
    ExprsInto R slots es es' →
    RunsInto R leader φ (fun φ => List.Forall₂ (ValueInto R φ)) (evaluateAll n es env)
      (evaluateAll k es' env')
  apply : ∀ {k φ v v' args args' paren paren'}, Fuel 0 n k leader → ValueInto R φ v v' →
    List.Forall₂ (ValueInto R φ) args args' → R.Token paren paren' →
    RunsInto R leader φ (ValueInto R) (apply n v args paren) (apply k v' args' paren')
  invoke : ∀ {k φ f f' args args'}, Fuel 0 n k leader → FunctionInto R φ f f' →
    List.Forall₂ (ValueInto R φ) args args' →
    RunsInto R leader φ (ValueInto R) (invoke n f args) (invoke k f' args')
  execute : ∀ {k φ slots env env' s s'}, Fuel 0 n k leader → EnvInto φ slots env env' →
    StmtInto R none slots s s' →
    RunsInto R leader φ (SignalInto R) (execute n s env) (execute k s' env')
  executeAll : ∀ {k φ slots env env' ss ss'}, Fuel 0 n k leader → EnvInto φ slots env env' →
    StmtsInto R none slots ss ss' →
    RunsInto R leader φ (SignalInto R) (executeAll n ss env) (executeAll k ss' env')
  unrolled : ∀ {k φ slots env env' c c' i i' s s'}, Fuel 0 n k leader → EnvInto φ slots env env' →
    ExprInto R slots c c' → OptionExprInto R (.added :: slots) i i' →
    StmtInto R (some ⟨i, .added :: slots⟩) (.added :: slots) s s' →
    RunsInto R leader φ (SignalInto R) (turns n c i s env)
      (turns k c' none (withIncrement s' i') env')
  turns : ∀ {k φ slots env env' c c' i i' s s'}, Fuel 0 n k leader → EnvInto φ slots env env' →
    ExprInto R slots c c' → OptionExprInto R slots i i' → StmtInto R none slots s s' →
    RunsInto R leader φ (SignalInto R) (turns n c i s env) (turns k c' i' s' env')

section Step

variable {R : Rewriting} {leader : Leader} {φ ψ : List FrameId} {slots : List Slot}
  {env env' : Env} {n k : Nat}

/-! ## 2. Expressions -/

/-- A call of a value with arguments. -/
def callWith (n : Nat) (f : Value) (args : List Value) (paren : Token) : Run Value :=
  match f.arity? with
  | none => raise (.type "Can only call functions and classes." paren.pos)
  | some k =>
    if args.length = k then apply n f args paren else raise (.arity k args.length paren.pos)

instance Advances.callWith (n : Nat) (f : Value) (args : List Value) (paren : Token) :
    Advances (callWith n f args paren) := by
  unfold Lox.callWith
  split <;> infer_instance

/-- A property of a value. -/
def propertyOf (name : Token) : Value → Run Value
  | .object o c => property o c name
  | _ => raise (.type "Only instances have properties." name.pos)

instance Advances.propertyOf (name : Token) (v : Value) : Advances (propertyOf name v) := by
  unfold Lox.propertyOf
  split <;> infer_instance

/-- The value of an expression, set as a field of a value. -/
def setOn (n : Nat) (name : Token) (value : Expr) (env : Env) : Value → Run Value
  | .object o _ => do
    let v ← evaluate n value env
    modifyStore (·.setField o name.lexeme v)
    return v
  | _ => raise (.type "Only instances have fields." name.pos)

instance Advances.setOn (n : Nat) (name : Token) (value : Expr) (env : Env) (v : Value) :
    Advances (setOn n name value env v) := by
  unfold Lox.setOn
  split <;> infer_instance

theorem evaluate_call (n : Nat) (callee : Expr) (paren : Token) (args : List Expr) (env : Env) :
    evaluate (n + 1) (.call callee paren args) env = (do
      let f ← evaluate n callee env
      let vs ← evaluateAll n args env
      callWith n f vs paren) := rfl

theorem evaluate_get (n : Nat) (object : Expr) (name : Token) (env : Env) :
    evaluate (n + 1) (.get object name) env = evaluate n object env >>= propertyOf name := rfl

theorem evaluate_set (n : Nat) (object : Expr) (name : Token) (value : Expr) (env : Env) :
    evaluate (n + 1) (.set object name value) env
      = evaluate n object env >>= setOn n name value env := rfl

theorem callWith_into (ih : IntoAt R leader n) (hk : Fuel 0 n k leader) {v v' : Value}
    (hv : ValueInto R φ v v') {args args' : List Value}
    (hargs : List.Forall₂ (ValueInto R φ) args args') {paren paren' : Token}
    (hparen : R.Token paren paren') :
    RunsInto R leader φ (ValueInto R) (callWith n v args paren) (callWith k v' args' paren') := by
  unfold callWith
  rw [hv.arity?, ← hargs.length_eq]
  cases v.arity? with
  | none => exact .raise (.type hparen.pos)
  | some a =>
    by_cases ha : args.length = a
    · simp only [if_pos ha]
      exact ih.apply hk hv hargs hparen
    · simp only [if_neg ha]
      exact .raise (.arity hparen.pos)

theorem evaluate_into (ih : IntoAt R leader n) (hk : Fuel 1 n k leader)
    (henv : EnvInto φ slots env env') {e e' : Expr} (h : ExprInto R slots e e') :
    RunsInto R leader φ (ValueInto R) (evaluate (n + 1) e env) (evaluate (k + 1) e' env') := by
  have hk₀ : Fuel 0 n k leader := hk.less (Nat.zero_le 1)
  cases h with
  | @literal _ l => cases l <;> exact .pure (by constructor)
  | group h => exact ih.evaluate (k := k) hk₀ henv h
  | unary hop h =>
    exact (ih.evaluate hk₀ henv h).bind fun _ _ _ _ hv => (computed_into (unaryValue_into hop hv)).runs
  | binary ha hop hb =>
    refine (ih.evaluate hk₀ henv ha).bind fun ψ a a' hφ hva => ?_
    refine (ih.evaluate hk₀ (henv.later hφ) hb).bind fun χ b b' hψ hvb => ?_
    exact (computed_into (binaryValue_into hop (hva.later hψ) hvb)).runs
  | @grouped _ _ _ _ _ _ b' _ ha hop hb =>
    refine (ih.evaluate hk₀ henv ha).bind fun ψ a a' hφ hva => ?_
    have hgroup : RunsInto R leader ψ (ValueInto R) (evaluate n _ env)
        (evaluate k (.group b') env') :=
      .unfold (y := fun k => evaluate k (.group b') env') rfl hk fun k' _ hk' =>
        ih.evaluate (k := k') hk' (henv.later hφ) hb
    refine hgroup.bind fun χ b b' hψ hvb => ?_
    exact (computed_into (binaryValue_into hop (hva.later hψ) hvb)).runs
  | logical ha hop hb =>
    refine (ih.evaluate hk₀ henv ha).bind fun ψ a a' hφ hva => ?_
    simp only [decides_into hop hva]
    split
    · exact .pure hva
    · exact ih.evaluate hk₀ (henv.later hφ) hb
  | conditional hc ha hb =>
    refine (ih.evaluate hk₀ henv hc).bind fun ψ v v' hφ hv => ?_
    exact .choice hv (ih.evaluate hk₀ (henv.later hφ) ha) (ih.evaluate hk₀ (henv.later hφ) hb)
  | read h | this h => exact (lookUp_into henv h).runs
  | assign h he =>
    refine (ih.evaluate hk₀ henv he).bind fun ψ v v' hφ hv => ?_
    refine ((rebind_into (henv.later hφ) h hv).bind fun χ _ _ hψ _ => ?_).runs
    exact .pure (hv.later hψ)
  | call hf hparen hargs =>
    rw [evaluate_call, evaluate_call]
    refine (ih.evaluate hk₀ henv hf).bind fun ψ v v' hφ hv => ?_
    refine (ih.evaluateAll hk₀ (henv.later hφ) hargs).bind fun χ vs vs' hψ hvs => ?_
    exact callWith_into ih hk₀ (hv.later hψ) hvs hparen
  | get ho hname =>
    rw [evaluate_get, evaluate_get]
    refine (ih.evaluate hk₀ henv ho).bind fun ψ v v' hφ hv => ?_
    cases hv with
    | object hc => exact (property_into hc hname).runs
    | _ => exact .raise (.type hname.pos)
  | set ho hname he =>
    rw [evaluate_set, evaluate_set]
    refine (ih.evaluate hk₀ henv ho).bind fun ψ v v' hφ hv => ?_
    cases hv with
    | object hc =>
      refine (ih.evaluate hk₀ (henv.later hφ) he).bind fun χ w w' hψ hw => PartInto.runs ?_
      refine PartInto.bind (.modifyStore fun m m' hm => ?_) fun ω _ _ hχ _ => .pure (hw.later hχ)
      rw [hname.lexeme]
      exact hm.setField _ _ hw
    | _ => exact .raise (.type hname.pos)
  | super h hmethod => exact (superMethod_into henv h hmethod).runs
  | @lambda _ c c' h =>
    have hf : FunctionInto R φ ⟨none, c, env, false⟩ ⟨none, c', env', false⟩ :=
      ⟨rfl, rfl, slots, henv, h, nofun⟩
    exact (newFunction_into hf).runs

theorem evaluateAll_into (ih : IntoAt R leader n) (hk : Fuel 0 n k leader)
    (henv : EnvInto φ slots env env') {es es' : List Expr} (h : ExprsInto R slots es es') :
    RunsInto R leader φ (fun φ => List.Forall₂ (ValueInto R φ)) (evaluateAll (n + 1) es env)
      (evaluateAll (k + 1) es' env') := by
  cases h with
  | nil => exact .pure .nil
  | cons h hs =>
    refine (ih.evaluate hk henv h).bind fun ψ v v' hφ hv => ?_
    refine (ih.evaluateAll hk (henv.later hφ) hs).bind fun χ vs vs' hψ hvs => ?_
    exact .pure (.cons (hv.later hψ) hvs)

/-! ## 3. Calls -/

/-- An instance that is made, once its address is known. -/
def initialized (n : Nat) (c : Class) (args : List Value) (this : Value) : Run Value :=
  match c.method? initializerName with
  | some f => do
    let _ ← invoke n (← bindMethod f this) args
    return this
  | none => return this

theorem apply_class (n : Nat) (c : Class) (args : List Value) (paren : Token) :
    apply (n + 1) (.ofClass c) args paren
      = allocate Store.newObject >>= fun o => initialized n c args (.object o c) := rfl

instance Advances.initialized (n : Nat) (c : Class) (args : List Value) (this : Value) :
    Advances (initialized n c args this) := by
  unfold Lox.initialized
  split <;> infer_instance

theorem newObject_into :
    PartInto R φ (fun _ o o' => o' = o) (allocate Store.newObject) (allocate Store.newObject) :=
  fun _ _ hm => .of_run rfl rfl (List.prefix_refl φ) hm.newObject (.ok hm.objects)

theorem apply_into (ih : IntoAt R leader n) (hk : Fuel 0 n k leader) {v v' : Value}
    (hv : ValueInto R φ v v') {args args' : List Value}
    (hargs : List.Forall₂ (ValueInto R φ) args args') {paren paren' : Token}
    (hparen : R.Token paren paren') :
    RunsInto R leader φ (ValueInto R) (apply (n + 1) v args paren) (apply (k + 1) v' args' paren') := by
  cases hv with
  | native => exact (native_into _ hargs hparen).runs
  | function hf => exact ih.invoke hk hf hargs
  | @ofClass c c' hc =>
    rw [apply_class, apply_class]
    refine newObject_into.runs.bind fun ψ o o' hφ ho => ?_
    subst ho
    have hc₁ := hc.later hφ
    have hfind := hc₁.method? initializerName
    unfold initialized
    generalize c.method? initializerName = f, c'.method? initializerName = f' at hfind ⊢
    cases hfind with
    | none => exact .pure (.object hc₁)
    | some hf =>
      refine (bindMethod_into hf (.object hc₁)).runs.bind fun χ g g' hψ hg => ?_
      have hargs₁ := hargs.imp fun _ _ hv => ValueInto.later hv (hφ.trans hψ)
      refine (ih.invoke hk hg hargs₁).bind fun ω _ _ hχ _ => ?_
      exact .pure (.object (hc₁.later (hψ.trans hχ)))
  | nil | bool | number | text | object => exact .raise (.type hparen.pos)

theorem parameterBindings_into {params params' : List Token}
    (hparams : List.Forall₂ R.Token params params') {args args' : List Value}
    (hargs : List.Forall₂ (ValueInto R φ) args args') :
    BindingsInto (ValueInto R φ) (.ofPairs ((params.map Token.lexeme).zip args))
      (.ofPairs ((params'.map Token.lexeme).zip args')) := by
  refine .ofPairs ?_
  induction hparams generalizing args args' with
  | nil => exact .nil
  | cons hp _ ih =>
    cases hargs with
    | nil => exact .nil
    | cons hv hvs => exact .cons ⟨hp.lexeme, hv⟩ (ih hvs)

/-- The instance that an initializer returns lies in the frame that both programs have. -/
theorem returned_into {f f' : Closure} (hf : FunctionInto R φ f f') {s s' : Signal}
    (hs : SignalInto R φ s s') : PartInto R φ (ValueInto R) (returned f s) (returned f' s') := by
  obtain ⟨slots, henv, -, hin⟩ := hf.code
  unfold returned
  rw [hf.isInitializer]
  split
  · next hinit =>
    have hnear : distanceIn slots 0 = 0 := by
      cases slots with
      | nil => rfl
      | cons s outer =>
        cases s with
        | shared => rfl
        | added => exact absurd rfl (hin hinit)
    have hread := readAt_into henv 0 (hiddenThis_into (R := R))
    rw [hnear] at hread
    exact hread
  · cases hs with
    | ret hv => exact .pure hv
    | normal | leave | next => exact .pure .nil

theorem invoke_into (ih : IntoAt R leader n) (hk : Fuel 0 n k leader) {f f' : Closure}
    (hf : FunctionInto R φ f f') {args args' : List Value}
    (hargs : List.Forall₂ (ValueInto R φ) args args') :
    RunsInto R leader φ (ValueInto R) (invoke (n + 1) f args) (invoke (k + 1) f' args') := by
  obtain ⟨slots, henv, hcode, -⟩ := hf.code
  obtain ⟨name, code, env, isInitializer⟩ := f
  obtain ⟨name', code', env', isInitializer'⟩ := f'
  cases hcode with
  | mk hparams hbody =>
    refine (newFrame_into henv (parameterBindings_into hparams hargs)).runs.bind
      fun ψ inner inner' hφ hinner => ?_
    refine (ih.executeAll hk hinner hbody).bind fun χ s s' hψ hs => ?_
    exact (returned_into (hf.later (hφ.trans hψ)) hs).runs

/-! ## 4. Statements -/

/-- What follows a statement that finished so. -/
def onward (n : Nat) (rest : List Stmt) (env : Env) : Signal → Run Signal
  | .normal => executeAll n rest env
  | s => return s

instance Advances.onward (n : Nat) (rest : List Stmt) (env : Env) (s : Signal) :
    Advances (onward n rest env s) := by
  unfold Lox.onward
  split <;> infer_instance

/-- The other branch, if there is one. -/
def otherwise (n : Nat) (no : Option Stmt) (env : Env) : Run Signal :=
  match no with
  | some no => execute n no env
  | none => return .normal

instance Advances.otherwise (n : Nat) (no : Option Stmt) (env : Env) :
    Advances (otherwise n no env) := by
  unfold Lox.otherwise
  split <;> infer_instance

/-- A loop behind its start, if it has one. -/
def started (n : Nat) (init : Option Stmt) (condition : Expr) (increment : Option Expr) (body : Stmt)
    (env : Env) : Run Signal :=
  match init with
  | some init => do
    let _ ← execute n init env
    turns n condition increment body env
  | none => turns n condition increment body env

instance Advances.started (n : Nat) (init : Option Stmt) (condition : Expr)
    (increment : Option Expr) (body : Stmt) (env : Env) :
    Advances (started n init condition increment body env) := by
  unfold Lox.started
  split <;> infer_instance

instance Advances.goOn (n : Nat) (condition : Expr) (increment : Option Expr) (body : Stmt)
    (env : Env) : Advances (goOn n condition increment body env) := by
  unfold Lox.goOn
  split <;> infer_instance

/-- What follows the body of a loop. -/
def turned (n : Nat) (condition : Expr) (increment : Option Expr) (body : Stmt) (env : Env) :
    Signal → Run Signal
  | .leave => return .normal
  | .ret v => return .ret v
  | .normal | .next => goOn n condition increment body env

instance Advances.turned (n : Nat) (condition : Expr) (increment : Option Expr) (body : Stmt)
    (env : Env) (s : Signal) : Advances (turned n condition increment body env s) := by
  unfold Lox.turned
  split <;> infer_instance

theorem execute_branch (n : Nat) (condition : Expr) (yes : Stmt) (no : Option Stmt) (env : Env) :
    execute (n + 1) (.branch condition yes no) env = (do
      if (← evaluate n condition env).isTruthy then execute n yes env else otherwise n no env) := rfl

theorem execute_forLoop (n : Nat) (init : Option Stmt) (condition : Expr) (increment : Option Expr)
    (body : Stmt) (env : Env) :
    execute (n + 1) (.forLoop init condition increment body) env
      = newFrame env [] >>= started n init condition increment body := rfl

theorem execute_block (n : Nat) (body : List Stmt) (env : Env) :
    execute (n + 1) (.block body) env = newFrame env [] >>= executeAll n body := rfl

theorem executeAll_cons (n : Nat) (s : Stmt) (rest : List Stmt) (env : Env) :
    executeAll (n + 1) (s :: rest) env = execute n s env >>= onward n rest env := rfl

theorem turns_succ (n : Nat) (condition : Expr) (increment : Option Expr) (body : Stmt) (env : Env) :
    turns (n + 1) condition increment body env = (do
      if (← evaluate n condition env).isTruthy then
        execute n body env >>= turned n condition increment body env
      else return .normal) := rfl

/-! ## 5. Loops that are written out -/

/-- The increment of a loop, if it has one. -/
def incremented (n : Nat) (increment : Option Expr) (env : Env) : Run Signal :=
  match increment with
  | some e => do
    let _ ← evaluate n e env
    return .normal
  | none => return .normal

instance Advances.incremented (n : Nat) (increment : Option Expr) (env : Env) :
    Advances (incremented n increment env) := by
  unfold Lox.incremented
  split <;> infer_instance

/-- **How the body of a loop finishes, with the increment run at each `continue`.** -/
def closed (n : Nat) (increment : Option Expr) (env : Env) : Signal → Run Signal
  | .next => do
    let _ ← incremented n increment env
    return .next
  | r => return r

instance Advances.closed (n : Nat) (increment : Option Expr) (env : Env) (r : Signal) :
    Advances (closed n increment env r) := by
  unfold Lox.closed
  split <;> infer_instance

/-- How the body of a loop finishes, with the increment run in any case. -/
def stepped (n : Nat) (increment : Option Expr) (env : Env) : Signal → Run Signal
  | .normal => do
    let _ ← incremented n increment env
    return .normal
  | r => return r

instance Advances.stepped (n : Nat) (increment : Option Expr) (env : Env) (r : Signal) :
    Advances (stepped n increment env r) := by
  unfold Lox.stepped
  split <;> infer_instance

/-- What follows some statements of the body, where the increment is run at each `continue`. -/
def onwardClosed (n₀ : Nat) (increment : Option Expr) (outer : Env) (n : Nat) (rest : List Stmt)
    (env : Env) : Signal → Run Signal
  | .normal => executeAll n rest env >>= closed n₀ increment outer
  | r => return r

instance Advances.onwardClosed (n₀ : Nat) (increment : Option Expr) (outer : Env) (n : Nat)
    (rest : List Stmt) (env : Env) (r : Signal) :
    Advances (onwardClosed n₀ increment outer n rest env r) := by
  unfold Lox.onwardClosed
  split <;> infer_instance

theorem onward_closed (n₀ : Nat) (increment : Option Expr) (outer : Env) (n : Nat) (s : Stmt)
    (rest : List Stmt) (env : Env) :
    (execute n s env >>= onward n rest env) >>= closed n₀ increment outer
      = (execute n s env >>= closed n₀ increment outer)
        >>= onwardClosed n₀ increment outer n rest env := by
  rw [bind_assoc, bind_assoc]
  congr 1
  funext r
  cases r <;> simp [onward, closed, onwardClosed]

/-- What follows the body of a loop and its increment. -/
def turnedOver (n : Nat) (condition : Expr) (increment : Option Expr) (body : Stmt) (env : Env) :
    Signal → Run Signal
  | .leave => return .normal
  | .ret v => return .ret v
  | .normal | .next => turns n condition increment body env

instance Advances.turnedOver (n : Nat) (condition : Expr) (increment : Option Expr) (body : Stmt)
    (env : Env) (r : Signal) : Advances (turnedOver n condition increment body env r) := by
  unfold Lox.turnedOver
  split <;> infer_instance

/-- A turn of a loop, seen as that of a loop whose body ends with the increment. -/
theorem turned_stepped (n : Nat) (condition : Expr) (increment : Option Expr) (body : Stmt)
    (env : Env) :
    execute n body env >>= turned n condition increment body env
      = ((execute n body env >>= closed n increment env) >>= stepped n increment env)
        >>= turnedOver n condition increment body env := by
  simp only [bind_assoc]
  congr 1
  funext r
  cases r <;> cases increment <;> simp [turned, turnedOver, goOn, closed, stepped, incremented]

/-- Statements that may hand a `continue` of their loop on. -/
def Stmt.handsOn : Stmt → Bool
  | .branch _ _ _ | .block _ | .next _ => true
  | .expr _ | .varDecl _ _ | .funDecl _ | .classDecl _ _ _ | .whileLoop _ _ | .forLoop _ _ _ _
  | .ret _ _ | .leave _ => false

theorem turns_ne_next {n : Nat} {c : Expr} {i : Option Expr} {s : Stmt} {m m' : Machine} :
    (turns n c i s env).run m ≠ (.ok .next, m') := by
  intro h
  obtain h | ⟨_, _, _, _, -, h, -⟩ := turns_result h <;> cases h

/-- No other statement finishes so. -/
theorem execute_ne_next {n : Nat} {s : Stmt} (hs : s.handsOn = false) (m m' : Machine) :
    (execute n s env).run m ≠ (.ok .next, m') := by
  -- what comes to an end behind other things
  have hlast : ∀ {α : Type} {x : Run α} {f : α → Run Signal} {m : Machine},
      (∀ a m₁, (f a).run m₁ ≠ (.ok .next, m')) → (x >>= f).run m ≠ (.ok .next, m') := by
    intro α x f m hf h
    obtain ⟨a, m₁, -, h⟩ := ok_of_run_bind h
    exact hf a m₁ h
  cases n with
  | zero => nofun
  | succ n =>
    cases s with
    | expr e => exact hlast fun _ _ => nofun
    | varDecl name e => exact hlast fun _ _ => hlast fun _ _ => nofun
    | funDecl decl =>
      obtain ⟨name, code⟩ := decl
      exact hlast fun _ _ => hlast fun _ _ => nofun
    | classDecl name superclass ms => exact hlast fun _ _ => nofun
    | branch | block | next => cases hs
    | whileLoop c s => exact turns_ne_next
    | forLoop init c i s =>
      refine hlast fun _ _ => ?_
      cases init with
      | none => exact turns_ne_next
      | some init => exact hlast fun _ _ => turns_ne_next
    | ret keyword e =>
      cases e with
      | none => nofun
      | some e => exact hlast fun _ _ => nofun
    | leave keyword => nofun

theorem run_closed {n₀ : Nat} {i : Option Expr} {outer : Env} {x : Run Signal}
    (h : ∀ m m', x.run m ≠ (.ok .next, m')) (m : Machine) :
    (x >>= closed n₀ i outer).run m = x.run m := by
  cases hrun : x.run m with
  | mk r m₁ =>
    cases r with
    | error e => exact run_bind_error hrun
    | ok r =>
      refine (run_bind_ok hrun).trans ?_
      cases r with
      | next => exact absurd hrun (h m m₁)
      | normal | ret | leave => rfl

/-- **The increment as a statement**, and what comes behind it. -/
theorem effects_into {V : List FrameId → Signal → Signal → Prop} {x : Run Signal} [Advances x]
    (spare : Nat) (ih : IntoAt R leader n) (hk : Fuel (spare + 2) n k leader)
    (henv : EnvInto φ slots env env') {i i' : Option Expr} (hi : OptionExprInto R slots i i')
    (rest : List Stmt) (hrest : ∀ ψ k, Fuel spare n k leader →
      RunsInto R leader ψ V x (executeAll k rest env')) :
    RunsInto R leader φ V (incremented n i env >>= fun _ => x)
      (executeAll k (effects i' ++ rest) env') := by
  cases hi with
  | none =>
    rw [show (incremented n none env >>= fun _ => x) = x from pure_bind _ _]
    exact hrest φ k (hk.less (Nat.le_add_right spare 2))
  | @some _ e e' h =>
    refine .unfold (y := fun k => executeAll k (.expr e' :: rest) env') rfl hk fun k₁ _ hk₁ => ?_
    have hfirst : RunsInto R leader φ (fun _ _ r' => r' = Signal.normal)
        (incremented n (some e) env) (execute k₁ (.expr e') env') :=
      .unfold (y := fun k => execute k (.expr e') env') rfl hk₁ fun k₂ _ hk₂ =>
        (ih.evaluate (hk₂.less (Nat.zero_le _)) henv h).bind fun _ _ _ _ _ => .pure rfl
    rw [executeAll_cons]
    refine hfirst.bind fun ψ _ r' _ hr => ?_
    subst hr
    exact hrest ψ k₁ (hk₁.less (Nat.le_succ spare))

theorem finished_into (hk : Fuel 1 n k leader) :
    RunsInto R leader φ (SignalInto R) (Pure.pure .normal) (executeAll k [] env') :=
  .unfold (y := fun k => executeAll k [] env') rfl hk fun _ _ _ => .pure .normal

theorem next_into (hk : Fuel 2 n k leader) (keyword : Token) :
    RunsInto R leader φ (SignalInto R) (Pure.pure .next) (executeAll k [.next keyword] env') := by
  refine .unfold (y := fun k => executeAll k [.next keyword] env') rfl hk fun k₁ _ hk₁ => ?_
  have hfirst : RunsInto R leader φ (fun _ r r' => r = .next ∧ r' = Signal.next)
      (Pure.pure .next) (execute k₁ (.next keyword) env') :=
    .unfold (y := fun k => execute k (.next keyword) env') rfl hk₁ fun _ _ _ => .pure ⟨rfl, rfl⟩
  rw [executeAll_cons, ← bind_pure (Pure.pure Signal.next)]
  refine hfirst.bind fun ψ r r' _ hr => ?_
  obtain ⟨rfl, rfl⟩ := hr
  exact .pure .next

/-- The fuel in the body of a loop that is written out: for the body, and for an increment in front of a
    `continue`. -/
structure BodyFuel (n j k : Nat) (leader : Leader) : Prop where
  body : Fuel 0 j k leader
  increment : Fuel (j + 4) n k leader
  le : j ≤ n

theorem BodyFuel.both {j : Nat} (h : BodyFuel n (j + 1) (k + 1) leader) : BodyFuel n j k leader :=
  have hincrement : Fuel (j + 4 + 1) n (k + 1) leader := h.increment.less (by omega)
  ⟨h.body.both.less (Nat.zero_le _), hincrement.unfold, Nat.le_of_succ_le h.le⟩

/-- **What the body of a loop does with the fuel `j`**, if the increment had fuel `n`. -/
structure BodyAt (R : Rewriting) (leader : Leader) (n j : Nat) : Prop where
  execute : ∀ {k φ slots env env' l outer s s'}, BodyFuel n j k leader → EnvInto φ slots env env' →
    EnvInto φ l.slots outer env' → StmtInto R (some l) slots s s' →
    RunsInto R leader φ (SignalInto R) (execute j s env >>= closed n l.increment outer)
      (execute k s' env')
  executeAll : ∀ {k φ slots env env' l outer ss ss'}, BodyFuel n j k leader →
    EnvInto φ slots env env' → EnvInto φ l.slots outer env' → StmtsInto R (some l) slots ss ss' →
    RunsInto R leader φ (SignalInto R) (executeAll j ss env >>= closed n l.increment outer)
      (executeAll k ss' env')

section Body

variable {j : Nat} {l : Loop} {outer : Env}

theorem execute_body (ih : ∀ j ≤ n, IntoAt R leader j) (ihj : BodyAt R leader n j)
    (hk : BodyFuel n (j + 1) (k + 1) leader) (henv : EnvInto φ slots env env')
    (houter : EnvInto φ l.slots outer env') {s s' : Stmt} (h : StmtInto R (some l) slots s s') :
    RunsInto R leader φ (SignalInto R) (execute (j + 1) s env >>= closed n l.increment outer)
      (execute (k + 1) s' env') := by
  have plain : s.handsOn = false → StmtInto R none slots s s' →
      RunsInto R leader φ (SignalInto R) (execute (j + 1) s env >>= closed n l.increment outer)
        (execute (k + 1) s' env') := fun hs h m m' hm =>
    ((ih (j + 1) hk.le).execute hk.body henv h m m' hm).congr
      (run_closed (execute_ne_next hs) m) rfl
  have hkj := hk.both
  cases h with
  | expr h => exact plain rfl (.expr h)
  | varDecl hin hname h => exact plain rfl (.varDecl hin hname h)
  | funDecl hin hname hcode => exact plain rfl (.funDecl hin hname hcode)
  | classDecl hin hname hsuperclass hms => exact plain rfl (.classDecl hin hname hsuperclass hms)
  | whileLoop hc hs => exact plain rfl (.whileLoop hc hs)
  | forLoop hinit hc hi hs => exact plain rfl (.forLoop hinit hc hi hs)
  | unrolled hu hinit hc hi hs => exact plain rfl (.unrolled hu hinit hc hi hs)
  | ret ht h => exact plain rfl (.ret ht h)
  | leave ht => exact plain rfl (.leave ht)
  | branch hc ha hb =>
    rw [execute_branch, execute_branch, bind_assoc]
    refine ((ih j hkj.le).evaluate hkj.body henv hc).bind fun ψ v v' hφ hv => ?_
    rw [hv.isTruthy]
    split
    · exact ihj.execute hkj (henv.later hφ) (houter.later hφ) ha
    · cases hb with
      | none => exact .pure .normal
      | some hb => exact ihj.execute hkj (henv.later hφ) (houter.later hφ) hb
  | block _ h =>
    rw [execute_block, execute_block, bind_assoc]
    refine (newFrame_inFront env env' .nil).runs.bind fun ψ inner inner' hφ hin => ?_
    exact ihj.executeAll (l := l.enter) hkj (hin.shared henv hφ) (hin.added houter hφ) h
  | next hnone =>
    rw [hnone l rfl]
    exact .pure .next
  | continued hi =>
    rw [asNext, execute_block]
    refine .addedFrame houter fun inner hinner => ?_
    exact effects_into 2 (ih n (Nat.le_refl n)) (hkj.increment.less (by omega)) hinner hi _
      fun ψ k₁ hk₁ => next_into hk₁ _

theorem executeAll_body (ihj : BodyAt R leader n j) (hk : BodyFuel n j k leader)
    (henv : EnvInto φ slots env env') (houter : EnvInto φ l.slots outer env') {ss ss' : List Stmt}
    (h : StmtsInto R (some l) slots ss ss') :
    RunsInto R leader φ (SignalInto R) (executeAll (j + 1) ss env >>= closed n l.increment outer)
      (executeAll (k + 1) ss' env') := by
  cases h with
  | nil => exact .pure .normal
  | cons h hs =>
    rw [executeAll_cons, executeAll_cons, onward_closed]
    refine (ihj.execute hk henv houter h).bind fun ψ r r' hφ hr => ?_
    cases hr with
    | normal => exact ihj.executeAll hk (henv.later hφ) (houter.later hφ) hs
    | ret hv => exact .pure (.ret hv)
    | leave => exact .pure .leave
    | next => exact .pure .next

/-- **The body of a loop, with the increment run at each `continue`**, is the written-out body. -/
theorem bodyAt (ih : ∀ j ≤ n, IntoAt R leader j) (j : Nat) : BodyAt R leader n j := by
  induction j with
  | zero =>
    exact {
      execute := fun hk _ _ _ => .fuel (x := fun j => execute j _ _ >>= closed n _ _)
        (y := fun k => execute k _ _) rfl rfl hk.body fun _ _ h => nomatch h
      executeAll := fun hk _ _ _ => .fuel (x := fun j => executeAll j _ _ >>= closed n _ _)
        (y := fun k => executeAll k _ _) rfl rfl hk.body fun _ _ h => nomatch h }
  | succ j ihj =>
    refine ⟨fun {k φ slots env env' l outer s s'} hk henv houter h => ?_,
      fun {k φ slots env env' l outer ss ss'} hk henv houter h => ?_⟩
    · refine .fuel (x := fun j => execute j s env >>= closed n l.increment outer)
        (y := fun k => execute k s' env') rfl rfl hk.body fun j' k' hj hk' _ => ?_
      cases hj
      subst hk'
      exact execute_body ih ihj hk henv houter h
    · refine .fuel (x := fun j => executeAll j ss env >>= closed n l.increment outer)
        (y := fun k => executeAll k ss' env') rfl rfl hk.body fun j' k' hj hk' _ => ?_
      cases hj
      subst hk'
      exact executeAll_body ihj hk.both henv houter h

end Body

section Turns

variable {c c' : Expr} {i i' : Option Expr} {s s' : Stmt}

/-- The body of a loop and its increment. -/
theorem withIncrement_into (ih : ∀ j ≤ n, IntoAt R leader j) (hk : Fuel (n + 6) n k leader)
    (henv : EnvInto φ slots env env') (hi : OptionExprInto R (.added :: slots) i i')
    (hs : StmtInto R (some ⟨i, .added :: slots⟩) (.added :: slots) s s') :
    RunsInto R leader φ (SignalInto R)
      ((execute n s env >>= closed n i env) >>= stepped n i env)
      (execute k (withIncrement s' i') env') := by
  refine .unfold (y := fun k => execute k (withIncrement s' i') env') rfl hk fun k₁ _ hk₁ => ?_
  rw [withIncrement, execute_block]
  refine .addedFrame henv fun inner hinner => ?_
  refine .unfold (y := fun k => executeAll k (s' :: effects i') inner) rfl hk₁ fun k₂ _ hk₂ => ?_
  rw [executeAll_cons]
  have hbody : BodyFuel n n k₂ leader := ⟨hk₂.less (Nat.zero_le _), hk₂, Nat.le_refl n⟩
  refine ((bodyAt ih n).execute hbody hinner hinner hs).bind fun ψ r r' hφ hr => ?_
  cases hr with
  | normal =>
    have heffects := effects_into (V := SignalInto R) 1 (ih n (Nat.le_refl n))
      (hk₂.less (by omega)) (hinner.later hφ) hi [] fun ψ k hk => finished_into hk
    rw [List.append_nil] at heffects
    exact heffects
  | ret hv => exact .pure (.ret hv)
  | leave => exact .pure .leave
  | next => exact .pure .next

theorem unrolled_into (ih : ∀ j ≤ n, IntoAt R leader j) (hk : Fuel (n + 15) n k leader)
    (henv : EnvInto φ slots env env') (hc : ExprInto R slots c c')
    (hi : OptionExprInto R (.added :: slots) i i')
    (hs : StmtInto R (some ⟨i, .added :: slots⟩) (.added :: slots) s s') :
    RunsInto R leader φ (SignalInto R) (turns (n + 1) c i s env)
      (turns (k + 1) c' none (withIncrement s' i') env') := by
  have ihn := ih n (Nat.le_refl n)
  have hk₀ : Fuel 0 n k leader := hk.less (Nat.zero_le _)
  rw [turns_succ, turns_succ]
  refine (ihn.evaluate hk₀ henv hc).bind fun ψ v v' hφ hv => .choice hv ?_ (.pure .normal)
  rw [turned_stepped]
  refine (withIncrement_into ih (hk.less (by omega)) (henv.later hφ) hi hs).bind
    fun χ r r' hψ hr => ?_
  cases hr with
  | leave => exact .pure .normal
  | ret hv => exact .pure (.ret hv)
  | normal | next => exact ihn.unrolled hk₀ ((henv.later hφ).later hψ) hc hi hs

/-- The `while` loop that a `for` loop is written as. -/
theorem alone_into (ih : IntoAt R leader n) (hk : Fuel 2 n k leader)
    (henv : EnvInto φ slots env env') (hc : ExprInto R slots c c')
    (hi : OptionExprInto R (.added :: slots) i i')
    (hs : StmtInto R (some ⟨i, .added :: slots⟩) (.added :: slots) s s') :
    RunsInto R leader φ (SignalInto R) (turns n c i s env)
      (executeAll k [.whileLoop c' (withIncrement s' i')] env') := by
  refine .unfold (y := fun k => executeAll k [.whileLoop c' (withIncrement s' i')] env') rfl hk
    fun k₁ _ hk₁ => ?_
  have hloop : RunsInto R leader φ (SignalInto R) (turns n c i s env)
      (execute k₁ (.whileLoop c' (withIncrement s' i')) env') :=
    .unfold (y := fun k => execute k (.whileLoop c' (withIncrement s' i')) env') rfl hk₁
      fun k₂ _ hk₂ => ih.unrolled (k := k₂) hk₂ henv hc hi hs
  rw [executeAll_cons, ← bind_pure (turns n c i s env)]
  refine hloop.bind fun ψ r r' _ hr => ?_
  cases hr with
  | normal => exact finished_into hk₁
  | ret hv => exact .pure (.ret hv)
  | leave => exact .pure .leave
  | next => exact .pure .next

/-- What a loop starts with finishes normally. -/
theorem start_into (ih : ∀ j ≤ n, IntoAt R leader j) (hk : Fuel 0 n k leader)
    (henv : EnvInto φ slots env env') (hin : Innermost slots) {s s' : Stmt}
    (h : StartInto R slots (some s) (some s')) :
    RunsInto R leader φ (fun _ _ r' => r' = .normal) (execute n s env) (execute k s' env') := by
  refine .fuel (x := fun n => execute n s env) (y := fun k => execute k s' env') rfl rfl hk
    fun n₁ k₁ hn _ hk₁ => ?_
  have ihn := ih n₁ (hn ▸ Nat.le_succ n₁)
  have hk₀ : Fuel 0 n₁ k₁ leader := hk₁.less (Nat.zero_le _)
  cases h with
  | expr h => exact (ihn.evaluate hk₀ henv h).bind fun _ _ _ _ _ => .pure rfl
  | varDecl hname h =>
    refine (ihn.evaluate hk₀ henv h).bind fun ψ v v' hφ hv => PartInto.runs ?_
    exact (define_into (henv.later hφ) hin hname hv).bind fun _ _ _ _ _ => .pure rfl

theorem started_into (ih : ∀ j ≤ n, IntoAt R leader j) (hk : Fuel 3 n k leader)
    (henv : EnvInto φ slots env env') (hin : Innermost slots) {init init' : Option Stmt}
    (hinit : StartInto R slots init init') (hc : ExprInto R slots c c')
    (hi : OptionExprInto R (.added :: slots) i i')
    (hs : StmtInto R (some ⟨i, .added :: slots⟩) (.added :: slots) s s') :
    RunsInto R leader φ (SignalInto R) (started n init c i s env)
      (executeAll k (init'.toList ++ [.whileLoop c' (withIncrement s' i')]) env') := by
  have ihn := ih n (Nat.le_refl n)
  -- a start, and the loop behind it
  have hsome : ∀ {s₀ s₀' : Stmt}, StartInto R slots (some s₀) (some s₀') →
      RunsInto R leader φ (SignalInto R) (started n (some s₀) c i s env)
        (executeAll k (s₀' :: [.whileLoop c' (withIncrement s' i')]) env') := by
    intro s₀ s₀' h
    refine .unfold (y := fun k => executeAll k (s₀' :: [.whileLoop c' (withIncrement s' i')]) env')
      rfl hk fun k₁ _ hk₁ => ?_
    rw [executeAll_cons]
    refine (start_into ih (hk₁.less (Nat.zero_le _)) henv hin h).bind fun ψ r r' hφ hr => ?_
    subst hr
    exact alone_into ihn hk₁ (henv.later hφ) hc hi hs
  cases hinit with
  | none => exact alone_into ihn (hk.less (by omega)) henv hc hi hs
  | expr h => exact hsome (.expr h)
  | varDecl hname h => exact hsome (.varDecl hname h)

end Turns

/-! ## 6. All statements -/

theorem execute_into (ih : ∀ j ≤ n, IntoAt R leader j) (hk : Fuel 8 n k leader)
    (henv : EnvInto φ slots env env') {s s' : Stmt} (h : StmtInto R none slots s s') :
    RunsInto R leader φ (SignalInto R) (execute (n + 1) s env) (execute (k + 1) s' env') := by
  have ihn := ih n (Nat.le_refl n)
  have hk₀ : Fuel 0 n k leader := hk.less (Nat.zero_le 8)
  cases h with
  | expr h => exact (ihn.evaluate hk₀ henv h).bind fun _ _ _ _ _ => .pure .normal
  | varDecl hin hname h =>
    refine (ihn.evaluate hk₀ henv h).bind fun ψ v v' hφ hv => PartInto.runs ?_
    exact (define_into (henv.later hφ) hin hname hv).bind fun _ _ _ _ _ => .pure .normal
  | @funDecl _ _ name name' code code' hin hname hcode =>
    have hf : FunctionInto R φ ⟨some name.lexeme, code, env, false⟩
        ⟨some name'.lexeme, code', env', false⟩ :=
      ⟨congrArg some hname.lexeme, rfl, slots, henv, hcode, nofun⟩
    refine PartInto.runs ((newFunction_into hf).bind fun ψ v v' hφ hv => ?_)
    exact (define_into (henv.later hφ) hin hname hv).bind fun _ _ _ _ _ => .pure .normal
  | classDecl hin hname hsuperclass hmethods =>
    exact ((declareClass_into henv hin hname hsuperclass hmethods).bind
      fun _ _ _ _ _ => .pure .normal).runs
  | branch hc ha hb =>
    rw [execute_branch, execute_branch]
    refine (ihn.evaluate hk₀ henv hc).bind fun ψ v v' hφ hv => ?_
    refine .choice hv (ihn.execute hk₀ (henv.later hφ) ha) ?_
    cases hb with
    | none => exact .pure .normal
    | some hb => exact ihn.execute hk₀ (henv.later hφ) hb
  | whileLoop hc hs => exact ihn.turns (k := k) hk₀ henv hc .none hs
  | forLoop hinit hc hi hs =>
    rw [execute_forLoop, execute_forLoop]
    refine (newFrame_into henv .nil).runs.bind fun ψ inner inner' hφ hinner => ?_
    cases hinit with
    | none => exact ihn.turns hk₀ hinner hc hi hs
    | some hinit =>
      refine (ihn.execute hk₀ hinner hinit).bind fun χ _ _ hψ _ => ?_
      exact ihn.turns hk₀ (hinner.later hψ) hc hi hs
  | unrolled _ hinit hc hi hs =>
    rw [execute_forLoop, asWhile, execute_block]
    refine (newFrame_into henv .nil).runs.bind fun ψ inner inner' hφ hinner => ?_
    exact started_into ih (hk.less (by omega)) hinner (innermost_shared slots) hinit hc hi hs
  | block _ h =>
    rw [execute_block, execute_block]
    refine (newFrame_into henv .nil).runs.bind fun ψ inner inner' hφ hinner => ?_
    exact ihn.executeAll hk₀ hinner h
  | ret hk h =>
    cases h with
    | none => exact .pure (.ret .nil)
    | some h => exact (ihn.evaluate hk₀ henv h).bind fun _ _ _ _ hv => .pure (.ret hv)
  | leave => exact .pure .leave
  | next => exact .pure .next

theorem executeAll_into (ih : IntoAt R leader n) (hk : Fuel 0 n k leader)
    (henv : EnvInto φ slots env env') {ss ss' : List Stmt} (h : StmtsInto R none slots ss ss') :
    RunsInto R leader φ (SignalInto R) (executeAll (n + 1) ss env) (executeAll (k + 1) ss' env') := by
  cases h with
  | nil => exact .pure .normal
  | cons h hs =>
    rw [executeAll_cons, executeAll_cons]
    refine (ih.execute hk henv h).bind fun ψ r r' hφ hr => ?_
    cases hr with
    | normal => exact ih.executeAll hk (henv.later hφ) hs
    | ret hv => exact .pure (.ret hv)
    | leave => exact .pure .leave
    | next => exact .pure .next

theorem goOn_into (ih : IntoAt R leader n) (hk : Fuel 0 n k leader) (henv : EnvInto φ slots env env')
    {c c' : Expr} {i i' : Option Expr} {s s' : Stmt} (hc : ExprInto R slots c c')
    (hi : OptionExprInto R slots i i') (hs : StmtInto R none slots s s') :
    RunsInto R leader φ (SignalInto R) (goOn n c i s env) (goOn k c' i' s' env') := by
  cases hi with
  | none => exact ih.turns hk henv hc .none hs
  | some hi =>
    refine (ih.evaluate hk henv hi).bind fun ψ _ _ hφ _ => ?_
    exact ih.turns hk (henv.later hφ) hc (.some hi) hs

theorem turns_into (ih : IntoAt R leader n) (hk : Fuel 0 n k leader) (henv : EnvInto φ slots env env')
    {c c' : Expr} {i i' : Option Expr} {s s' : Stmt} (hc : ExprInto R slots c c')
    (hi : OptionExprInto R slots i i') (hs : StmtInto R none slots s s') :
    RunsInto R leader φ (SignalInto R) (turns (n + 1) c i s env) (turns (k + 1) c' i' s' env') := by
  rw [turns_succ, turns_succ]
  refine (ih.evaluate hk henv hc).bind fun ψ v v' hφ hv => .choice hv ?_ (.pure .normal)
  refine (ih.execute hk (henv.later hφ) hs).bind fun χ r r' hψ hr => ?_
  cases hr with
  | leave => exact .pure .normal
  | ret hv => exact .pure (.ret hv)
  | normal | next => exact goOn_into ih hk ((henv.later hφ).later hψ) hc hi hs

end Step

/-! ## 7. The induction -/

/-- **What the short program does**, the written-out one does. -/
theorem intoAt (R : Rewriting) (leader : Leader) (n : Nat) : IntoAt R leader n := by
  induction n using Nat.strongRecOn with
  | ind n ih =>
    have hless : ∀ {spare n k : Nat}, Fuel (n + 15 + 0) n k leader → spare ≤ 15 →
        Fuel spare n k leader := fun h hs => h.less (by omega)
    exact {
      evaluate := fun {k φ slots env env' e e'} hk henv h =>
        .fuel (x := fun n => evaluate n e env) (y := fun k => evaluate k e' env') rfl rfl hk
          fun j k₁ hj _ hk₁ => evaluate_into (ih j (hj ▸ Nat.lt_succ_self j))
            (hless hk₁ (by omega)) henv h
      evaluateAll := fun {k φ slots env env' es es'} hk henv h =>
        .fuel (x := fun n => evaluateAll n es env) (y := fun k => evaluateAll k es' env') rfl rfl hk
          fun j k₁ hj _ hk₁ => evaluateAll_into (ih j (hj ▸ Nat.lt_succ_self j))
            (hless hk₁ (by omega)) henv h
      apply := fun {k φ v v' args args' paren paren'} hk hv hargs hparen =>
        .fuel (x := fun n => apply n v args paren) (y := fun k => apply k v' args' paren') rfl rfl hk
          fun j k₁ hj _ hk₁ => apply_into (ih j (hj ▸ Nat.lt_succ_self j))
            (hless hk₁ (by omega)) hv hargs hparen
      invoke := fun {k φ f f' args args'} hk hf hargs =>
        .fuel (x := fun n => invoke n f args) (y := fun k => invoke k f' args') rfl rfl hk
          fun j k₁ hj _ hk₁ => invoke_into (ih j (hj ▸ Nat.lt_succ_self j))
            (hless hk₁ (by omega)) hf hargs
      execute := fun {k φ slots env env' s s'} hk henv h =>
        .fuel (x := fun n => execute n s env) (y := fun k => execute k s' env') rfl rfl hk
          fun j k₁ hj _ hk₁ => execute_into (fun i hi => ih i (hj ▸ Nat.lt_succ_of_le hi))
            (hless hk₁ (by omega)) henv h
      executeAll := fun {k φ slots env env' ss ss'} hk henv h =>
        .fuel (x := fun n => executeAll n ss env) (y := fun k => executeAll k ss' env') rfl rfl hk
          fun j k₁ hj _ hk₁ => executeAll_into (ih j (hj ▸ Nat.lt_succ_self j))
            (hless hk₁ (by omega)) henv h
      turns := fun {k φ slots env env' c c' i i' s s'} hk henv hc hi hs =>
        .fuel (x := fun n => turns n c i s env) (y := fun k => turns k c' i' s' env') rfl rfl hk
          fun j k₁ hj _ hk₁ => turns_into (ih j (hj ▸ Nat.lt_succ_self j))
            (hless hk₁ (by omega)) henv hc hi hs
      unrolled := fun {k φ slots env env' c c' i i' s s'} hk henv hc hi hs =>
        .fuel (x := fun n => turns n c i s env)
          (y := fun k => turns k c' none (withIncrement s' i') env') rfl rfl hk
          fun j k₁ hj _ hk₁ => unrolled_into (fun i hi => ih i (hj ▸ Nat.lt_succ_of_le hi))
            (hk₁.less (by omega)) henv hc hi hs }

end Lox
